import OlpEdgeSdk.Analysis.PrefetchCoverage

/-!
# Which prefetches end, and which ask for a tile once

The walk to the ancestors stops below the upper level. No level is below 0, and above the root
comes the invalid key with a level of its own, so from level 0 on the walk goes round and
round. From level 1 on every prefetch ends; it asks for a tile twice when one tile of the
request lies below another one, since the two are put together by their names alone.
-/

set_option autoImplicit false

namespace OlpEdgeSdk.Analysis

open OlpEdgeSdk.Base OlpEdgeSdk.Interface OlpEdgeSdk.Model TileKey PrefetchTilesRepository

/-! ## The walk from level 0 -/

/-- Every level is at or below level 0, that of the invalid key above the root as well. -/
theorem addParents_zero (hi : BitVec 32) (fuel : ℕ) (ret : SubQuadsRequest) (tile : TileKey) :
    addParents 0#32 hi fuel ret tile = none := by
  induction fuel generalizing ret tile with
  | zero => rfl
  | succ fuel ih =>
    unfold addParents
    rw [if_pos (BitVec.le_def.mpr (Nat.zero_le _))]
    apply ih

/-- With level 0 the call for a tile of the request does not return. -/
theorem effectiveTileKeysOf_zero (hi : BitVec 32) (fuel : ℕ) (tilekey : TileKey) :
    effectiveTileKeysOf fuel tilekey 0#32 hi true = none := by
  cases fuel with
  | zero => rfl
  | succ fuel =>
    unfold effectiveTileKeysOf
    have hnot : ¬ tilekey.level < 0#32 := BitVec.not_lt_zero
    simp only [if_neg hnot, addParents_zero, if_true]
    split
    · rfl
    · rfl

theorem effectiveTileKeys_zero {tilekeys : List TileKey} (hi : BitVec 32) (fuel : ℕ)
    (h : tilekeys ≠ []) : effectiveTileKeys fuel tilekeys 0#32 hi = none := by
  cases tilekeys with
  | nil => exact absurd rfl h
  | cons tilekey tilekeys =>
    unfold effectiveTileKeys
    rw [List.foldlM_cons, effectiveTileKeysOf_zero]
    rfl

/-- **Which prefetches end.** For valid tiles and levels in range the call returns, with valid
keys between the levels, exactly if the upper level is not 0 or there is no tile at all. -/
theorem effectiveTileKeys_ends_iff (tilekeys : List TileKey) (minLevel maxLevel : BitVec 32)
    (hvalid : ∀ k ∈ tilekeys, k.isValid = true) (hle : minLevel ≤ maxLevel)
    (hmax : maxLevel ≤ 31#32) :
    (∃ fuel ret, effectiveTileKeys fuel tilekeys minLevel maxLevel = some ret ∧
      ∀ e ∈ ret.entries, e.2.1.isValid = true ∧ minLevel ≤ e.2.1.level ∧
        e.2.1.level ≤ maxLevel) ↔
      0#32 < minLevel ∨ tilekeys = [] := by
  simp only [BitVec.le_def] at hle hmax ⊢
  have hthirty : maxLevel.toNat ≤ 31 := hmax
  constructor
  · rintro ⟨fuel, ret, hret, -⟩
    by_contra hnot
    obtain ⟨hmin, hne⟩ := not_or.mp hnot
    have hzero : minLevel = 0#32 := by
      rw [BitVec.lt_def, BitVec.toNat_zero] at hmin
      apply BitVec.eq_of_toNat_eq
      rw [BitVec.toNat_zero]
      omega
    rw [hzero, effectiveTileKeys_zero maxLevel fuel hne] at hret
    cases hret
  · rintro (hmin | rfl)
    · have hone : 1 ≤ minLevel.toNat := hmin
      obtain ⟨ret, hret, hcovers⟩ := effectiveTileKeys_related hone hle (by omega) 66
        (by omega) hvalid
      refine ⟨66, ret, hret, ?_⟩
      intro e he
      have hwithin := hcovers.within _ _ (SortedMap.find_of_mem he)
      have hdepth := hwithin.depth_nonneg
      have hbelow := hwithin.le_max
      exact ⟨hwithin.valid, hwithin.min_le, by omega⟩
    · exact ⟨0, SortedMap.empty, rfl, by rintro e ⟨⟩⟩

theorem effectiveTileKeys_ends_above_root :
    ∃ fuel ret, effectiveTileKeys fuel [fromRowColumnLevel 1#32 2#32 2#32] 1#32 7#32 = some ret ∧
      ∀ e ∈ ret.entries, e.2.1.isValid = true ∧ 1#32 ≤ e.2.1.level ∧ e.2.1.level ≤ 7#32 :=
  (effectiveTileKeys_ends_iff [fromRowColumnLevel 1#32 2#32 2#32] 1#32 7#32
    (by decide) (by decide) (by decide)).mpr (Or.inl (by decide))

/-- A prefetch of one tile on the levels from 0 to 3 never gets to send a request. -/
theorem effectiveTileKeys_endless :
    ¬ ∃ fuel ret, effectiveTileKeys fuel [fromRowColumnLevel 1#32 2#32 2#32] 0#32 3#32 =
      some ret := by
  rintro ⟨fuel, ret, hret⟩
  rw [effectiveTileKeys_zero 3#32 fuel (List.cons_ne_nil _ _)] at hret
  cases hret

/-! ## Tiles that are asked for twice -/

/-- The entry is for the tile or for one above it, deep enough to reach the tile. -/
def CoversKey (entry : TileKeyAndDepth) (u : TileKey) : Prop :=
  (u = entry.1 ∨ u.isChildOf entry.1 = true) ∧
    (u.level.toNat : ℤ) ≤ entry.1.level.toNat + entry.2

theorem coversKey_iff (entry : TileKeyAndDepth) {u : TileKey} {t w : Tile} (ht : KeyOf t entry.1)
    (hw : KeyOf w u) : CoversKey entry u ↔ t ≤ w ∧ (w.level : ℤ) ≤ t.level + entry.2 := by
  unfold CoversKey
  rw [eq_or_isChildOf_iff hw ht, hw.level, ht.level]

/-- **A tile of the request below another one** is asked for twice, or one above it is: the
requests below the upper tile reach a level that the lower one lists again. -/
theorem overlap_of_below (lo hi : ℕ) {ret : SubQuadsRequest} {P : Tile → ℤ → Prop}
    (hlists : Lists ret P) {s t : Tile} (hs : ∀ u d, Listed lo hi s u d → P u d)
    (ht : ∀ u d, Listed lo hi t u d → P u d) (hst : s < t) (hupper : max s.level lo < t.level)
    (hlower : max s.level lo < hi) :
    ∃ u : TileKey, u.isValid = true ∧ ∃ e ∈ ret.entries, ∃ e' ∈ ret.entries,
      e ≠ e' ∧ CoversKey e.2 u ∧ CoversKey e'.2 u := by
  -- the first tile at which the requests below `s` start, and the one below it, towards `t`
  obtain ⟨v, hvt, hv⟩ := Tile.exists_le_level (u := t) (l := max s.level lo + 1) (by omega)
  obtain ⟨u, huv, hu⟩ := Tile.exists_le_level (u := v) (l := max s.level lo) (by omega)
  have hsu : s ≤ u := Tile.le_of_le_of_level_le hst.le (huv.trans hvt) (by omega)
  have hlistedU : P u 1 :=
    hs u 1 (Or.inr ⟨⟨⟨hsu, by omega, by omega⟩, by omega⟩, by omega⟩)
  have hlistedV : P v 0 := by
    apply ht v 0
    by_cases hlast : v.level = t.level
    · have heq := Tile.eq_of_le_of_level_le hvt hlast.ge
      exact Or.inr ⟨⟨⟨heq.ge, by omega, by omega⟩, by rw [← heq]; omega⟩, by omega⟩
    · refine Or.inl ⟨lt_of_le_of_ne hvt ?_, by omega, by omega, le_refl 0⟩
      rintro rfl
      exact hlast rfl
  obtain ⟨k, hk, depth, hfind⟩ := hlists.listed u 1 hlistedU
  obtain ⟨k', hk', depth', hfind'⟩ := hlists.listed v 0 hlistedV
  have hdepth : 1 ≤ depth := ((hlists.find_key hk hfind).2 1).mpr hlistedU
  have hdepth' : 0 ≤ depth' := ((hlists.find_key hk' hfind').2 0).mpr hlistedV
  refine ⟨k', hk'.isValid, _, SortedMap.mem_of_find hfind, _, SortedMap.mem_of_find hfind',
    ?_, ?_, ?_⟩
  · intro heq
    have hsame : k = k' := congrArg (fun e : List Char × TileKeyAndDepth => e.2.1) heq
    rw [← hsame] at hk'
    rw [hk.tile_eq hk'] at hu
    omega
  · exact (coversKey_iff (k, depth) hk hk').mpr ⟨huv, by dsimp only; omega⟩
  · exact (coversKey_iff (k', depth') hk' hk').mpr ⟨le_refl v, by dsimp only; omega⟩

/-- Requests that start below two tiles, or below one, on levels not the same, are at least
five levels apart, unless one of the two tiles is well below the other. -/
theorem not_starts_within_four {lo hi : ℕ} {s t u v : Tile} (hu : Starts lo hi s u)
    (hv : Starts lo hi t v) (huv : u.level < v.level) (hnear : v.level ≤ u.level + 4)
    (hsame : max s.level lo = max t.level lo) : False := by
  obtain ⟨⟨hle, hlow, -⟩, hmod⟩ := hu
  obtain ⟨⟨hle', hlow', -⟩, hmod'⟩ := hv
  have hlevel := Tile.level_le_of_le hle
  have hlevel' := Tile.level_le_of_le hle'
  omega

/-- What the list has to be like for no tile to be asked for twice: a tile of it that lies
below another one is not below the upper level, or the other one is not above the lower
level, unless there is only one level. -/
def Apart (lo hi : ℕ) (s t : Tile) : Prop :=
  s < t → t.level ≤ lo ∨ hi ≤ s.level ∨ lo = hi

/-- **Two tiles listed on one path**, the upper one with depth enough to reach the lower, stem
from tiles of the request that are not apart. -/
theorem not_listed_below {lo hi : ℕ} {s t u v : Tile} {d : ℤ} (hst : Apart lo hi s t)
    (hts : Apart lo hi t s) (hu : Listed lo hi s u d) (hv : Listed lo hi t v 0) (huv : u < v)
    (hd : (v.level : ℤ) ≤ u.level + d) : False := by
  have hlevel : u.level < v.level := by
    by_contra hnot
    exact huv.ne (Tile.eq_of_le_of_level_le huv.le (by omega))
  rcases hu with ⟨-, -, -, hzero⟩ | ⟨hstart, hfour⟩
  · omega
  · have hnear : v.level ≤ u.level + 4 := by omega
    obtain ⟨⟨hsu, hlow, hhigh⟩, -⟩ := id hstart
    have hslevel := Tile.level_le_of_le hsu
    rcases hv with ⟨hvt, -, hvhigh, -⟩ | ⟨hstart', -⟩
    · -- the lower one is above a tile of the request, which is then below the other
      have htlevel := Tile.level_le_of_le hvt.le
      rcases hst (lt_of_le_of_lt hsu (huv.trans hvt)) with h | h | h
      · omega
      · omega
      · omega
    · obtain ⟨⟨htv, hvlow, hvhigh⟩, -⟩ := id hstart'
      have htlevel := Tile.level_le_of_le htv
      have hsame : max s.level lo = max t.level lo := by
        rcases lt_trichotomy s.level t.level with h | h | h
        · have hle := Tile.le_of_le_of_level_le (hsu.trans huv.le) htv h.le
          have hlt : s < t := lt_of_le_of_ne hle (by rintro rfl; omega)
          rcases hst hlt with h' | h' | h'
          · omega
          · omega
          · omega
        · rw [h]
        · have hle := Tile.le_of_le_of_level_le htv (hsu.trans huv.le) h.le
          have hlt : t < s := lt_of_le_of_ne hle (by rintro rfl; omega)
          rcases hts hlt with h' | h' | h'
          · omega
          · omega
          · omega
      exact not_starts_within_four hstart hstart' hlevel hnear hsame

/-- **Which prefetches ask for a tile once.** From level 1 on, every tile is covered by at most
one entry exactly if, for each tile of the list that lies below another one, either the lower
one is not below the upper level, or the upper one is not above the lower level, or the two
levels are the same. -/
theorem effectiveTileKeys_once_iff (tilekeys : List TileKey) (minLevel maxLevel : BitVec 32)
    (hvalid : ∀ k ∈ tilekeys, k.isValid = true) (hmin : 1#32 ≤ minLevel)
    (hle : minLevel ≤ maxLevel) (hmax : maxLevel ≤ 31#32) (fuel : ℕ) (hfuel : 66 ≤ fuel) :
    ∃ ret, effectiveTileKeys fuel tilekeys minLevel maxLevel = some ret ∧
      ((∀ u : TileKey, u.isValid = true → ∀ e ∈ ret.entries, ∀ e' ∈ ret.entries,
          CoversKey e.2 u → CoversKey e'.2 u → e = e') ↔
        ∀ upper ∈ tilekeys, ∀ lower ∈ tilekeys, lower.isChildOf upper = true →
          lower.level ≤ minLevel ∨ maxLevel ≤ upper.level ∨ minLevel = maxLevel) := by
  simp only [BitVec.le_def] at hmin hle hmax ⊢
  have hthirty : maxLevel.toNat ≤ 31 := hmax
  obtain ⟨ret, hret, hlists⟩ := effectiveTileKeys_lists hmin hle (by omega) fuel (by omega)
    hvalid
  refine ⟨ret, hret, ?_⟩
  constructor
  · intro honce upper hupper lower hlower hchild
    by_contra hnot
    simp only [not_or, not_le] at hnot
    obtain ⟨hlow, hhigh, hlevels⟩ := hnot
    obtain ⟨s, hs⟩ := isValid_iff_keyOf.mp (hvalid upper hupper)
    obtain ⟨t, ht⟩ := isValid_iff_keyOf.mp (hvalid lower hlower)
    rw [ht.level] at hlow
    rw [hs.level] at hhigh
    have hne : minLevel.toNat ≠ maxLevel.toNat := fun heq => hlevels (BitVec.eq_of_toNat_eq heq)
    have hst : s < t := (ht.isChildOf_iff hs).mp hchild
    have hstlevel : s.level < t.level := by
      by_contra hge
      exact hst.ne (Tile.eq_of_le_of_level_le hst.le (by omega))
    obtain ⟨u, hu, e, he, e', he', hdiff, hcovers, hcovers'⟩ := overlap_of_below
      minLevel.toNat maxLevel.toNat hlists (fun _ _ h => ⟨upper, hupper, s, hs, h⟩)
      (fun _ _ h => ⟨lower, hlower, t, ht, h⟩)
      hst (by omega) (by omega)
    exact hdiff (honce u hu e he e' he' hcovers hcovers')
  · intro hapart w hw e he e' he' hcovers hcovers'
    obtain ⟨x, hx⟩ := isValid_iff_keyOf.mp hw
    have hfind := SortedMap.find_of_mem he
    have hfind' := SortedMap.find_of_mem he'
    obtain ⟨u, hu, hname, hdepth⟩ := hlists.within _ _ hfind
    obtain ⟨v, hv, hname', hdepth'⟩ := hlists.within _ _ hfind'
    obtain ⟨hux, hxu⟩ := (coversKey_iff _ hu hx).mp hcovers
    obtain ⟨hvx, hxv⟩ := (coversKey_iff _ hv hx).mp hcovers'
    have htiles : ∀ s k t k', k ∈ tilekeys → KeyOf s k → k' ∈ tilekeys → KeyOf t k' →
        Apart minLevel.toNat maxLevel.toNat s t := by
      intro s k t k' hk hs hk' ht hlt
      have := hapart k hk k' hk' ((ht.isChildOf_iff hs).mpr hlt)
      rw [hs.level, ht.level] at this
      exact this.imp_right (Or.imp_right (congrArg BitVec.toNat))
    rcases lt_trichotomy u.level v.level with h | h | h
    · have huv : u < v := lt_of_le_of_ne (Tile.le_of_le_of_level_le hux hvx h.le)
        (by rintro rfl; omega)
      obtain ⟨k, hk, s, hs, hlisted⟩ := (hdepth e.2.2).mp (le_refl _)
      obtain ⟨k', hk', t, ht, hlisted'⟩ := (hdepth' e'.2.2).mp (le_refl _)
      have hvlevel := Tile.level_le_of_le hvx
      exact (not_listed_below (htiles s k t k' hk hs hk' ht) (htiles t k' s k hk' ht hk hs)
        hlisted hlisted'.bounds.2.2.2 huv (by omega)).elim
    · have heq : u = v := Tile.eq_of_le_of_level_le
        (Tile.le_of_le_of_level_le hux hvx h.le) h.ge
      rw [heq] at hu
      have hkeys : e.1 = e'.1 := by rw [hname, hname', hu.key_eq hv]
      rw [hkeys, hfind'] at hfind
      exact Prod.ext hkeys (Option.some.inj hfind).symm
    · have hvu : v < u := lt_of_le_of_ne (Tile.le_of_le_of_level_le hvx hux h.le)
        (by rintro rfl; omega)
      obtain ⟨k, hk, s, hs, hlisted⟩ := (hdepth e.2.2).mp (le_refl _)
      obtain ⟨k', hk', t, ht, hlisted'⟩ := (hdepth' e'.2.2).mp (le_refl _)
      have hulevel := Tile.level_le_of_le hux
      exact (not_listed_below (htiles t k' s k hk' ht hk hs) (htiles s k t k' hk hs hk' ht)
        hlisted' hlisted.bounds.2.2.2 hvu (by omega)).elim

theorem effectiveTileKeys_once_siblings :
    ∃ ret, effectiveTileKeys 66
        [fromRowColumnLevel 1#32 2#32 2#32, fromRowColumnLevel 1#32 1#32 3#32]
        2#32 9#32 = some ret ∧
      ∀ u : TileKey, u.isValid = true → ∀ e ∈ ret.entries, ∀ e' ∈ ret.entries,
        CoversKey e.2 u → CoversKey e'.2 u → e = e' := by
  obtain ⟨ret, hret, hiff⟩ := effectiveTileKeys_once_iff
    [fromRowColumnLevel 1#32 2#32 2#32, fromRowColumnLevel 1#32 1#32 3#32] 2#32 9#32
    (by decide) (by decide) (by decide) (by decide) 66 (by omega)
  exact ⟨ret, hret, hiff.mpr (by decide)⟩

/-- A tile of level 1 and one two levels below it, on the levels from 1 to 3: the tile between
them is in the request of the first and has a request of its own. -/
theorem effectiveTileKeys_overlap :
    ∃ ret, effectiveTileKeys 66
        [fromRowColumnLevel 0#32 0#32 1#32, fromRowColumnLevel 0#32 0#32 3#32]
        1#32 3#32 = some ret ∧
      ∃ u : TileKey, u.isValid = true ∧ ∃ e ∈ ret.entries, ∃ e' ∈ ret.entries,
        e ≠ e' ∧ CoversKey e.2 u ∧ CoversKey e'.2 u := by
  have hvalid : ∀ k ∈ [fromRowColumnLevel 0#32 0#32 1#32, fromRowColumnLevel 0#32 0#32 3#32],
      k.isValid = true := by
    decide
  obtain ⟨ret, hret, hlists⟩ := effectiveTileKeys_lists (show 1 ≤ (1#32).toNat by decide)
    (show (1#32).toNat ≤ (3#32).toNat by decide) (by decide) 66 (by decide) hvalid
  have hs : KeyOf ⟨1, 0, 0, by omega, by omega⟩ (fromRowColumnLevel 0#32 0#32 1#32) :=
    ⟨by decide, rfl, rfl, rfl⟩
  have ht : KeyOf ⟨3, 0, 0, by omega, by omega⟩ (fromRowColumnLevel 0#32 0#32 3#32) :=
    ⟨by decide, rfl, rfl, rfl⟩
  refine ⟨ret, hret, overlap_of_below 1 3 hlists
    (fun _ _ h => ⟨_, by simp, _, hs, h⟩) (fun _ _ h => ⟨_, by simp, _, ht, h⟩)
    ((ht.isChildOf_iff hs).mp (by decide)) (by decide) (by decide)⟩

end OlpEdgeSdk.Analysis
