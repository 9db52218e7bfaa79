import OlpEdgeSdk.Analysis.PrefetchEntries

/-!
# What a prefetch covers

An entry of the requests stands for a tile and what is below it down to its depth. A map of
requests covers what its entries cover: with every fifth level listed as deep as the backend
takes, that is all there is between the levels above and below the tiles of the request.
-/

set_option autoImplicit false

namespace OlpEdgeSdk.Analysis

open OlpEdgeSdk.Base OlpEdgeSdk.Interface OlpEdgeSdk.Model TileKey PrefetchTilesRepository

/-! ## Entries and what they cover -/

/-- An entry as it should be: under the name of its valid tile, and between the levels. -/
structure EntryWithin (minLevel maxLevel : ℕ) (name : List Char) (entry : TileKeyAndDepth) :
    Prop where
  valid : entry.1.isValid = true
  name_eq : name = entry.1.toHereTile
  depth_nonneg : 0 ≤ entry.2
  depth_le : entry.2 ≤ 4
  min_le : minLevel ≤ entry.1.level.toNat
  le_max : entry.1.level.toNat + entry.2 ≤ maxLevel

/-- `u` is the tile of the entry or below it, within the depth. -/
def EntryCovers (entry : TileKeyAndDepth) (u : Tile) : Prop :=
  ∃ t, KeyOf t entry.1 ∧ t ≤ u ∧ (u.level : ℤ) ≤ t.level + entry.2

/-- The requests, all as they should be, cover exactly the tiles of `P`. -/
structure Covers (minLevel maxLevel : ℕ) (ret : SubQuadsRequest) (P : Tile → Prop) : Prop where
  within : ∀ name entry, ret.find name = some entry → EntryWithin minLevel maxLevel name entry
  covered : ∀ u, (∃ name entry, ret.find name = some entry ∧ EntryCovers entry u) ↔ P u

/-- What one tile of the request stands for: what is below it and above it, between the
levels. -/
def Related (lo hi : ℕ) (t u : Tile) : Prop := (t ≤ u ∨ u ≤ t) ∧ lo ≤ u.level ∧ u.level ≤ hi

/-- Every tile between the levels that is related to a tile of the request lies below one that
is listed deep enough, and nothing else does. -/
theorem related_iff_exists_listed {lo hi : ℕ} {t v : Tile} :
    Related lo hi t v ↔ ∃ u ≤ v, Listed lo hi t u (v.level - u.level) := by
  unfold Related Listed Under Starts Below
  constructor
  · rintro ⟨htree, hlow, hhigh⟩
    by_cases hbelow : t ≤ v
    · have hlevel := Tile.level_le_of_le hbelow
      -- the last level at or above `v` at which requests start
      obtain ⟨u, huv, hu⟩ := Tile.exists_le_level (u := v)
        (l := v.level - (v.level - max t.level lo) % 5) (by omega)
      have htu : t ≤ u := Tile.le_of_le_of_level_le hbelow huv (by omega)
      exact ⟨u, huv, Or.inr ⟨⟨⟨htu, by omega, by omega⟩, by omega⟩, by omega⟩⟩
    · have hlt : v < t := by
        rcases htree with hle | hle
        · exact absurd hle hbelow
        · exact lt_of_le_not_ge hle hbelow
      exact ⟨v, le_refl v, Or.inl ⟨hlt, hlow, hhigh, by omega⟩⟩
  · rintro ⟨u, huv, ⟨hlt, hlow, hhigh, hd⟩ | ⟨⟨⟨hle, hlow, hhigh⟩, -⟩, hd⟩⟩
    · have heq := Tile.eq_of_le_of_level_le huv (by omega)
      rw [← heq]
      exact ⟨Or.inr hlt.le, hlow, hhigh⟩
    · have hlevel := Tile.level_le_of_le huv
      exact ⟨Or.inl (hle.trans huv), by omega, by omega⟩

/-- The depths a tile is listed at leave it between the levels, and within what the backend
takes. -/
theorem Listed.bounds {lo hi : ℕ} {t u : Tile} {d : ℤ} (h : Listed lo hi t u d) :
    lo ≤ u.level ∧ u.level + d ≤ hi ∧ d ≤ 4 ∧ Listed lo hi t u 0 := by
  rcases h with ⟨hlt, hlow, hhigh, hd⟩ | ⟨⟨⟨hle, hlow, hhigh⟩, hmod⟩, hd⟩
  · exact ⟨hlow, by omega, by omega, Or.inl ⟨hlt, hlow, hhigh, le_refl 0⟩⟩
  · exact ⟨hlow, by omega, by omega, Or.inr ⟨⟨⟨hle, hlow, hhigh⟩, hmod⟩, by omega⟩⟩

/-- The tiles of a request together. -/
theorem effectiveTileKeys_related {lo hi : BitVec 32} (hlo : 1 ≤ lo.toNat)
    (hlohi : lo.toNat ≤ hi.toNat) (hhi : hi.toNat < 32) (fuel : ℕ) (hfuel : 34 + hi.toNat < fuel)
    {tilekeys : List TileKey} (hvalid : ∀ k ∈ tilekeys, k.isValid = true) :
    ∃ ret, effectiveTileKeys fuel tilekeys lo hi = some ret ∧
      Covers lo.toNat hi.toNat ret
        fun u => ∃ k ∈ tilekeys, ∃ t, KeyOf t k ∧ Related lo.toNat hi.toNat t u := by
  obtain ⟨ret, hret, hlists⟩ := effectiveTileKeys_lists hlo hlohi hhi fuel hfuel hvalid
  refine ⟨ret, hret, ?_, ?_⟩
  · intro name entry hfind
    obtain ⟨u, hu, hname, hdepth⟩ := hlists.within name entry hfind
    have hlevel := hu.level
    obtain ⟨k, hk, t, ht, hlisted⟩ := (hdepth entry.2).mp (le_refl _)
    obtain ⟨hlow, hhigh, hfour, hzero⟩ := hlisted.bounds
    exact ⟨hu.isValid, hname, (hdepth 0).mpr ⟨k, hk, t, ht, hzero⟩, hfour, by omega, by omega⟩
  · intro v
    constructor
    · rintro ⟨name, entry, hfind, u, hu, huv, hd⟩
      obtain ⟨u', hu', -, hdepth⟩ := hlists.within name entry hfind
      rw [← hu.tile_eq hu'] at hdepth
      obtain ⟨k, hk, t, ht, hlisted⟩ := (hdepth (v.level - u.level)).mp (by omega)
      exact ⟨k, hk, t, ht, related_iff_exists_listed.mpr ⟨u, huv, hlisted⟩⟩
    · rintro ⟨k, hk, t, ht, hrelated⟩
      obtain ⟨u, huv, hlisted⟩ := related_iff_exists_listed.mp hrelated
      obtain ⟨k', hu, depth, hfind⟩ := hlists.listed u _ ⟨k, hk, t, ht, hlisted⟩
      have hd := ((hlists.find_key hu hfind).2 _).mpr ⟨k, hk, t, ht, hlisted⟩
      refine ⟨_, _, hfind, u, hu, huv, ?_⟩
      dsimp only at hd ⊢
      omega

/-- A key at a tile or below it, as the source's own predicate says it. -/
theorem eq_or_isChildOf_iff {t u : Tile} {k other : TileKey} (h : KeyOf u k)
    (hother : KeyOf t other) : (k = other ∨ k.isChildOf other = true) ↔ t ≤ u := by
  rw [h.isChildOf_iff hother]
  constructor
  · rintro (rfl | hlt)
    · exact (hother.tile_eq h).le
    · exact hlt.le
  · intro hle
    rcases eq_or_lt_of_le hle with rfl | hlt
    · exact Or.inl (h.key_eq hother)
    · exact Or.inr hlt

/-- **A prefetch covers exactly the tiles it was asked for.** With levels from one on, the
call returns; each entry stands under its tile's name, with a depth the backend takes, and
stays between the levels; and the entries with what is below them to their depths are the
tiles between the levels that are a tile of the list, above one or below one. -/
theorem effectiveTileKeys_covers (tilekeys : List TileKey) (minLevel maxLevel : BitVec 32)
    (hvalid : ∀ k ∈ tilekeys, k.isValid = true) (hmin : 1#32 ≤ minLevel)
    (hle : minLevel ≤ maxLevel) (hmax : maxLevel ≤ 31#32) (fuel : ℕ) (hfuel : 66 ≤ fuel) :
    ∃ ret, effectiveTileKeys fuel tilekeys minLevel maxLevel = some ret ∧
      (∀ e ∈ ret.entries, e.2.1.isValid = true ∧ e.1 = e.2.1.toHereTile ∧
        0 ≤ e.2.2 ∧ e.2.2 ≤ 4 ∧ minLevel ≤ e.2.1.level ∧
        e.2.1.level.toNat + e.2.2 ≤ maxLevel.toNat) ∧
      ∀ u : TileKey, u.isValid = true →
        ((∃ e ∈ ret.entries, (u = e.2.1 ∨ u.isChildOf e.2.1 = true) ∧
            (u.level.toNat : ℤ) ≤ e.2.1.level.toNat + e.2.2) ↔
          minLevel ≤ u.level ∧ u.level ≤ maxLevel ∧
            ∃ k ∈ tilekeys, u = k ∨ u.isChildOf k = true ∨ k.isChildOf u = true) := by
  simp only [BitVec.le_def] at hmin hle hmax ⊢
  have hthirty : maxLevel.toNat ≤ 31 := hmax
  obtain ⟨ret, hret, hcovers⟩ := effectiveTileKeys_related hmin hle (by omega) fuel
    (by omega) hvalid
  refine ⟨ret, hret, ?_, ?_⟩
  · intro e he
    have hwithin := hcovers.within _ _ (SortedMap.find_of_mem he)
    exact ⟨hwithin.valid, hwithin.name_eq, hwithin.depth_nonneg, hwithin.depth_le,
      hwithin.min_le, hwithin.le_max⟩
  · intro u hu
    obtain ⟨v, hv⟩ := isValid_iff_keyOf.mp hu
    have hlevel := hv.level
    constructor
    · rintro ⟨e, he, hbelow, hdepth⟩
      have hfind := SortedMap.find_of_mem he
      obtain ⟨t, ht⟩ := isValid_iff_keyOf.mp (hcovers.within _ _ hfind).valid
      have htlevel := ht.level
      have hcover : EntryCovers e.2 v :=
        ⟨t, ht, (eq_or_isChildOf_iff hv ht).mp hbelow, by omega⟩
      obtain ⟨k, hk, w, hw, hrelated, hlow, hhigh⟩ := (hcovers.covered v).mp ⟨_, _, hfind, hcover⟩
      refine ⟨by omega, by omega, k, hk, ?_⟩
      rcases hrelated with hwv | hvw
      · rcases (eq_or_isChildOf_iff hv hw).mpr hwv with heq | hchild
        · exact Or.inl heq
        · exact Or.inr (Or.inl hchild)
      · rcases (eq_or_isChildOf_iff hw hv).mpr hvw with heq | hchild
        · exact Or.inl heq.symm
        · exact Or.inr (Or.inr hchild)
    · rintro ⟨hlow, hhigh, k, hk, hrelated⟩
      obtain ⟨w, hw⟩ := isValid_iff_keyOf.mp (hvalid k hk)
      have htree : w ≤ v ∨ v ≤ w := by
        rcases hrelated with heq | hchild | hchild
        · exact Or.inl ((eq_or_isChildOf_iff hv hw).mp (Or.inl heq))
        · exact Or.inl ((eq_or_isChildOf_iff hv hw).mp (Or.inr hchild))
        · exact Or.inr ((eq_or_isChildOf_iff hw hv).mp (Or.inr hchild))
      obtain ⟨name, entry, hfind, t, ht, hle, hdepth⟩ :=
        (hcovers.covered v).mpr ⟨k, hk, w, hw, htree, by omega, by omega⟩
      have htlevel := ht.level
      exact ⟨(name, entry), SortedMap.mem_of_find hfind, (eq_or_isChildOf_iff hv ht).mpr hle,
        by simp only; omega⟩

theorem effectiveTileKeys_covers_nested :
    ∃ ret, effectiveTileKeys 66
        [fromRowColumnLevel 1#32 2#32 2#32, fromRowColumnLevel 3#32 5#32 3#32]
        1#32 12#32 = some ret ∧
      ∃ e ∈ ret.entries, (fromRowColumnLevel 0#32 1#32 1#32 = e.2.1 ∨
        (fromRowColumnLevel 0#32 1#32 1#32).isChildOf e.2.1 = true) := by
  obtain ⟨ret, hret, -, hcovers⟩ := effectiveTileKeys_covers
    [fromRowColumnLevel 1#32 2#32 2#32, fromRowColumnLevel 3#32 5#32 3#32] 1#32 12#32
    (by decide) (by decide) (by decide) (by decide) 66 (by omega)
  obtain ⟨e, he, hbelow, -⟩ := (hcovers (fromRowColumnLevel 0#32 1#32 1#32) (by decide)).mpr
    ⟨by decide, by decide, fromRowColumnLevel 1#32 2#32 2#32, by simp, by decide⟩
  exact ⟨ret, hret, e, he, hbelow⟩

end OlpEdgeSdk.Analysis
