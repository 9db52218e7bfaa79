import OlpEdgeSdk.Analysis.TileKeyStrings
import OlpEdgeSdk.Model.PrefetchTilesRepository

/-!
# The entries of a prefetch

Which tiles the requests of a prefetch are listed under, and how deep each goes. A tile with a
depth at least `d` is listed at depth `d`; merging two maps by the greater depth is then the
union. A tile of the request lists what is above it with no depth, and below it every fifth
level with as much depth as the backend takes.
-/

set_option autoImplicit false

namespace OlpEdgeSdk.Analysis

open OlpEdgeSdk.Base OlpEdgeSdk.Interface OlpEdgeSdk.Model TileKey PrefetchTilesRepository

/-! ## A map of requests as a relation -/

/-- The requests are those of `P`: each under the name of its tile, and a tile with a depth
of at least `d` exactly where `P` holds of the tile and `d`. -/
structure Lists (ret : SubQuadsRequest) (P : Tile → ℤ → Prop) : Prop where
  within : ∀ name entry, ret.find name = some entry →
    ∃ u, KeyOf u entry.1 ∧ name = entry.1.toHereTile ∧ ∀ d, d ≤ entry.2 ↔ P u d
  listed : ∀ u d, P u d → ∃ k, KeyOf u k ∧ ∃ depth, ret.find k.toHereTile = some (k, depth)

theorem Lists.congr {ret : SubQuadsRequest} {P Q : Tile → ℤ → Prop} (h : Lists ret P)
    (hPQ : ∀ u d, P u d ↔ Q u d) : Lists ret Q where
  within name entry hfind := by
    obtain ⟨u, hu, hname, hdepth⟩ := h.within name entry hfind
    exact ⟨u, hu, hname, fun d => (hdepth d).trans (hPQ u d)⟩
  listed u d hQ := h.listed u d ((hPQ u d).mpr hQ)

theorem lists_empty : Lists SortedMap.empty fun _ _ => False where
  within := by simp
  listed := by simp

/-- What is found under the name of a tile is of that tile. -/
theorem Lists.find_key {ret : SubQuadsRequest} {P : Tile → ℤ → Prop} (h : Lists ret P)
    {u : Tile} {k : TileKey} (hu : KeyOf u k) {entry : TileKeyAndDepth}
    (hfind : ret.find k.toHereTile = some entry) :
    entry.1 = k ∧ ∀ d, d ≤ entry.2 ↔ P u d := by
  obtain ⟨v, hv, hname, hdepth⟩ := h.within _ _ hfind
  have hkey : k = entry.1 := toHereTile_injective hu.isValid hv.isValid hname
  rw [← hkey] at hv
  rw [hv.tile_eq hu] at hdepth
  exact ⟨hkey.symm, hdepth⟩

/-- **Storing an entry** of a tile that is not listed deeper. -/
theorem Lists.insert {ret : SubQuadsRequest} {P : Tile → ℤ → Prop} (h : Lists ret P) {u : Tile}
    {k : TileKey} (hu : KeyOf u k) (depth : ℤ) (hold : ∀ d, P u d → d ≤ depth) :
    Lists (ret.insert k.toHereTile (k, depth)) fun v d => P v d ∨ (v = u ∧ d ≤ depth) where
  within name entry hfind := by
    rw [SortedMap.find_insert] at hfind
    split at hfind
    · next heq =>
      rw [← Option.some.inj hfind]
      refine ⟨u, hu, heq, fun d => ?_⟩
      constructor
      · intro hd
        exact Or.inr ⟨rfl, hd⟩
      · rintro (hP | ⟨-, hd⟩)
        · exact hold d hP
        · exact hd
    · next hne =>
      obtain ⟨v, hv, hname, hdepth⟩ := h.within name entry hfind
      refine ⟨v, hv, hname, fun d => ?_⟩
      rw [hdepth]
      constructor
      · exact Or.inl
      · rintro (hP | ⟨rfl, -⟩)
        · exact hP
        · exact absurd (by rw [hname, hv.key_eq hu]) hne
  listed v d hd := by
    have hcase : v = u ∨ P v d := by
      rcases hd with hP | ⟨heq, -⟩
      · exact Or.inr hP
      · exact Or.inl heq
    rcases hcase with rfl | hP
    · exact ⟨k, hu, depth, SortedMap.find_insert_self ret _ _⟩
    · obtain ⟨k', hv, depth', hfind⟩ := h.listed v d hP
      refine ⟨k', hv, ?_⟩
      rw [SortedMap.find_insert]
      split
      · next heq => exact ⟨depth, by rw [toHereTile_injective hv.isValid hu.isValid heq]⟩
      · exact ⟨depth', hfind⟩

/-- `std::max` of two entries of one tile is the one with the greater depth. -/
theorem maxPair_of_tile_eq {a b : TileKeyAndDepth} (h : a.1 = b.1) :
    maxPair a b = (b.1, max a.2 b.2) := by
  have hirrefl : ∀ k : TileKey, k.lt k = false := by
    intro k
    simp [TileKey.lt, BitVec.lt_irrefl]
  obtain ⟨tile, depth⟩ := a
  obtain ⟨tile', depth'⟩ := b
  simp only at h
  subst h
  simp only [maxPair, ltPair, hirrefl, Bool.false_or, Bool.not_false, Bool.true_and,
    decide_eq_true_eq]
  split
  · rw [max_eq_right (by omega)]
  · rw [max_eq_left (by omega)]

/-- **Merging one entry** lists its tile down to its depth. -/
theorem Lists.mergeEntry {ret : SubQuadsRequest} {P : Tile → ℤ → Prop} (h : Lists ret P)
    {u : Tile} {k : TileKey} (hu : KeyOf u k) (depth : ℤ) :
    Lists (mergeEntry ret (k.toHereTile, (k, depth)))
      fun v d => P v d ∨ (v = u ∧ d ≤ depth) := by
  unfold PrefetchTilesRepository.mergeEntry
  cases hfind : ret.find k.toHereTile with
  | none =>
    apply h.insert hu
    intro d hP
    obtain ⟨k', hu', other, hother⟩ := h.listed u d hP
    rw [hu'.key_eq hu, hfind] at hother
    cases hother
  | some old =>
    obtain ⟨hkey, hdepth⟩ := h.find_key hu hfind
    dsimp only
    rw [maxPair_of_tile_eq hkey]
    have hinsert := h.insert hu (max old.2 depth)
      fun d hP => le_max_of_le_left ((hdepth d).mpr hP)
    refine hinsert.congr fun v d => ?_
    constructor
    · rintro (hP | ⟨rfl, hd⟩)
      · exact Or.inl hP
      · rcases le_max_iff.mp hd with hd | hd
        · exact Or.inl ((hdepth d).mp hd)
        · exact Or.inr ⟨rfl, hd⟩
    · rintro (hP | ⟨rfl, hd⟩)
      · exact Or.inl hP
      · exact Or.inr ⟨rfl, le_max_of_le_right hd⟩

/-- **Merging a map** lists what it lists. -/
theorem Lists.merge {ret other : SubQuadsRequest} {P Q : Tile → ℤ → Prop} (h : Lists ret P)
    (hother : Lists other Q) :
    Lists (other.entries.foldl PrefetchTilesRepository.mergeEntry ret)
      fun u d => P u d ∨ Q u d := by
  have hfold : ∀ (entries : List (List Char × TileKeyAndDepth)) (ret : SubQuadsRequest)
      (P : Tile → ℤ → Prop), Lists ret P → (∀ e ∈ entries, other.find e.1 = some e.2) →
      Lists (entries.foldl PrefetchTilesRepository.mergeEntry ret)
        fun u d => P u d ∨ ∃ e ∈ entries, KeyOf u e.2.1 ∧ d ≤ e.2.2 := by
    intro entries
    induction entries with
    | nil =>
      intro ret P h _
      exact h.congr (by simp)
    | cons e entries ih =>
      intro ret P h hentries
      obtain ⟨u, hu, hname, -⟩ := hother.within _ _ (hentries e List.mem_cons_self)
      have hone := h.mergeEntry hu e.2.2
      rw [← hname] at hone
      refine (ih _ _ hone fun e' he' => hentries e' (List.mem_cons_of_mem _ he')).congr ?_
      intro v d
      have hkey : v = u ↔ KeyOf v e.2.1 := by
        constructor
        · rintro rfl
          exact hu
        · intro hv
          exact hv.tile_eq hu
      simp [or_assoc, hkey]
  refine (hfold other.entries ret P h fun e he => SortedMap.find_of_mem he).congr ?_
  intro u d
  refine or_congr Iff.rfl ?_
  constructor
  · rintro ⟨e, he, hu, hd⟩
    obtain ⟨v, hv, -, hdepth⟩ := hother.within _ _ (SortedMap.find_of_mem he)
    rw [hu.tile_eq hv]
    exact (hdepth d).mp hd
  · intro hQ
    obtain ⟨k, hu, depth, hfind⟩ := hother.listed u d hQ
    exact ⟨_, SortedMap.mem_of_find hfind, hu, ((hother.find_key hu hfind).2 d).mpr hQ⟩

/-- Merging the requests of one tile after another lists what each of them lists. -/
theorem Lists.mergeAll {children : List TileKey} {f : TileKey → Option SubQuadsRequest}
    {ret : SubQuadsRequest} {P : Tile → ℤ → Prop} (h : Lists ret P)
    (Q : TileKey → Tile → ℤ → Prop)
    (hchildren : ∀ child ∈ children, ∃ tiles, f child = some tiles ∧ Lists tiles (Q child)) :
    ∃ all, children.foldlM (fun ret child => do
        let childTiles ← f child
        return childTiles.entries.foldl PrefetchTilesRepository.mergeEntry ret) ret = some all ∧
      Lists all fun u d => P u d ∨ ∃ child ∈ children, Q child u d := by
  induction children generalizing ret P with
  | nil => exact ⟨ret, rfl, h.congr (by simp)⟩
  | cons child children ih =>
    obtain ⟨tiles, hf, htiles⟩ := hchildren child List.mem_cons_self
    obtain ⟨all, hall, hlists⟩ := ih (h.merge htiles)
      fun c hc => hchildren c (List.mem_cons_of_mem _ hc)
    refine ⟨all, ?_, hlists.congr fun u d => by simp [or_assoc]⟩
    rw [List.foldlM_cons, hf]
    exact hall

/-! ## The walk to the ancestors -/

/-- At a tile or above it is at the tile or above the one over it. -/
theorem le_iff_eq_or_le_ancestor {u t : Tile} (h : 0 < t.level) :
    u ≤ t ↔ u = t ∨ u ≤ t.ancestor 1 := by
  constructor
  · intro hle
    by_cases hlevel : u.level < t.level
    · exact Or.inr ((Tile.le_ancestor_one_iff hlevel).mpr hle)
    · exact Or.inl (Tile.eq_of_le_of_level_le hle (by omega))
  · rintro (rfl | hle)
    · exact le_refl u
    · exact hle.trans (Tile.ancestor_le t 1)

/-- What the walk from a tile lists: the tile and what is above it, between the levels, and
nothing below them. -/
def Over (lo hi : ℕ) (t u : Tile) (d : ℤ) : Prop :=
  u ≤ t ∧ lo ≤ u.level ∧ u.level ≤ hi ∧ d ≤ 0

/-- **The loop of `AddParents`** lists the tile it has come to and its ancestors. What is in
the map already has no depth, so no entry loses any. -/
theorem addParents_spec {lo : BitVec 32} (hi : BitVec 32) (hlo : 1 ≤ lo.toNat) (fuel : ℕ)
    {ret : SubQuadsRequest} {P : Tile → ℤ → Prop} {tile : TileKey} {t : Tile}
    (h : Lists ret P) (ht : KeyOf t tile) (hfuel : t.level + 1 < fuel)
    (hflat : ∀ u d, P u d → d ≤ 0) :
    ∃ all, addParents lo hi fuel ret tile = some all ∧
      Lists all fun u d => P u d ∨ Over lo.toNat hi.toNat t u d := by
  induction fuel generalizing ret P tile t with
  | zero => omega
  | succ fuel ih =>
    unfold addParents
    by_cases hgo : lo ≤ tile.level
    · rw [if_pos hgo]
      rw [BitVec.le_def, ht.level] at hgo
      have hparent := ht.parent (by omega)
      have hstep : Lists (if tile.level ≤ hi then ret.insert tile.toHereTile (tile, 0) else ret)
          fun u d => P u d ∨ (u = t ∧ u.level ≤ hi.toNat ∧ d ≤ 0) := by
        by_cases hin : tile.level ≤ hi
        · rw [if_pos hin]
          rw [BitVec.le_def, ht.level] at hin
          refine (h.insert ht _ (hflat t)).congr fun u d => or_congr Iff.rfl ?_
          constructor
          · rintro ⟨rfl, hd⟩
            exact ⟨rfl, hin, hd⟩
          · rintro ⟨rfl, -, hd⟩
            exact ⟨rfl, hd⟩
        · rw [if_neg hin]
          rw [BitVec.le_def, ht.level, not_le] at hin
          refine h.congr fun u d => ?_
          constructor
          · exact Or.inl
          · rintro (hP | ⟨rfl, hlevel, -⟩)
            · exact hP
            · omega
      obtain ⟨all, hall, hlists⟩ := ih hstep hparent (by rw [Tile.ancestor_level]; omega) (by
        rintro u d (hP | ⟨-, -, hd⟩)
        · exact hflat u d hP
        · exact hd)
      refine ⟨all, hall, hlists.congr fun u d => ?_⟩
      unfold Over
      rw [le_iff_eq_or_le_ancestor (u := u) (t := t) (by omega)]
      constructor
      · rintro ((hP | ⟨rfl, hhigh, hd⟩) | ⟨hle, hbetween⟩)
        · exact Or.inl hP
        · exact Or.inr ⟨Or.inl rfl, hgo, hhigh, hd⟩
        · exact Or.inr ⟨Or.inr hle, hbetween⟩
      · rintro (hP | ⟨heq | hle, hlow, hhigh, hd⟩)
        · exact Or.inl (Or.inl hP)
        · exact Or.inl (Or.inr ⟨heq, hhigh, hd⟩)
        · exact Or.inr ⟨hle, hlow, hhigh, hd⟩
    · rw [if_neg hgo]
      rw [BitVec.le_def, ht.level, not_le] at hgo
      refine ⟨ret, rfl, h.congr fun u d => ?_⟩
      constructor
      · exact Or.inl
      · rintro (hP | ⟨hle, hlow, -⟩)
        · exact hP
        · have := Tile.level_le_of_le hle
          omega

/-! ## The descent -/

/-- Lists put one behind another, for indices each of which has one. -/
theorem foldlM_append_spec {ι α : Type} {f : ι → Option (List α)} {is : List ι} (acc : List α)
    (h : ∀ i ∈ is, ∃ l, f i = some l) :
    ∃ all, is.foldlM (fun ret i => do let l ← f i; return ret ++ l) acc = some all ∧
      ∀ a, a ∈ all ↔ a ∈ acc ∨ ∃ i ∈ is, ∃ l, f i = some l ∧ a ∈ l := by
  induction is generalizing acc with
  | nil => exact ⟨acc, rfl, by simp⟩
  | cons i is ih =>
    obtain ⟨l, hl⟩ := h i List.mem_cons_self
    obtain ⟨all, hall, hmem⟩ := ih (acc ++ l) fun j hj => h j (List.mem_cons_of_mem _ hj)
    refine ⟨all, ?_, ?_⟩
    · rw [List.foldlM_cons, hl]
      exact hall
    · intro a
      rw [hmem, List.mem_append]
      simp [hl, or_assoc]

/-- **`GetChildAtLevel`** gives the tiles of the level that are below the tile. -/
theorem getChildAtLevel_spec {fuel : ℕ} {tilekey : TileKey} {level : BitVec 32} {t : Tile}
    (ht : KeyOf t tilekey) (hlevel : t.level ≤ level.toNat) (hlt : level.toNat < 32)
    (hfuel : level.toNat < fuel + t.level) :
    ∃ children, getChildAtLevel fuel tilekey level = some children ∧
      ∀ child, child ∈ children ↔ ∃ u, KeyOf u child ∧ t ≤ u ∧ u.level = level.toNat := by
  induction fuel generalizing tilekey t with
  | zero => omega
  | succ fuel ih =>
    unfold getChildAtLevel
    by_cases hreached : level ≤ tilekey.level
    · rw [if_pos hreached]
      rw [BitVec.le_def, ht.level] at hreached
      refine ⟨[tilekey], rfl, ?_⟩
      intro child
      rw [List.mem_singleton]
      constructor
      · rintro rfl
        exact ⟨t, ht, le_refl t, by omega⟩
      · rintro ⟨u, hu, hle, hul⟩
        rw [Tile.eq_of_le_of_level_le hle (by omega)] at ht
        exact hu.key_eq ht
    · rw [if_neg hreached]
      rw [BitVec.le_def, ht.level, not_le] at hreached
      have hchild : ∀ i ∈ [0#8, 1#8, 2#8, 3#8], ∃ l,
          getChildAtLevel fuel (tilekey.getChild i) level = some l ∧
          ∀ child, child ∈ l ↔
            ∃ u, KeyOf u child ∧ t.child i.toNat ≤ u ∧ u.level = level.toNat := by
        intro i hi
        have hindex : ∀ i ∈ [0#8, 1#8, 2#8, 3#8], i.toNat < 4 := by decide
        exact ih (ht.getChild (by omega) (hindex i hi)) (by rw [Tile.child_level]; omega)
          (by rw [Tile.child_level]; omega)
      obtain ⟨all, hall, hmem⟩ := foldlM_append_spec
        (f := fun i => getChildAtLevel fuel (tilekey.getChild i) level) []
        (fun i hi => (hchild i hi).imp fun _ hl => hl.1)
      refine ⟨all, hall, ?_⟩
      intro child
      rw [hmem]
      constructor
      · rintro (hnil | ⟨i, hi, l, hl, hin⟩)
        · cases hnil
        · obtain ⟨l', hl', hspec⟩ := hchild i hi
          rw [hl] at hl'
          cases hl'
          obtain ⟨u, hu, hle, hul⟩ := (hspec child).mp hin
          exact ⟨u, hu, (Tile.le_child t _).trans hle, hul⟩
      · rintro ⟨u, hu, hle, hul⟩
        obtain ⟨i, hi, hle⟩ := (Tile.le_iff_exists_child_le (by omega)).mp hle
        have hidx : BitVec.ofNat 8 i ∈ [0#8, 1#8, 2#8, 3#8] := by
          interval_cases i <;> simp
        obtain ⟨l, hl, hspec⟩ := hchild _ hidx
        have hnat : (BitVec.ofNat 8 i).toNat = i := by
          rw [BitVec.toNat_ofNat]
          omega
        exact Or.inr ⟨_, hidx, l, hl, (hspec child).mpr ⟨u, hu, by rw [hnat]; exact hle, hul⟩⟩

/-- The tiles below a tile that are at a level or deeper are below its descendants there. -/
theorem le_iff_exists_le_level {t u : Tile} (level : ℕ) (ht : t.level ≤ level)
    (hu : level ≤ u.level) : t ≤ u ↔ ∃ v, t ≤ v ∧ v.level = level ∧ v ≤ u := by
  constructor
  · intro hle
    obtain ⟨v, hvu, hv⟩ := Tile.exists_le_level hu
    exact ⟨v, Tile.le_of_le_of_level_le hle hvu (by omega), hv, hvu⟩
  · rintro ⟨v, htv, -, hvu⟩
    exact htv.trans hvu

/-- What one tile stands for: what is below it, between the levels. -/
def Below (lo hi : ℕ) (t u : Tile) : Prop := t ≤ u ∧ lo ≤ u.level ∧ u.level ≤ hi

/-- The requests below a tile start at every fifth level, from the tile on or, if it is above
the levels, from the upper one on. -/
def Starts (lo hi : ℕ) (t u : Tile) : Prop :=
  Below lo hi t u ∧ (u.level - max t.level lo) % 5 = 0

/-- What the descent from a tile lists: the tiles its requests start at, with as much depth as
the backend takes and the levels leave. -/
def Under (lo hi : ℕ) (t u : Tile) (d : ℤ) : Prop :=
  Starts lo hi t u ∧ d ≤ min 4 (hi - u.level : ℤ)

/-- The descendants of a tile at a level, each with the requests that start below it. -/
theorem mergeChildren_spec {lo hi : BitVec 32} (level : BitVec 32) (fuel : ℕ)
    {ret : SubQuadsRequest} {P : Tile → ℤ → Prop} {tilekey : TileKey} {t : Tile}
    {f : TileKey → Option SubQuadsRequest} (h : Lists ret P)
    (ht : KeyOf t tilekey) (hlevel : t.level ≤ level.toNat) (hlt : level.toNat < 32)
    (hfuel : level.toNat < fuel + t.level)
    (hf : ∀ child v, KeyOf v child → v.level = level.toNat → ∃ tiles, f child = some tiles ∧
      Lists tiles (Under lo.toNat hi.toNat v)) :
    ∃ all, (do
        let children ← getChildAtLevel fuel tilekey level
        children.foldlM (fun ret child => do
          let childTiles ← f child
          return childTiles.entries.foldl PrefetchTilesRepository.mergeEntry ret) ret) = some all ∧
      Lists all fun u d => P u d ∨
        ∃ v, t ≤ v ∧ v.level = level.toNat ∧ Under lo.toNat hi.toNat v u d := by
  obtain ⟨children, hchildren, hmem⟩ := getChildAtLevel_spec ht hlevel hlt hfuel
  have hone : ∀ child ∈ children, ∃ tiles, f child = some tiles ∧
      Lists tiles fun u d => ∃ v, KeyOf v child ∧ Under lo.toNat hi.toNat v u d := by
    intro child hchild
    obtain ⟨v, hv, -, hvl⟩ := (hmem child).mp hchild
    obtain ⟨tiles, htiles, hlists⟩ := hf child v hv hvl
    refine ⟨tiles, htiles, hlists.congr fun u d => ?_⟩
    constructor
    · intro hunder
      exact ⟨v, hv, hunder⟩
    · rintro ⟨v', hv', hunder⟩
      rw [hv.tile_eq hv']
      exact hunder
  obtain ⟨all, hfold, hlists⟩ := h.mergeAll _ hone
  refine ⟨all, ?_, hlists.congr fun u d => or_congr Iff.rfl ?_⟩
  · rw [hchildren]
    exact hfold
  · constructor
    · rintro ⟨child, hchild, v, hv, hunder⟩
      obtain ⟨v', hv', htv, hvl⟩ := (hmem child).mp hchild
      rw [hv.tile_eq hv'] at hunder
      exact ⟨v', htv, hvl, hunder⟩
    · rintro ⟨v, htv, hvl, hunder⟩
      obtain ⟨child, hv⟩ := exists_keyOf (t := v) (by omega)
      exact ⟨child, (hmem child).mpr ⟨v, hv, htv, hvl⟩, v, hv, hunder⟩

/-- From a tile above the levels the requests start where they start from its descendants at
the upper level. -/
theorem under_iff_exists_upper {lo hi : ℕ} {t u : Tile} {d : ℤ} (hlo : t.level ≤ lo) :
    Under lo hi t u d ↔ ∃ v, t ≤ v ∧ v.level = lo ∧ Under lo hi v u d := by
  unfold Under Starts Below
  constructor
  · rintro ⟨⟨⟨hle, hlow, hhigh⟩, hmod⟩, hd⟩
    obtain ⟨v, htv, hvl, hvu⟩ := (le_iff_exists_le_level _ hlo hlow).mp hle
    refine ⟨v, htv, hvl, ⟨⟨hvu, hlow, hhigh⟩, ?_⟩, hd⟩
    rw [hvl, max_self]
    rw [max_eq_right hlo] at hmod
    exact hmod
  · rintro ⟨v, htv, hvl, ⟨⟨hvu, hlow, hhigh⟩, hmod⟩, hd⟩
    refine ⟨⟨⟨htv.trans hvu, hlow, hhigh⟩, ?_⟩, hd⟩
    rw [max_eq_right hlo]
    rw [hvl, max_self] at hmod
    exact hmod

/-- From a tile between the levels the requests start at the tile and five levels below. -/
theorem under_iff_self_or_fifth {lo hi : ℕ} {t u : Tile} {d : ℤ} (hlow : lo ≤ t.level)
    (hhigh : t.level ≤ hi) :
    Under lo hi t u d ↔ (u = t ∧ d ≤ min 4 (hi - t.level : ℤ)) ∨
      ∃ v, t ≤ v ∧ v.level = t.level + 5 ∧ Under lo hi v u d := by
  unfold Under Starts Below
  rw [max_eq_left hlow]
  constructor
  · rintro ⟨⟨⟨hle, hlo, hhi⟩, hmod⟩, hd⟩
    have hlevel := Tile.level_le_of_le hle
    by_cases hsame : u.level = t.level
    · have heq := Tile.eq_of_le_of_level_le hle hsame.le
      rw [← heq] at hd
      exact Or.inl ⟨heq.symm, hd⟩
    · obtain ⟨v, htv, hvl, hvu⟩ := (le_iff_exists_le_level (t.level + 5) (by omega)
        (by omega)).mp hle
      refine Or.inr ⟨v, htv, hvl, ⟨⟨hvu, hlo, hhi⟩, ?_⟩, hd⟩
      rw [hvl, max_eq_left (by omega)]
      omega
  · rintro (⟨rfl, hd⟩ | ⟨v, htv, hvl, ⟨⟨hvu, hlo, hhi⟩, hmod⟩, hd⟩)
    · exact ⟨⟨⟨le_refl u, hlow, hhigh⟩, by omega⟩, hd⟩
    · have hlevel := Tile.level_le_of_le hvu
      rw [hvl, max_eq_left (by omega)] at hmod
      exact ⟨⟨⟨htv.trans hvu, hlo, hhi⟩, by omega⟩, hd⟩

/-- **One tile, between the levels**, after what has been collected before: the tile with the
depth the backend takes, and the requests five levels below it. -/
theorem effectiveTileKeysOf_between {lo hi : BitVec 32} (hhi : hi.toNat < 32) (fuel : ℕ)
    {ret : SubQuadsRequest} {P : Tile → ℤ → Prop} {tilekey : TileKey} {t : Tile}
    (h : Lists ret P) (ht : KeyOf t tilekey)
    (hlow : lo.toNat ≤ t.level) (hhigh : t.level ≤ hi.toNat) (hfuel : 32 < fuel + t.level)
    (hflat : ∀ d, P t d → d ≤ 0) {f : TileKey → Option SubQuadsRequest}
    (hf : ∀ child v, KeyOf v child → t.level < v.level → v.level ≤ hi.toNat →
      ∃ tiles, f child = some tiles ∧ Lists tiles (Under lo.toNat hi.toNat v)) :
    ∃ all,
      (if hi - tilekey.level ≤ maxQuadTreeIndexDepth then
        some (ret.insert tilekey.toHereTile (tilekey, (hi - tilekey.level).toInt))
      else do
        let children ← getChildAtLevel fuel tilekey
          (tilekey.level + maxQuadTreeIndexDepth + 1#32)
        children.foldlM (fun ret child => do
            let childTiles ← f child
            return childTiles.entries.foldl PrefetchTilesRepository.mergeEntry ret)
          (ret.insert tilekey.toHereTile (tilekey, maxQuadTreeIndexDepth.toInt))) = some all ∧
      Lists all fun u d => P u d ∨ Under lo.toNat hi.toNat t u d := by
  have hlt := ht.level_lt
  have hk := ht.level
  have hsub : (hi - tilekey.level).toNat = hi.toNat - t.level := by
    rw [BitVec.toNat_sub_of_le (by rw [BitVec.le_def, hk]; exact hhigh), hk]
  by_cases hshallow : hi - tilekey.level ≤ maxQuadTreeIndexDepth
  · rw [if_pos hshallow]
    have hdepth : (hi - tilekey.level).toInt = hi.toNat - t.level := by
      rw [BitVec.toInt_eq_toNat_of_lt (by omega), hsub]
      omega
    have hfour : hi.toNat - t.level ≤ 4 := by
      rw [BitVec.le_def, hsub] at hshallow
      exact hshallow
    rw [hdepth]
    have hinsert := h.insert ht ((hi.toNat : ℤ) - t.level)
      fun d hP => (hflat d hP).trans (by omega)
    refine ⟨_, rfl, hinsert.congr fun u d => or_congr Iff.rfl ?_⟩
    rw [under_iff_self_or_fifth hlow hhigh, min_eq_right (by omega)]
    constructor
    · exact Or.inl
    · rintro (hself | ⟨v, -, hvl, ⟨⟨hvu, -, hhi⟩, -⟩, -⟩)
      · exact hself
      · have := Tile.level_le_of_le hvu
        omega
  · rw [if_neg hshallow]
    have hfour : 4 < hi.toNat - t.level := by
      rw [BitVec.le_def, hsub, not_le] at hshallow
      exact hshallow
    have hnext : (tilekey.level + maxQuadTreeIndexDepth + 1#32).toNat = t.level + 5 := by
      rw [BitVec.toNat_add, BitVec.toNat_add, hk, maxQuadTreeIndexDepth]
      simp only [BitVec.toNat_ofNat]
      omega
    have hinsert := h.insert ht 4 fun d hP => (hflat d hP).trans (by omega)
    obtain ⟨all, hall, hlists⟩ := mergeChildren_spec
      (tilekey.level + maxQuadTreeIndexDepth + 1#32) fuel hinsert ht (by omega) (by omega)
      (by omega) (fun child v hv hvl => hf child v hv (by omega) (by omega))
    refine ⟨all, hall, hlists.congr fun u d => ?_⟩
    rw [hnext, or_assoc, under_iff_self_or_fifth hlow hhigh, min_eq_left (by omega)]

/-- **One tile without its ancestors** lists the requests that start below it. The induction
is on the fuel; each call goes on with tiles on deeper levels. -/
theorem effectiveTileKeysOf_under {lo hi : BitVec 32} (hlohi : lo.toNat ≤ hi.toNat)
    (hhi : hi.toNat < 32) {fuel : ℕ} {tilekey : TileKey} {t : Tile} (ht : KeyOf t tilekey)
    (hhigh : t.level ≤ hi.toNat) (hfuel : 33 + hi.toNat < fuel + t.level) :
    ∃ tiles, effectiveTileKeysOf fuel tilekey lo hi false = some tiles ∧
      Lists tiles (Under lo.toNat hi.toNat t) := by
  induction fuel generalizing tilekey t with
  | zero => omega
  | succ fuel ih =>
    have hnotAbove : ¬ hi < tilekey.level := by
      rw [BitVec.lt_def, ht.level, not_lt]
      exact hhigh
    unfold effectiveTileKeysOf
    simp only [if_neg hnotAbove, Bool.false_eq_true, if_false]
    by_cases hbelow : tilekey.level < lo
    · rw [if_pos hbelow]
      rw [BitVec.lt_def, ht.level] at hbelow
      obtain ⟨all, hall, hlists⟩ := mergeChildren_spec lo fuel lists_empty ht
        (f := fun child => effectiveTileKeysOf fuel child lo hi false) hbelow.le (by omega)
        (by omega) (fun child v hv hvl => ih hv (by omega) (by omega))
      refine ⟨all, hall, hlists.congr fun u d => ?_⟩
      rw [under_iff_exists_upper hbelow.le, false_or]
    · rw [if_neg hbelow]
      rw [BitVec.lt_def, ht.level, not_lt] at hbelow
      obtain ⟨all, hall, hlists⟩ := effectiveTileKeysOf_between hhi fuel lists_empty ht
        hbelow hhigh (by omega) (fun _ hfalse => hfalse.elim)
        (f := fun child => effectiveTileKeysOf fuel child lo hi false)
        (fun child v hv hdeep hvhi => ih hv hvhi (by omega))
      exact ⟨all, hall, hlists.congr (by simp)⟩

/-! ## The request as a whole -/

/-- What one tile of the request lists: what is strictly above it, with no depth, and the
requests that start below it. -/
def Listed (lo hi : ℕ) (t u : Tile) (d : ℤ) : Prop :=
  (u < t ∧ lo ≤ u.level ∧ u.level ≤ hi ∧ d ≤ 0) ∨ Under lo hi t u d

/-- The walk that starts one level up goes through what is strictly above. -/
theorem over_ancestor_iff {lo hi : ℕ} {t u : Tile} {d : ℤ} (h : 0 < t.level) :
    Over lo hi (t.ancestor 1) u d ↔ u < t ∧ lo ≤ u.level ∧ u.level ≤ hi ∧ d ≤ 0 := by
  refine and_congr ?_ Iff.rfl
  constructor
  · intro hle
    refine lt_of_le_of_ne (hle.trans (Tile.ancestor_le t 1)) ?_
    rintro rfl
    have := Tile.level_le_of_le hle
    rw [Tile.ancestor_level] at this
    omega
  · intro hlt
    rcases (le_iff_eq_or_le_ancestor h).mp hlt.le with heq | hle
    · exact absurd heq hlt.ne
    · exact hle

/-- **One tile of the request.** -/
theorem effectiveTileKeysOf_lists {lo hi : BitVec 32} (hlo : 1 ≤ lo.toNat)
    (hlohi : lo.toNat ≤ hi.toNat) (hhi : hi.toNat < 32) {fuel : ℕ} {tilekey : TileKey} {t : Tile}
    (ht : KeyOf t tilekey) (hfuel : 34 + hi.toNat < fuel) :
    ∃ tiles, effectiveTileKeysOf fuel tilekey lo hi true = some tiles ∧
      Lists tiles (Listed lo.toNat hi.toNat t) := by
  cases fuel with
  | zero => omega
  | succ fuel =>
    have hlt := ht.level_lt
    have hchild : ∀ child v, KeyOf v child → v.level ≤ hi.toNat → ∃ tiles,
        effectiveTileKeysOf fuel child lo hi false = some tiles ∧
          Lists tiles (Under lo.toNat hi.toNat v) :=
      fun child v hv hvhi => effectiveTileKeysOf_under hlohi hhi hv hvhi (by omega)
    unfold effectiveTileKeysOf
    by_cases habove : hi < tilekey.level
    · simp only [if_pos habove]
      rw [BitVec.lt_def, ht.level] at habove
      obtain ⟨all, hall, hlists⟩ := addParents_spec hi hlo fuel lists_empty
        (ht.parent (by omega)) (by rw [Tile.ancestor_level]; omega) (by simp)
      refine ⟨all, hall, hlists.congr fun u d => ?_⟩
      rw [over_ancestor_iff (by omega), false_or]
      constructor
      · exact Or.inl
      · rintro (hover | ⟨⟨⟨hle, -, hhigh⟩, -⟩, -⟩)
        · exact hover
        · have := Tile.level_le_of_le hle
          omega
    · simp only [if_neg habove]
      rw [BitVec.lt_def, ht.level, not_lt] at habove
      by_cases hbelow : tilekey.level < lo
      · rw [if_pos hbelow]
        rw [BitVec.lt_def, ht.level] at hbelow
        obtain ⟨all, hall, hlists⟩ := mergeChildren_spec lo fuel lists_empty ht
          (f := fun child => effectiveTileKeysOf fuel child lo hi false) hbelow.le (by omega)
          (by omega) (fun child v hv hvl => hchild child v hv (by omega))
        refine ⟨all, hall, hlists.congr fun u d => ?_⟩
        rw [← under_iff_exists_upper hbelow.le, false_or]
        constructor
        · exact Or.inr
        · rintro (⟨hlt, hlow, -⟩ | hunder)
          · -- the ancestors of a tile above the levels are above them too
            have := Tile.level_le_of_le hlt.le
            omega
          · exact hunder
      · rw [if_neg hbelow]
        rw [BitVec.lt_def, ht.level, not_lt] at hbelow
        obtain ⟨ret, hret, hparents⟩ := addParents_spec hi hlo fuel lists_empty
          (ht.parent (by omega)) (by rw [Tile.ancestor_level]; omega) (by simp)
        obtain ⟨all, hall, hlists⟩ := effectiveTileKeysOf_between hhi fuel hparents ht
          hbelow habove (by omega) (by
            rintro d (hfalse | ⟨-, -, -, hd⟩)
            · exact hfalse.elim
            · exact hd)
          (f := fun child => effectiveTileKeysOf fuel child lo hi false)
          (fun child v hv _ hvhi => hchild child v hv hvhi)
        refine ⟨all, ?_, hlists.congr fun u d => ?_⟩
        · simp only [if_true, hret]
          exact hall
        · rw [over_ancestor_iff (by omega), false_or]
          exact Iff.rfl

/-- **The tiles of a request together.** -/
theorem effectiveTileKeys_lists {lo hi : BitVec 32} (hlo : 1 ≤ lo.toNat)
    (hlohi : lo.toNat ≤ hi.toNat) (hhi : hi.toNat < 32) (fuel : ℕ) (hfuel : 34 + hi.toNat < fuel)
    {tilekeys : List TileKey} (hvalid : ∀ k ∈ tilekeys, k.isValid = true) :
    ∃ ret, effectiveTileKeys fuel tilekeys lo hi = some ret ∧
      Lists ret fun u d => ∃ k ∈ tilekeys, ∃ t, KeyOf t k ∧ Listed lo.toNat hi.toNat t u d := by
  have hone : ∀ k ∈ tilekeys, ∃ tiles, effectiveTileKeysOf fuel k lo hi true = some tiles ∧
      Lists tiles fun u d => ∃ t, KeyOf t k ∧ Listed lo.toNat hi.toNat t u d := by
    intro k hk
    obtain ⟨t, ht⟩ := isValid_iff_keyOf.mp (hvalid k hk)
    obtain ⟨tiles, htiles, hlists⟩ := effectiveTileKeysOf_lists hlo hlohi hhi ht hfuel
    refine ⟨tiles, htiles, hlists.congr fun u d => ?_⟩
    constructor
    · intro hu
      exact ⟨t, ht, hu⟩
    · rintro ⟨t', ht', hu⟩
      rw [ht.tile_eq ht']
      exact hu
  obtain ⟨ret, hret, hlists⟩ := lists_empty.mergeAll _ hone
  exact ⟨ret, hret, hlists.congr (by simp)⟩

end OlpEdgeSdk.Analysis
