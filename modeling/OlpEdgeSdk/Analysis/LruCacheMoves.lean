import OlpEdgeSdk.Analysis.LruCacheRuns
import OlpEdgeSdk.Model.MovableLruCache

/-!
# Moving a cache

A cache that has not been moved is a cache of `Model.LruCache` with every iterator in its own
map (`placed`), and every use of the one is a use of the other (`use_call_placed`,
`visit_placed`). A move keeps the elements and the links between them, but the ends of the list
stay ends of the map that the elements have left (`moveConstruct_placed`, `moveAssign_placed`):
a loop over the moved cache follows the old end after the last item (`visit_relinked`), and so
does the erasure of either end of the list (`erase_end_relinked`). An empty list is its own end,
and the move itself follows it. So no move keeps a cache usable: `no_move_keeps_usable`.
-/

set_option autoImplicit false

namespace OlpEdgeSdk.Analysis.LruCacheMoves

open OlpEdgeSdk.Model OlpEdgeSdk.Base OlpEdgeSdk.Interface
open OlpEdgeSdk.Model.MovableLruCache (Use Answer)

variable {Key Value : Type}

/-! ## Maps -/

section

variable {A B : Type} (f : A → B) (m : AList fun _ : Key => A)

@[simp] theorem keys_mapValues : (mapValues f m).keys = m.keys :=
  List.map₂_keys _ _

variable [DecidableEq Key]

@[simp] theorem lookup_mapValues (key : Key) :
    (mapValues f m).lookup key = (m.lookup key).map f :=
  List.dlookup_map₂ key

theorem kerase_map (entries : List (Σ _ : Key, A)) (key : Key) :
    List.kerase key (entries.map (Sigma.map id fun _ => f) : List (Σ _ : Key, B)) =
      (entries.kerase key).map (Sigma.map id fun _ => f) := by
  induction entries with
  | nil => rfl
  | cons e entries ih =>
    by_cases h : key = e.1
    · simp [Sigma.map, h]
    · rw [List.map_cons, List.kerase_cons_ne (by simpa [Sigma.map] using h),
        List.kerase_cons_ne h, ih]
      rfl

theorem erase_mapValues (key : Key) : (mapValues f m).erase key = mapValues f (m.erase key) :=
  AList.ext (kerase_map f m.entries key)

theorem insert_mapValues (key : Key) (a : A) :
    (mapValues f m).insert key (f a) = mapValues f (m.insert key a) := by
  apply AList.ext
  have h := congrArg AList.entries (erase_mapValues f m key)
  exact congrArg (⟨key, f a⟩ :: ·) h

end

/-! ## A cache in its place -/

/-- An iterator of the one map, as an iterator of the map `id`. -/
def place (id : ℕ) (it : Option Key) : MapIterator Key := ⟨id, it⟩

def placedBucket (id : ℕ) (b : Bucket Key Value) : MovableBucket Key Value where
  next := place id b.next
  previous := place id b.previous
  value := b.value

/-- A cache whose map is the object `id`, with every iterator in that map. -/
def placed (id : ℕ) (c : LruCache Key Value) : MovableLruCache Key Value where
  id := id
  map := mapValues (placedBucket id) c.map
  first := place id c.first
  last := place id c.last
  maxSize := c.maxSize
  size := c.size

@[simp] theorem place_inj {id : ℕ} {it it' : Option Key} :
    place id it = place id it' ↔ it = it' := by
  simp [place]

@[simp] theorem endIt_placed (id : ℕ) (c : LruCache Key Value) :
    (placed id c).endIt = place id none := rfl

/-- A cache whose map has gone from the object `source` to the object `target`: the elements are
linked as before, and the ends of the list are still the end of `source`. -/
def relinked (source target : ℕ) (c : LruCache Key Value) : MovableLruCache Key Value where
  id := target
  map := mapValues (MovableBucket.moved source target) (placed source c).map
  first := place target c.first
  last := place target c.last
  maxSize := c.maxSize
  size := c.size

@[simp] theorem moved_place_some (source target : ℕ) (key : Key) :
    (place source (some key)).moved source target = place target (some key) := by
  simp [place, MapIterator.moved]

@[simp] theorem moved_place_none (source target : ℕ) :
    (place source (none : Option Key)).moved source target = place source none := by
  simp [place, MapIterator.moved]

/-- The end of another map is no end here. -/
theorem place_none_ne_endIt {source : ℕ} {m : MovableLruCache Key Value} (hne : source ≠ m.id) :
    place source none ≠ m.endIt := by
  intro h
  exact hne (congrArg MapIterator.map h)

/-- Two runs that are step by step the image of each other. -/
theorem bind_eq_map {A B A' B' : Type} {x : Option A} {x' : Option A'} {f : A → Option B}
    {f' : A' → Option B'} (r : A → A') (s : B → B') (hx : x' = x.map r)
    (hf : ∀ a, f' (r a) = (f a).map s) : x'.bind f' = (x.bind f).map s := by
  subst hx
  cases x with
  | none => rfl
  | some a => exact hf a

variable [DecidableEq Key]

section

variable (id : ℕ) (c : LruCache Key Value) (cost : Value → UInt64) (key : Key) (value : Value)

@[simp] theorem lookup_placed :
    (placed id c).map.lookup key = (c.map.lookup key).map (placedBucket id) :=
  lookup_mapValues _ _ _

theorem deref_place (it : Option Key) : (placed id c).deref (place id it) =
    it.bind fun key => (c.map.lookup key).map fun b => (key, placedBucket id b) := by
  unfold MovableLruCache.deref
  rw [if_pos (show (place id it).map = (placed id c).id from rfl)]
  cases it with
  | none => rfl
  | some key =>
    show ((placed id c).map.lookup key).map _ = _
    rw [lookup_placed, Option.map_map]
    rfl

/-- A bucket that is changed in the cache is changed in its place. -/
theorem placed_insert (b : Bucket Key Value) :
    { placed id c with map := (placed id c).map.insert key (placedBucket id b) } =
      placed id { c with map := c.map.insert key b } := by
  unfold placed
  rw [insert_mapValues]

/-- A bucket that is changed through an iterator. -/
theorem change_place (it : Option Key) (g : Bucket Key Value → Bucket Key Value)
    (g' : MovableBucket Key Value → MovableBucket Key Value)
    (hg : ∀ b, g' (placedBucket id b) = placedBucket id (g b)) :
    ((placed id c).deref (place id it)).map
        (fun e => { placed id c with map := (placed id c).map.insert e.1 (g' e.2) }) =
      (it.bind fun key => (c.map.lookup key).map fun b =>
        { c with map := c.map.insert key (g b) }).map (placed id) := by
  rw [deref_place]
  cases it with
  | none => rfl
  | some key =>
    simp only [Option.bind_some, Option.map_map]
    apply Option.map_congr
    intro b _
    show { placed id c with map := (placed id c).map.insert key (g' (placedBucket id b)) } = _
    rw [hg]
    exact placed_insert id c key (g b)

theorem setNext_place (it target : Option Key) :
    (placed id c).setNext (place id it) (place id target) =
      (c.setNext it target).map (placed id) :=
  change_place id c it (fun b => { b with next := target })
    (fun b => { b with next := place id target }) fun _ => rfl

theorem setPrevious_place (it target : Option Key) :
    (placed id c).setPrevious (place id it) (place id target) =
      (c.setPrevious it target).map (placed id) :=
  change_place id c it (fun b => { b with previous := target })
    (fun b => { b with previous := place id target }) fun _ => rfl

/-- A test for the end of the list. -/
theorem ite_endIt_place (it : Option Key) {x y : Option (LruCache Key Value)}
    {x' y' : Option (MovableLruCache Key Value)} (hx : x' = x.map (placed id))
    (hy : y' = y.map (placed id)) :
    (if place id it = (placed id c).endIt then x' else y') =
      (if it = none then x else y).map (placed id) := by
  rw [apply_ite (Option.map (placed id)), hx, hy, endIt_placed]
  exact if_congr place_inj rfl rfl

theorem promote_place :
    (placed id c).promote (place id (some key)) = (c.promote key).map (placed id) := by
  unfold MovableLruCache.promote LruCache.promote
  by_cases hfirst : c.first = some key
  · have hplaced : place id (some key) = (placed id c).first := by simp [placed, hfirst]
    rw [if_pos hfirst, if_pos hplaced]
    rfl
  · have hplaced : place id (some key) ≠ (placed id c).first := by
      simpa [placed] using Ne.symm hfirst
    rw [if_neg hfirst, if_neg hplaced]
    apply bind_eq_map (fun b => (key, placedBucket id b)) _ (deref_place id c (some key))
    intro b
    apply bind_eq_map _ _ (setNext_place id c b.previous b.next)
    intro c
    apply bind_eq_map (placed id)
    · rw [ite_not, ite_not]
      exact ite_endIt_place id c b.next rfl (setPrevious_place id c b.next b.previous)
    · intro c
      apply bind_eq_map _ _ (setPrevious_place id c (some key) none)
      intro c
      apply bind_eq_map _ _ (setNext_place id c (some key) c.first)
      intro c
      apply bind_eq_map _ _ (setPrevious_place id c c.first (some key))
      intro c
      rfl

/-- The cache and the items evicted, in their place. -/
def placedEvicted (id : ℕ) (r : LruCache Key Value × List (Key × Value)) :
    MovableLruCache Key Value × List (Key × Value) :=
  (placed id r.1, r.2)

theorem eraseAt_place (doEvictionCallback : Bool) :
    (placed id c).eraseAt cost (place id (some key)) doEvictionCallback =
      (c.eraseAt cost key doEvictionCallback).map (placedEvicted id) := by
  unfold MovableLruCache.eraseAt LruCache.eraseAt
  apply bind_eq_map (fun b => (key, placedBucket id b)) _ (deref_place id c (some key))
  intro b
  apply bind_eq_map (placed id)
  · exact ite_endIt_place id c b.next rfl (setPrevious_place id c b.next b.previous)
  · intro c
    apply bind_eq_map (placed id)
    · exact ite_endIt_place id c b.previous rfl (setNext_place id c b.previous b.next)
    · intro c
      have herase := erase_mapValues (placedBucket id) c.map key
      exact congrArg some (congrArg (fun m => ({ placed id c with
        map := m, size := c.size - cost b.value }, _)) herase)

theorem popLast_placed :
    (placed id c).popLast cost = (c.popLast cost).map (placedEvicted id) := by
  unfold MovableLruCache.popLast LruCache.popLast
  cases hlast : c.last with
  | none =>
    have hplaced : (placed id c).last = place id none := by simp [placed, hlast]
    have hnone := deref_place id c none
    simp [hplaced, MovableLruCache.eraseAt, hnone]
  | some key =>
    have hplaced : (placed id c).last = place id (some key) := by simp [placed, hlast]
    rw [hplaced]
    exact eraseAt_place id c cost key true

theorem evictLoop_placed (n : ℕ) :
    MovableLruCache.evictLoop cost n (placed id c) =
      (LruCache.evictLoop cost n c).map (placedEvicted id) := by
  induction n generalizing c with
  | zero =>
    unfold MovableLruCache.evictLoop LruCache.evictLoop
    rw [apply_ite (Option.map (placedEvicted id))]
    rfl
  | succ n ih =>
    unfold MovableLruCache.evictLoop LruCache.evictLoop
    rw [apply_ite (Option.map (placedEvicted id))]
    apply if_congr Iff.rfl _ rfl
    apply bind_eq_map _ _ (popLast_placed id c cost)
    rintro ⟨c, evicted⟩
    apply bind_eq_map _ _ (ih c)
    rintro ⟨c, rest⟩
    rfl

theorem evict_placed : (placed id c).evict cost = (c.evict cost).map (placedEvicted id) := by
  unfold MovableLruCache.evict LruCache.evict
  rw [evictLoop_placed]
  simp [placed]

theorem addInternal_place (newCost : UInt64) (oldCost : Option UInt64) :
    (placed id c).addInternal cost (place id (some key)) newCost oldCost =
      (c.addInternal cost key newCost oldCost).map (placedEvicted id) := by
  unfold MovableLruCache.addInternal LruCache.addInternal
  apply bind_eq_map (placed id) _ _ fun c => evict_placed id c cost
  cases oldCost with
  | none =>
    have hkeys : (placed id c).map.keys.length = c.map.keys.length := by simp [placed]
    simp only [hkeys]
    rw [apply_ite (Option.map (placed id))]
    apply if_congr Iff.rfl rfl
    apply bind_eq_map _ _ (setNext_place id c (some key) c.first)
    intro c
    apply bind_eq_map _ _ (setPrevious_place id c c.first (some key))
    intro c
    rfl
  | some oldCost => exact promote_place id { c with size := c.size + (newCost - oldCost) } key

/-- The result of an insertion, in its place. -/
def placedInsertion (id : ℕ) (r : Insertion Key Value) :
    MovableLruCache Key Value × Answer Key Value :=
  (placed id r.cache, .inserted r.it r.inserted r.evicted)

theorem addInternal_insert (b : Bucket Key Value) (newCost : UInt64) (oldCost : Option UInt64) :
    MovableLruCache.addInternal cost
        { placed id c with map := (placed id c).map.insert key (placedBucket id b) }
        (place id (some key)) newCost oldCost =
      (LruCache.addInternal cost { c with map := c.map.insert key b } key newCost oldCost).map
        (placedEvicted id) := by
  rw [placed_insert]
  exact addInternal_place id _ cost key newCost oldCost

theorem insert_placed :
    (placed id c).insert cost key value = (c.insert cost key value).map (placedInsertion id) := by
  unfold MovableLruCache.insert LruCache.insert
  rw [apply_ite (Option.map (placedInsertion id))]
  apply if_congr Iff.rfl rfl
  rw [lookup_placed]
  cases c.map.lookup key with
  | none =>
    apply bind_eq_map _ _ (addInternal_insert id c cost key ⟨none, none, value⟩ (cost value) none)
    rintro ⟨c, evicted⟩
    rfl
  | some b =>
    apply bind_eq_map _ _ (promote_place id c key)
    intro c
    rfl

theorem insertOrAssign_placed :
    (placed id c).insertOrAssign cost key value =
      (c.insertOrAssign cost key value).map (placedInsertion id) := by
  unfold MovableLruCache.insertOrAssign LruCache.insertOrAssign
  rw [lookup_placed]
  cases c.map.lookup key with
  | none =>
    simp only [Option.map_none]
    rw [apply_ite (Option.map (placedInsertion id))]
    apply if_congr Iff.rfl rfl
    apply bind_eq_map _ _ (addInternal_insert id c cost key ⟨none, none, value⟩ (cost value) none)
    rintro ⟨c, evicted⟩
    rfl
  | some b =>
    apply bind_eq_map _ _ (addInternal_insert id c cost key { b with value := value } (cost value)
      (some (cost b.value)))
    rintro ⟨c, evicted⟩
    rfl

theorem erase_placed : (placed id c).erase cost key =
    (c.erase cost key).map fun r => (placed id r.1, .erased r.2) := by
  unfold MovableLruCache.erase LruCache.erase
  rw [lookup_placed]
  cases c.map.lookup key with
  | none => rfl
  | some b =>
    have herased := eraseAt_place id c cost key false
    simp only [Option.map_some, Option.map_map]
    show Option.map _ ((placed id c).eraseAt cost (place id (some key)) false) = _
    rw [herased, Option.map_map]
    rfl

theorem find_placed : (placed id c).find key =
    (c.find key).map fun r => (placed id r.1, .found r.2) := by
  unfold MovableLruCache.find LruCache.find
  rw [lookup_placed]
  cases c.map.lookup key with
  | none => rfl
  | some b =>
    simp only [Option.map_some, Option.map_map]
    show Option.map _ ((placed id c).promote (place id (some key))) = _
    rw [promote_place, Option.map_map]
    rfl

theorem resize_placed (maxSize : UInt64) : (placed id c).resize cost maxSize =
    (c.resize cost maxSize).map fun r => (placed id r.1, .resized r.2) := by
  unfold MovableLruCache.resize LruCache.resize
  show Option.map _ ((placed id { c with maxSize := maxSize }).evict cost) = _
  rw [evict_placed, Option.map_map]
  rfl

/-- A call on a cache in its place is the call on the cache. -/
theorem use_call_placed (call : LruCache.Call Key Value) :
    ((placed id c).use cost (.call call)).map Prod.fst =
      (c.call cost call).map fun r => placed id r.1 := by
  cases call with
  | insert key value =>
    simp only [MovableLruCache.use, LruCache.call, insert_placed, Option.map_map]
    rfl
  | insertOrAssign key value =>
    simp only [MovableLruCache.use, LruCache.call, insertOrAssign_placed, Option.map_map]
    rfl
  | find key =>
    simp only [MovableLruCache.use, LruCache.call, find_placed, Option.map_map]
    rfl
  | findNoPromote key => rfl
  | erase key =>
    simp only [MovableLruCache.use, LruCache.call, erase_placed, Option.map_map]
    rfl
  | resize maxSize =>
    simp only [MovableLruCache.use, LruCache.call, resize_placed, Option.map_map]
    rfl
  | clear => rfl

end

/-! ## Runs in one place -/

theorem visitFrom_end (c : MovableLruCache Key Value) (n : ℕ) :
    c.visitFrom n c.endIt = some [] := by
  cases n with
  | zero => rfl
  | succ n =>
    unfold MovableLruCache.visitFrom
    rw [if_pos rfl]

theorem visitFrom_succ {c : MovableLruCache Key Value} {it : MapIterator Key} (n : ℕ)
    (h : it ≠ c.endIt) : c.visitFrom (n + 1) it = (c.deref it).bind fun e =>
      (c.visitFrom n e.2.next).map fun rest => (e.1, e.2.value) :: rest := by
  conv_lhs => unfold MovableLruCache.visitFrom
  rw [if_neg h]
  cases c.deref it with
  | none => rfl
  | some e => cases hrest : c.visitFrom n e.2.next with
    | none => simp [hrest]
    | some rest => simp [hrest]

section

variable {cost : Value → UInt64} {c : LruCache Key Value} {items : List (Key × Value)}

/-- The bucket of an item of the list. -/
theorem exists_bucket (h : Represents cost c items) {front rest : List (Key × Value)} {key : Key}
    {value : Value} (hitems : items = front ++ (key, value) :: rest) :
    ∃ b, c.map.lookup key = some b ∧ b.value = value ∧ b.next = (Assoc.keys rest).head? ∧
      b.previous = (Assoc.keys front).getLast? := by
  have hvalue : c.valueAt (some key) = some value := by
    rw [h.value]
    have hmem : (key, value) ∈ items := by simp [hitems]
    exact Assoc.valueOf_of_mem h.nodup hmem
  simp only [LruCache.valueAt, Option.bind_some, Option.map_eq_some_iff] at hvalue
  obtain ⟨b, hb, hvalue⟩ := hvalue
  have hkeys : Assoc.keys items = Assoc.keys front ++ key :: Assoc.keys rest := by
    simp [hitems, Assoc.keys]
  obtain ⟨hnext, hprevious⟩ := h.linked _ _ _ hkeys
  refine ⟨b, hb, hvalue, ?_, ?_⟩
  · simpa [LruCache.nextIt, hb] using hnext
  · simpa [previousIt, hb] using hprevious

/-- An iteration of a cache in its place visits its items in order of recency. -/
theorem visitFrom_placed (h : Represents cost c items) (id n : ℕ)
    {front rest : List (Key × Value)} (hitems : items = front ++ rest) :
    (placed id c).visitFrom n (place id (Assoc.keys rest).head?) = some (rest.take n) := by
  induction n generalizing front rest with
  | zero => rfl
  | succ n ih =>
    cases rest with
    | nil => exact visitFrom_end (placed id c) (n + 1)
    | cons item rest =>
      obtain ⟨key, value⟩ := item
      obtain ⟨b, hb, hvalue, hnext, -⟩ := exists_bucket h hitems
      have hrest : (placed id c).visitFrom n (place id b.next) = some (rest.take n) := by
        rw [hnext]
        apply ih
        rw [hitems, List.append_cons]
      have hend : place id (some key) ≠ (placed id c).endIt := by simp
      show (placed id c).visitFrom (n + 1) (place id (some key)) = _
      rw [visitFrom_succ n hend, deref_place]
      simp [hb, placedBucket, hrest, hvalue]

theorem visit_placed (h : Represents cost c items) (id n : ℕ) :
    (placed id c).visit n = some (items.take n) := by
  unfold MovableLruCache.visit
  show (placed id c).visitFrom n (place id c.first) = _
  rw [h.first]
  exact visitFrom_placed h id n (List.nil_append items).symm

/-- **Step.** Every use of a cache in its place succeeds and leaves one in its place. -/
theorem exists_use (h : Represents cost c items) (id : ℕ) (u : Use Key Value) :
    ∃ c' items' answer, (placed id c).use cost u = some (placed id c', answer) ∧
      Represents cost c' items' := by
  cases u with
  | call call =>
    obtain ⟨c', evicted, items', hcall, h'⟩ := h.exists_call call
    have huse := use_call_placed id c cost call
    rw [hcall, Option.map_some, Option.map_eq_some_iff] at huse
    obtain ⟨⟨_, answer⟩, huse, rfl⟩ := huse
    exact ⟨c', items', answer, huse, h'⟩
  | visit n =>
    refine ⟨c, items, .visited (items.take n), ?_, h⟩
    simp [MovableLruCache.use, visit_placed h]

/-- **Run.** A cache that is not moved answers every sequence of uses. -/
theorem exists_answers (h : Represents cost c items) (id : ℕ) (uses : List (Use Key Value)) :
    ∃ answers, (placed id c).answers cost uses = some answers := by
  induction uses generalizing c items with
  | nil => exact ⟨[], rfl⟩
  | cons u uses ih =>
    obtain ⟨c', items', answer, huse, h'⟩ := exists_use h id u
    obtain ⟨answers, hanswers⟩ := ih h'
    exact ⟨answer :: answers, by simp [MovableLruCache.answers, huse, hanswers]⟩

theorem exists_placed_run (h : Represents cost c items) (id : ℕ) (uses : List (Use Key Value)) :
    ∃ c' items', runFrom (fun c u => (MovableLruCache.use cost c u).map Prod.fst) (placed id c)
      uses = some (placed id c') ∧ Represents cost c' items' := by
  induction uses generalizing c items with
  | nil => exact ⟨c, items, rfl, h⟩
  | cons u uses ih =>
    obtain ⟨c₁, items₁, answer, huse, h₁⟩ := exists_use h id u
    obtain ⟨c', items', hrun, h'⟩ := ih h₁
    exact ⟨c', items', by simp [runFrom, huse, hrun], h'⟩

end

/-! ## Moves -/

section

variable {source target : ℕ} {cost : Value → UInt64} {c : LruCache Key Value}
  {items : List (Key × Value)}

theorem lookup_relinked (key : Key) : (relinked source target c).map.lookup key =
    (c.map.lookup key).map fun b => (placedBucket source b).moved source target := by
  show (mapValues _ _).lookup key = _
  rw [lookup_mapValues, lookup_placed, Option.map_map]
  rfl

theorem deref_relinked (key : Key) : (relinked source target c).deref (place target (some key)) =
    (c.map.lookup key).map fun b => (key, (placedBucket source b).moved source target) := by
  unfold MovableLruCache.deref
  rw [if_pos (show (place target (some key)).map = (relinked source target c).id from rfl)]
  show ((relinked source target c).map.lookup key).map _ = _
  rw [lookup_relinked, Option.map_map]
  rfl

theorem deref_old_end (m : MovableLruCache Key Value) (source : ℕ) :
    m.deref (place source none) = none :=
  ite_self none

/-- An iteration of a moved cache visits the items and then follows the end of the old map. -/
theorem visitFrom_relinked (hne : source ≠ target) (n : ℕ) (it : Option Key)
    {visited : List (Key × Value)}
    (h : (placed source c).visitFrom n (place source it) = some visited) :
    (relinked source target c).visitFrom n ((place source it).moved source target) =
      if visited.length < n then none else some visited := by
  induction n generalizing it visited with
  | zero =>
    rw [if_neg (Nat.not_lt_zero _)]
    exact h
  | succ n ih =>
    cases it with
    | none =>
      obtain rfl : [] = visited := Option.some.inj ((visitFrom_end _ _).symm.trans h)
      rw [moved_place_none, visitFrom_succ n (place_none_ne_endIt hne), deref_old_end]
      simp
    | some key =>
      have hstart : place source (some key) ≠ (placed source c).endIt := by simp
      have hhere : place target (some key) ≠ (relinked source target c).endIt := by
        simp [place, MovableLruCache.endIt]
      rw [visitFrom_succ n hstart, deref_place] at h
      rw [moved_place_some, visitFrom_succ n hhere, deref_relinked]
      cases hb : c.map.lookup key with
      | none => simp [hb] at h
      | some b =>
        simp only [Option.bind_some, hb, Option.map_some, Option.map_eq_some_iff] at h ⊢
        obtain ⟨rest, hrest, rfl⟩ := h
        have hvisited := ih b.next hrest
        simp only [MovableBucket.moved, placedBucket, hvisited, List.length_cons]
        split_ifs with hlt hlt'
        · rfl
        · omega
        · omega
        · rfl

theorem visit_relinked (hne : source ≠ target) (h : Represents cost c items)
    (hitems : items ≠ []) (n : ℕ) :
    (relinked source target c).visit n =
      if items.length < n then none else some (items.take n) := by
  obtain ⟨item, rest, rfl⟩ := List.exists_cons_of_ne_nil hitems
  have hfirst : (relinked source target c).first = (place source c.first).moved source target := by
    show place target c.first = _
    simp [h.first]
  have hshort : ((item :: rest).take n).length < n ↔ (item :: rest).length < n := by
    rw [List.length_take]
    omega
  unfold MovableLruCache.visit
  rw [hfirst, visitFrom_relinked hne n c.first (visit_placed h source n)]
  exact if_congr hshort rfl rfl

/-- An end of the list is found in the map that has been moved. The end of an empty list is the
end of the old map, which is followed. -/
theorem takenOver_moved (hne : source ≠ target) (h : Represents cost c items)
    {taken : MovableLruCache Key Value} (hid : taken.id = target)
    (hmap : taken.map = (relinked source target c).map) {it : Option Key}
    (hnone : it = none ↔ items = []) (hmem : ∀ key ∈ it, key ∈ Assoc.keys items) :
    taken.takenOver ((place source it).moved source target) =
      if items = [] then none else some (place target it) := by
  subst hid
  have hderef : ∀ it, taken.deref it = (relinked source taken.id c).deref it := by
    intro it
    unfold MovableLruCache.deref
    rw [hmap]
    rfl
  unfold MovableLruCache.takenOver
  cases it with
  | none =>
    rw [if_pos (hnone.mp rfl), moved_place_none, if_pos (place_none_ne_endIt hne), hderef,
      deref_old_end]
    rfl
  | some key =>
    have hin : key ∈ c.map := (h.mem_map_iff key).mpr (hmem key rfl)
    rw [← AList.lookup_isSome] at hin
    obtain ⟨b, hb⟩ := Option.isSome_iff_exists.mp hin
    have hstart : place taken.id (some key) ≠ taken.endIt := by
      simp [place, MovableLruCache.endIt]
    have hitems : items ≠ [] := fun hnil => Option.some_ne_none key (hnone.mpr hnil)
    have hfound : taken.findIt key = place taken.id (some key) := by
      unfold MovableLruCache.findIt
      rw [hmap, lookup_relinked, hb]
      rfl
    rw [if_neg hitems, moved_place_some, if_pos hstart, hderef, deref_relinked, hb]
    exact congrArg some hfound

/-- Both ends of the list. -/
theorem ends_takenOver (hne : source ≠ target) (h : Represents cost c items)
    (taken : MovableLruCache Key Value) (hid : taken.id = target)
    (hmap : taken.map = (relinked source target c).map) :
    taken.takenOver ((place source c.first).moved source target) =
        (if items = [] then none else some (place target c.first)) ∧
      taken.takenOver ((place source c.last).moved source target) =
        (if items = [] then none else some (place target c.last)) := by
  constructor
  · apply takenOver_moved hne h hid hmap
    · simp [h.first, Assoc.keys]
    · intro key hkey
      rw [h.first] at hkey
      exact List.mem_of_head? hkey
  · apply takenOver_moved hne h hid hmap
    · simp [h.last, Assoc.keys]
    · intro key hkey
      rw [h.last] at hkey
      exact List.mem_of_getLast? hkey

/-- **A new cache from a moved one**: the elements are relinked, and an empty list is not moved. -/
theorem moveConstruct_placed (hne : source ≠ target) (h : Represents cost c items) :
    (MovableLruCache.moveConstruct target (placed source c)).map Prod.fst =
      if items = [] then none else some (relinked source target c) := by
  obtain ⟨hfirst, hlast⟩ := ends_takenOver hne h
    ((MovableLruCache.new target c.maxSize).takeMap (placed source c)) rfl rfl
  simp only [MovableLruCache.moveConstruct, MovableLruCache.emptied, placed] at hfirst hlast ⊢
  rw [hfirst, hlast]
  split_ifs with hitems
  · rfl
  · rfl

/-- **A cache assigned from a moved one**, whatever it has had before. -/
theorem moveAssign_placed (d : MovableLruCache Key Value) (hne : source ≠ d.id)
    (h : Represents cost c items) : (d.moveAssign (placed source c)).map Prod.fst =
      if items = [] then none else some (relinked source d.id c) := by
  obtain ⟨hfirst, hlast⟩ := ends_takenOver hne h (d.takeMap (placed source c)) rfl rfl
  simp only [MovableLruCache.moveAssign, MovableLruCache.emptied, placed] at hfirst hlast ⊢
  rw [hfirst, hlast]
  split_ifs with hitems
  · rfl
  · rfl

theorem id_setPrevious {m m' : MovableLruCache Key Value} {it it' : MapIterator Key}
    (h : m.setPrevious it it' = some m') : m'.id = m.id := by
  obtain ⟨e, -, rfl⟩ := Option.map_eq_some_iff.mp h
  rfl

/-- An element with a link to the end of another map cannot be erased. -/
theorem eraseAt_of_old_end {m : MovableLruCache Key Value} (hne : source ≠ m.id)
    {it : MapIterator Key} {e : Key × MovableBucket Key Value} (hderef : m.deref it = some e)
    (hend : e.2.next = place source none ∨ e.2.previous = place source none) (flag : Bool) :
    m.eraseAt cost it flag = none := by
  obtain ⟨key, b⟩ := e
  unfold MovableLruCache.eraseAt
  rw [hderef]
  simp only [Option.bind_eq_bind, Option.bind_some, Option.bind_eq_none_iff]
  intro m' hm' m'' hm''
  exfalso
  have hid : m'.id = m.id := by
    split_ifs at hm' with hnext
    · obtain rfl := Option.some.inj hm'
      rfl
    · exact id_setPrevious hm'
  cases hend with
  | inl hnext =>
    have hold : b.next = place source none := hnext
    rw [hold, if_neg (place_none_ne_endIt hne)] at hm'
    simp [MovableLruCache.setPrevious, deref_old_end] at hm'
  | inr hprevious =>
    have hold : b.previous = place source none := hprevious
    rw [hold, if_neg (place_none_ne_endIt (hid ▸ hne))] at hm''
    simp [MovableLruCache.setNext, deref_old_end] at hm''

/-- A moved cache follows an end iterator when an end of its list is erased.
SOURCE: LruCache.h:227-233, 508-529 -/
theorem erase_end_relinked (hne : source ≠ target) (h : Represents cost c items) {key : Key}
    (hkey : c.first = some key ∨ c.last = some key) :
    (relinked source target c).erase cost key = none := by
  have hbucket : ∃ b, c.map.lookup key = some b ∧ (b.next = none ∨ b.previous = none) := by
    cases hkey with
    | inl hfirst =>
      rw [h.first] at hfirst
      cases items with
      | nil => cases hfirst
      | cons item rest =>
        obtain rfl := Option.some.inj hfirst
        obtain ⟨b, hb, -, -, hprevious⟩ := exists_bucket h (List.nil_append (item :: rest)).symm
        exact ⟨b, hb, Or.inr hprevious⟩
    | inr hlast =>
      rw [h.last] at hlast
      cases items using List.reverseRecOn with
      | nil => cases hlast
      | append_singleton front item =>
        simp only [Assoc.keys_append, Assoc.keys_cons, Assoc.keys_nil, List.getLast?_concat,
          Option.some.injEq] at hlast
        subst hlast
        obtain ⟨b, hb, -, hnext, -⟩ := exists_bucket h rfl
        exact ⟨b, hb, Or.inl hnext⟩
  obtain ⟨b, hb, hend⟩ := hbucket
  unfold MovableLruCache.erase
  rw [lookup_relinked, hb]
  simp only [Option.map_some, Option.map_eq_none_iff]
  apply eraseAt_of_old_end hne
  · exact (deref_relinked key).trans (congrArg (Option.map _) hb)
  · cases hend with
    | inl hnext => simp [MovableBucket.moved, placedBucket, hnext]
    | inr hprevious => simp [MovableBucket.moved, placedBucket, hprevious]

end

/-! ## Usable caches -/

/-- The loop from `begin()` to `end()` ends, and has visited the items. -/
def Visits (c : MovableLruCache Key Value) (items : List (Key × Value)) : Prop :=
  ∃ n, c.visit n = some items ∧ items.length < n

/-- A cache that has the items of another one, in its order, its size and its maximum, and
answers every sequence of uses as it does. -/
structure KeepsUsable (cost : Value → UInt64) (c m : MovableLruCache Key Value) : Prop where
  items : ∀ key, (m.map.lookup key).map MovableBucket.value =
    (c.map.lookup key).map MovableBucket.value
  order : ∃ items, Visits c items ∧ Visits m items
  size : m.size = c.size
  maxSize : m.maxSize = c.maxSize
  answers : ∀ uses, ∃ answers, m.answers cost uses = some answers ∧
    c.answers cost uses = some answers

/-- A move that follows no end iterator and leaves a cache that is as usable. -/
def MoveKeepsUsable (cost : Value → UInt64) (c : MovableLruCache Key Value)
    (moved : Option (MovableLruCache Key Value × MovableLruCache Key Value)) : Prop :=
  ∃ m left, moved = some (m, left) ∧ KeepsUsable cost c m

/-- What a move would have to keep is kept by every run of uses in one place. -/
theorem keepsUsable_in_place {cost : Value → UInt64} {id : ℕ} {maxSize : UInt64}
    {uses : List (Use Key Value)} {c : MovableLruCache Key Value}
    (hc : MovableLruCache.run cost id maxSize uses = some c) : KeepsUsable cost c c := by
  obtain ⟨c₀, items, hrun, h⟩ := exists_placed_run (Represents.new maxSize) id uses
  obtain rfl : placed id c₀ = c := Option.some.inj (hrun.symm.trans hc)
  refine ⟨fun _ => rfl, ?_, rfl, rfl, ?_⟩
  · have hvisits : Visits (placed id c₀) items := by
      refine ⟨items.length + 1, ?_, Nat.lt_succ_self _⟩
      rw [visit_placed h, List.take_of_length_le (Nat.le_succ _)]
    exact ⟨items, hvisits, hvisits⟩
  · intro uses
    obtain ⟨answers, hanswers⟩ := exists_answers h id uses
    exact ⟨answers, hanswers, hanswers⟩

section

variable {source target : ℕ} {c m : MovableLruCache Key Value}

theorem deref_eq_some {it : MapIterator Key} {e : Key × MovableBucket Key Value} :
    c.deref it = some e ↔ it = ⟨c.id, some e.1⟩ ∧ c.map.lookup e.1 = some e.2 := by
  obtain ⟨id, key⟩ := it
  obtain ⟨key', b⟩ := e
  unfold MovableLruCache.deref
  cases key with
  | none => simp
  | some key =>
    by_cases hid : id = c.id
    · simp only [hid, if_true, Option.bind_some, Option.map_eq_some_iff, Prod.mk.injEq,
        MapIterator.mk.injEq, Option.some.injEq, true_and]
      constructor
      · rintro ⟨b', hb, rfl, rfl⟩
        exact ⟨rfl, hb⟩
      · rintro ⟨rfl, hb⟩
        exact ⟨b, hb, rfl, rfl⟩
    · simp [hid]

/-- An iterator that is taken over is found again. -/
theorem takenOver_eq {it it' : MapIterator Key} (h : c.takenOver it = some it') : it' = it := by
  unfold MovableLruCache.takenOver at h
  split at h
  · obtain ⟨e, he, rfl⟩ := Option.map_eq_some_iff.mp h
    obtain ⟨rfl, hb⟩ := deref_eq_some.mp he
    simp [MovableLruCache.findIt, hb]
  · rename_i hend
    exact (Option.some.inj h).symm.trans (not_not.mp hend).symm

/-- The cache that a move leaves: the elements have gone with their links, and the list begins
with the iterator with which it has begun. -/
structure MovedFrom (c m : MovableLruCache Key Value) : Prop where
  map : m.map = mapValues (MovableBucket.moved c.id m.id) c.map
  first : m.first = c.first.moved c.id m.id

theorem movedFrom_moveConstruct {left : MovableLruCache Key Value}
    (h : MovableLruCache.moveConstruct target c = some (m, left)) :
    m.id = target ∧ MovedFrom c m := by
  simp only [MovableLruCache.moveConstruct, Option.bind_eq_bind, Option.bind_eq_some_iff,
    Option.some.injEq, Prod.mk.injEq] at h
  obtain ⟨first, hfirst, last, -, rfl, -⟩ := h
  exact ⟨rfl, rfl, takenOver_eq hfirst⟩

theorem movedFrom_moveAssign {d left : MovableLruCache Key Value}
    (h : d.moveAssign c = some (m, left)) : m.id = d.id ∧ MovedFrom c m := by
  simp only [MovableLruCache.moveAssign, Option.bind_eq_bind, Option.bind_eq_some_iff,
    Option.some.injEq, Prod.mk.injEq] at h
  obtain ⟨first, hfirst, last, -, rfl, -⟩ := h
  exact ⟨rfl, rfl, takenOver_eq hfirst⟩

/-- The loop over a cache and the loop over what is left of it elsewhere do not both end: the
one that meets the end of the other one's map follows it. -/
theorem not_both_end (hne : m.id ≠ c.id)
    (hmap : m.map = mapValues (MovableBucket.moved c.id m.id) c.map) {n k : ℕ}
    {it : MapIterator Key} {items items' : List (Key × Value)}
    (h : c.visitFrom n it = some items) (hn : items.length < n)
    (h' : m.visitFrom k (it.moved c.id m.id) = some items') (hk : items'.length < k) : False := by
  induction n generalizing k it items items' with
  | zero => exact Nat.not_lt_zero _ hn
  | succ n ih =>
    obtain ⟨k, rfl⟩ := Nat.exists_eq_succ_of_ne_zero (Nat.ne_zero_of_lt hk)
    by_cases hend : it = c.endIt
    · -- the end of `c` is followed in `m`
      subst hend
      have hmoved : c.endIt.moved c.id m.id = place c.id none := moved_place_none c.id m.id
      rw [hmoved, visitFrom_succ k (place_none_ne_endIt hne.symm), deref_old_end] at h'
      cases h'
    · rw [visitFrom_succ n hend] at h
      obtain ⟨e, he, hafter⟩ := Option.bind_eq_some_iff.mp h
      obtain ⟨rest, hrest, rfl⟩ := Option.map_eq_some_iff.mp hafter
      obtain ⟨rfl, hb⟩ := deref_eq_some.mp he
      have hmoved : (⟨c.id, some e.1⟩ : MapIterator Key).moved c.id m.id = ⟨m.id, some e.1⟩ :=
        moved_place_some c.id m.id e.1
      have hhere : (⟨m.id, some e.1⟩ : MapIterator Key) ≠ m.endIt := by
        simp [MovableLruCache.endIt]
      rw [hmoved, visitFrom_succ k hhere] at h'
      obtain ⟨e', he', hafter'⟩ := Option.bind_eq_some_iff.mp h'
      obtain ⟨rest', hrest', rfl⟩ := Option.map_eq_some_iff.mp hafter'
      obtain ⟨hit, hb'⟩ := deref_eq_some.mp he'
      have hkey : e.1 = e'.1 := by simpa using hit
      rw [hmap, lookup_mapValues, ← hkey, hb] at hb'
      obtain hb' : e.2.moved c.id m.id = e'.2 := Option.some.inj hb'
      rw [← hb'] at hrest'
      exact ih hrest (Nat.lt_of_succ_lt_succ hn) hrest' (Nat.lt_of_succ_lt_succ hk)

theorem not_moveKeepsUsable_of_visit {cost : Value → UInt64} {left : MovableLruCache Key Value}
    {moved : Option (MovableLruCache Key Value × MovableLruCache Key Value)}
    (hmoved : moved = some (m, left)) {n : ℕ} (hvisit : m.visit n = none) :
    ¬ MoveKeepsUsable cost c moved := by
  subst hmoved
  rintro ⟨m', left', heq, hkeeps⟩
  obtain ⟨rfl, -⟩ := Prod.mk.inj (Option.some.inj heq)
  obtain ⟨answers, hanswers, -⟩ := hkeeps.answers [.visit n]
  simp [MovableLruCache.answers, MovableLruCache.use, hvisit] at hanswers

theorem MovedFrom.not_keepsUsable {cost : Value → UInt64} (h : MovedFrom c m) (hne : m.id ≠ c.id) :
    ¬ KeepsUsable cost c m := by
  intro hkeeps
  obtain ⟨items, ⟨n, hvisit, hn⟩, ⟨k, hvisit', hk⟩⟩ := hkeeps.order
  unfold MovableLruCache.visit at hvisit hvisit'
  rw [h.first] at hvisit'
  exact not_both_end hne h.map hvisit hn hvisit' hk

end

/-- **No move keeps a cache usable.** For every cache, whatever has been done with it, a move
constructor and a move assignment either follow an end iterator or leave a cache whose loop from
`begin()` does not end where the loop over the cache has ended.
SOURCE: LruCache.h:149-177 -/
theorem no_move_keeps_usable (cost : Value → UInt64) (c d : MovableLruCache Key Value)
    (target : ℕ) (htarget : target ≠ c.id) (hd : d.id ≠ c.id) :
    ¬ MoveKeepsUsable cost c (MovableLruCache.moveConstruct target c) ∧
      ¬ MoveKeepsUsable cost c (d.moveAssign c) := by
  constructor
  · rintro ⟨m, left, hmoved, hkeeps⟩
    obtain ⟨rfl, hfrom⟩ := movedFrom_moveConstruct hmoved
    exact hfrom.not_keepsUsable htarget hkeeps
  · rintro ⟨m, left, hmoved, hkeeps⟩
    obtain ⟨hid, hfrom⟩ := movedFrom_moveAssign hmoved
    exact hfrom.not_keepsUsable (hid.trans_ne hd) hkeeps

theorem no_move_keeps_one_item : ∃ c d : MovableLruCache ℕ UInt64,
    MovableLruCache.run sizeCost 0 2 [.call (.insert 1 1)] = some c ∧ d.id = 1 ∧
      ¬ MoveKeepsUsable sizeCost c (MovableLruCache.moveConstruct 1 c) ∧
      ¬ MoveKeepsUsable sizeCost c (d.moveAssign c) := by
  refine ⟨_, MovableLruCache.new 1 2, rfl, rfl, ?_⟩
  exact no_move_keeps_usable sizeCost _ _ 1 (by decide) (by decide)

/-- A cache with one item is moved, and the loop over the new one does not end after the item. -/
theorem moved_cache_is_not_usable : ∃ c m left : MovableLruCache ℕ UInt64,
    MovableLruCache.run sizeCost 0 2 [.call (.insert 1 1)] = some c ∧
      c.visit 2 = some [(1, 1)] ∧ MovableLruCache.moveConstruct 1 c = some (m, left) ∧
      m.visit 2 = none ∧ ¬ MoveKeepsUsable sizeCost c (MovableLruCache.moveConstruct 1 c) := by
  refine ⟨_, _, _, rfl, by decide, rfl, by decide, ?_⟩
  exact not_moveKeepsUsable_of_visit rfl (show MovableLruCache.visit _ 2 = none by decide)

end OlpEdgeSdk.Analysis.LruCacheMoves
