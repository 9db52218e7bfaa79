import Mathlib.Data.Char
import Mathlib.Data.List.Lex
import OlpEdgeSdk.Analysis.MultiRequestContextCallbacks
import OlpEdgeSdk.Model.Requests

/-!
# What a key tells

Two calls with the same key share one execution, so a key should tell what the call asks
for. This file says how far it does, for texts without the characters that separate the
fields of a key.

The fields behind the brackets and the layer are told by every key. The two things that are
not: `DataRepository::GetData` reads the data handle of a request that has one, while the key
has the partition id of a request that has one; and the ids of several partitions are joined
with a comma that an id may hold itself.

SOURCE: DataRequest.h, PartitionsRequest.h, PartitionsRepository.cpp, DataRepository.cpp
-/

set_option autoImplicit false

namespace OlpEdgeSdk.Analysis.Requests

open OlpEdgeSdk.Base OlpEdgeSdk.Model

/-! ## The separators -/

/-- The characters that separate the fields of a key. -/
def isSeparator (c : Char) : Bool :=
  c = '[' || c = ']' || c = '@' || c = '$' || c = '^'

/-- A text without separators. -/
abbrev Plain (text : List Char) : Prop := Free isSeparator text

instance (text : List Char) : Decidable (Plain text) :=
  List.decidableBAll (fun x => isSeparator x = false) text

theorem plain_decimal (n : ℤ) : Plain (decimal n) := by
  intro c hc
  have hne : ∀ d : Char, d ≠ '-' → d.isDigit = false → c ≠ d := by
    rintro d hminus hdigit rfl
    rcases mem_decimal hc with h | h
    · exact hminus h
    · rw [hdigit] at h
      cases h
  simp [isSeparator, hne '[' (by decide) (by decide), hne ']' (by decide) (by decide),
    hne '@' (by decide) (by decide), hne '$' (by decide) (by decide),
    hne '^' (by decide) (by decide)]

/-! ## The end of a key -/

theorem value_injective : Function.Injective FetchOptions.value := by
  intro f f' h
  cases f <;> cases f' <;> first | rfl | exact absurd h (by decide)

section Ends

variable {version version' : Option ℤ} {tag tag' : Option (List Char)}
  {fetch fetch' : FetchOptions}

theorem head?_keyEnd {c : Char} (h : c ∈ (keyEnd tag fetch).head?) : c = '$' ∨ c = '^' := by
  cases tag with
  | none => exact Or.inr (Option.some.inj h).symm
  | some text => exact Or.inl (Option.some.inj h).symm

theorem stops_keyEnd : Stops isSeparator (keyEnd tag fetch) := by
  intro c hc
  rcases head?_keyEnd hc with rfl | rfl <;> rfl

theorem keyEnd_inj (htag : ∀ text ∈ tag, Plain text) (htag' : ∀ text ∈ tag', Plain text)
    (h : keyEnd tag fetch = keyEnd tag' fetch') : tag = tag' ∧ fetch = fetch' := by
  have hne : ∀ (c : Char) (rest : List Char), c ∈ ('^' :: rest).head? → c ≠ '$' := by
    rintro c rest hc rfl
    cases hc
  obtain ⟨htags, hrest⟩ := optionalField_append_inj htag htag' (stops_cons rfl _)
    (stops_cons rfl _) (hne · _) (hne · _) h
  exact ⟨htags, value_injective (decimal_injective (List.cons.inj hrest).2)⟩

theorem stops_keyVersionEnd : Stops isSeparator (keyVersionEnd version tag fetch) := by
  cases version with
  | none => exact stops_keyEnd
  | some v => exact stops_cons rfl _

theorem keyVersionEnd_inj (htag : ∀ text ∈ tag, Plain text) (htag' : ∀ text ∈ tag', Plain text)
    (h : keyVersionEnd version tag fetch = keyVersionEnd version' tag' fetch') :
    version = version' ∧ tag = tag' ∧ fetch = fetch' := by
  have hplain : ∀ o : Option ℤ, ∀ text ∈ o.map decimal, Plain text := by
    intro o text htext
    obtain ⟨n, -, rfl⟩ := Option.mem_map.mp htext
    exact plain_decimal n
  have hne : ∀ {t : Option (List Char)} {f : FetchOptions} (c : Char),
      c ∈ (keyEnd t f).head? → c ≠ '@' := by
    rintro t f c hc rfl
    rcases head?_keyEnd hc with h | h <;> exact absurd h (by decide)
  obtain ⟨hversion, hend⟩ := optionalField_append_inj (hplain version) (hplain version')
    stops_keyEnd stops_keyEnd hne hne h
  exact ⟨Option.map_injective decimal_injective hversion, keyEnd_inj htag htag' hend⟩

end Ends

/-! ## What a call asks for -/

/-- What a call asks for: the layer, how it is asked for, and the name of what is wanted of
the layer. -/
structure Resource (Name : Type) where
  layerId : List Char
  version : Option ℤ
  billingTag : Option (List Char)
  fetchOption : FetchOptions
  name : Name
deriving DecidableEq, Repr

/-- How a request for data names it. -/
inductive DataName where
  | handle (dataHandle : List Char)
  | partition (partitionId : List Char)
  | unnamed
deriving DecidableEq, Repr

/-- The name `GetData` goes by: the partition id of a request with a data handle is not read.
SOURCE: DataRepository.cpp:184-189, 236-303 -/
def dataName (r : DataRequest) : DataName :=
  match r.dataHandle, r.partitionId with
  | some dataHandle, _ => .handle dataHandle
  | none, some partitionId => .partition partitionId
  | none, none => .unnamed

def dataResource (r : DataRequest) : Resource DataName :=
  ⟨r.layerId, r.version, r.billingTag, r.fetchOption, dataName r⟩

/-- The partitions a call asks for: all of the layer, or those with the given ids. -/
def partitionsResource : PartitionsCall → Resource (Option (List (List Char)))
  | .getPartitions r => ⟨r.layerId, r.version, r.billingTag, r.fetchOption, none⟩
  | .getPartitionsById r partitions =>
    ⟨r.layerId, r.version, r.billingTag, r.fetchOption, some partitions⟩

/-- No text of the request holds a separator. -/
structure PlainData (r : DataRequest) : Prop where
  layerId : Plain r.layerId
  partitionId : ∀ text ∈ r.partitionId, Plain text
  dataHandle : ∀ text ∈ r.dataHandle, Plain text
  billingTag : ∀ text ∈ r.billingTag, Plain text

/-- No text of the request holds a separator. -/
structure PlainPartitions (r : PartitionsRequest) : Prop where
  layerId : Plain r.layerId
  billingTag : ∀ text ∈ r.billingTag, Plain text

/-- No text of the call holds a separator. -/
def PlainCall : PartitionsCall → Prop
  | .getPartitions r => PlainPartitions r
  | .getPartitionsById r partitions => PlainPartitions r ∧ ∀ text ∈ partitions, Plain text

/-- The lengths of the ids, if the call has ids. -/
def idLengths : PartitionsCall → Option (List ℕ)
  | .getPartitions _ => none
  | .getPartitionsById _ partitions => some (partitions.map List.length)

/-- The requests name their data in the same way: by a handle, by a partition id or not at
all; and if a partition id hides a handle from a key, the handles are the same. -/
structure NamedAlike (r r' : DataRequest) : Prop where
  handles : r.dataHandle.isSome = r'.dataHandle.isSome
  partitions : r.dataHandle = none → r.partitionId.isSome = r'.partitionId.isSome
  hidden : r.partitionId.isSome ∨ r'.partitionId.isSome → r.dataHandle = r'.dataHandle

/-! ## What a key tells of it -/

/-- The layer, the text between the brackets and the end of a key with brackets. -/
theorem bracketed_inj {layer layer' text text' rest rest' : List Char} (hlayer : Plain layer)
    (hlayer' : Plain layer') (htext : Plain text) (htext' : Plain text')
    (h : layer ++ '[' :: text ++ ']' :: rest = layer' ++ '[' :: text' ++ ']' :: rest') :
    layer = layer' ∧ text = text' ∧ rest = rest' := by
  rw [List.append_assoc, List.append_assoc] at h
  obtain ⟨hlayers, h⟩ := append_inj_of_free hlayer hlayer' (stops_cons rfl _)
    (stops_cons rfl _) h
  obtain ⟨htexts, h⟩ := append_inj_of_free htext htext' (stops_cons rfl _) (stops_cons rfl _)
    (List.cons.inj h).2
  exact ⟨hlayers, htexts, (List.cons.inj h).2⟩

section Data

variable {r r' : DataRequest}

theorem plain_bracketed (h : PlainData r) : Plain r.bracketed := by
  unfold DataRequest.bracketed
  cases hpartition : r.partitionId with
  | some text => exact h.partitionId text hpartition
  | none =>
    cases hhandle : r.dataHandle with
    | some text => exact h.dataHandle text hhandle
    | none => exact fun _ hmem => absurd hmem List.not_mem_nil

/-- The key of a request for data tells all but the name. -/
theorem fields_of_createKey (h : PlainData r) (h' : PlainData r')
    (hkey : r.createKey = r'.createKey) :
    r.layerId = r'.layerId ∧ r.bracketed = r'.bracketed ∧ r.version = r'.version ∧
      r.billingTag = r'.billingTag ∧ r.fetchOption = r'.fetchOption := by
  obtain ⟨hlayer, htext, hrest⟩ := bracketed_inj h.layerId h'.layerId (plain_bracketed h)
    (plain_bracketed h') hkey
  exact ⟨hlayer, htext, keyVersionEnd_inj h.billingTag h'.billingTag hrest⟩

/-- With the same text between the brackets, the names are the same iff the requests name
their data alike. -/
theorem dataName_eq_iff (htext : r.bracketed = r'.bracketed) :
    dataName r = dataName r' ↔ NamedAlike r r' := by
  obtain ⟨layer, partition, version, handle, tag, fetch⟩ := r
  obtain ⟨layer', partition', version', handle', tag', fetch'⟩ := r'
  have hnamed : ∀ {q q' : DataRequest}, NamedAlike q q' ↔
      q.dataHandle.isSome = q'.dataHandle.isSome ∧
        (q.dataHandle = none → q.partitionId.isSome = q'.partitionId.isSome) ∧
        (q.partitionId.isSome ∨ q'.partitionId.isSome → q.dataHandle = q'.dataHandle) :=
    ⟨fun h => ⟨h.handles, h.partitions, h.hidden⟩, fun h => ⟨h.1, h.2.1, h.2.2⟩⟩
  rw [hnamed]
  cases handle <;> cases handle' <;> cases partition <;> cases partition' <;>
    simp_all [dataName, DataRequest.bracketed]

/-- **Requests for data with the same key ask for the same iff they name it alike.** -/
theorem dataResource_eq_iff (h : PlainData r) (h' : PlainData r')
    (hkey : r.createKey = r'.createKey) :
    dataResource r = dataResource r' ↔ NamedAlike r r' := by
  obtain ⟨hlayer, htext, hversion, htag, hfetch⟩ := fields_of_createKey h h' hkey
  rw [← dataName_eq_iff htext]
  simp [dataResource, hlayer, hversion, htag, hfetch]

end Data

section Partitions

variable {r r' : PartitionsRequest} {ids ids' : List (List Char)}

theorem plain_intercalate (h : ∀ text ∈ ids, Plain text) : Plain ([','].intercalate ids) := by
  intro c hc
  rcases mem_of_mem_intercalate hc with hc | ⟨text, htext, hc⟩
  · rw [List.mem_singleton.mp hc]
    rfl
  · exact h text htext c hc

theorem fields_of_partitionsKey (h : PlainPartitions r) (h' : PlainPartitions r')
    (hkey : r.createKey = r'.createKey) : r = r' := by
  obtain ⟨hlayer, hrest⟩ := append_inj_of_free h.layerId h'.layerId stops_keyVersionEnd
    stops_keyVersionEnd hkey
  obtain ⟨hversion, htag, hfetch⟩ := keyVersionEnd_inj h.billingTag h'.billingTag hrest
  cases r
  cases r'
  simp_all

theorem fields_of_getKey (h : PlainPartitions r) (h' : PlainPartitions r')
    (hids : ∀ text ∈ ids, Plain text) (hids' : ∀ text ∈ ids', Plain text)
    (hkey : getKey r ids = getKey r' ids') :
    r = r' ∧ [','].intercalate ids = [','].intercalate ids' := by
  obtain ⟨hlayer, htext, hrest⟩ := bracketed_inj h.layerId h'.layerId (plain_intercalate hids)
    (plain_intercalate hids') hkey
  obtain ⟨hversion, htag, hfetch⟩ := keyVersionEnd_inj h.billingTag h'.billingTag hrest
  refine ⟨?_, htext⟩
  cases r
  cases r'
  simp_all

/-- The two kinds of calls of a repository have no key in common. -/
theorem createKey_ne_getKey (h : PlainPartitions r) (h' : PlainPartitions r') :
    r.createKey ≠ getKey r' ids' := by
  intro hkey
  unfold getKey at hkey
  rw [List.append_assoc] at hkey
  obtain ⟨-, hrest⟩ := append_inj_of_free h.layerId h'.layerId stops_keyVersionEnd
    (stops_cons rfl _) hkey
  have hhead : '[' ∈ (keyVersionEnd r.version r.billingTag r.fetchOption).head? := by
    rw [hrest]
    rfl
  revert hhead
  cases r.version with
  | none =>
    intro hhead
    rcases head?_keyEnd hhead with hc | hc <;> exact absurd hc (by decide)
  | some v =>
    intro hhead
    exact absurd (Option.some.inj hhead) (by decide)

/-- **Calls of one repository with the same key ask for the same iff the ids have the same
lengths, one by one.** -/
theorem partitionsResource_eq_iff {c c' : PartitionsCall} (h : PlainCall c) (h' : PlainCall c')
    (hkey : c.requestKey = c'.requestKey) :
    partitionsResource c = partitionsResource c' ↔ idLengths c = idLengths c' := by
  cases c with
  | getPartitions r =>
    cases c' with
    | getPartitions r' =>
      rw [fields_of_partitionsKey h h' hkey]
      simp
    | getPartitionsById r' ids' => exact absurd hkey (createKey_ne_getKey h h'.1)
  | getPartitionsById r ids =>
    cases c' with
    | getPartitions r' => exact absurd hkey.symm (createKey_ne_getKey h' h.1)
    | getPartitionsById r' ids' =>
      obtain ⟨rfl, htext⟩ := fields_of_getKey h.1 h'.1 h.2 h'.2 hkey
      constructor
      · intro hsame
        have hids : ids = ids' := by simpa [partitionsResource] using hsame
        rw [hids]
      · intro hlengths
        rw [intercalate_inj_of_lengths (Option.some.inj hlengths) htext]

end Partitions

/-! ## What a shared execution delivers -/

/-- In every run of a `MultiRequestContext` in which call `id` is registered under the key of
`asked id`, a callback that gets the response of an execution asked for what that execution
was started for. -/
def DeliversOwn {Call Asked : Type} (key : Call → List Char) (resource : Call → Asked)
    (asked : ℕ → Call) : Prop :=
  ∀ (Response : Type) (events : List (MultiRequestContext.Event (List Char) Response))
    (s : MultiRequestContext.State (List Char) Response),
    MultiRequestContext.State.run events = some s →
    (∀ k id, .associate k id ∈ events → k = key (asked id)) →
    ∀ id owner response, (id, .completed owner response) ∈ s.invoked →
      resource (asked id) = resource (asked owner)

theorem mem_events_of_mem_requests {Response : Type}
    {events : List (MultiRequestContext.Event (List Char) Response)}
    {s : MultiRequestContext.State (List Char) Response}
    (h : MultiRequestContext.State.run events = some s)
    {q : MultiRequestContext.Request (List Char)} (hq : q ∈ s.requests) :
    .associate q.key q.id ∈ events := by
  have hcaused := caused_runFrom
    (P := fun s : MultiRequestContext.State (List Char) Response => q ∈ s.requests)
    (C := fun event => event = .associate q.key q.id) (fun s event s' hstep hmem => ?_) h hq
  · rcases hcaused with hnone | ⟨event, hevent, rfl⟩
    · exact absurd hnone List.not_mem_nil
    · exact hevent
  · cases MultiRequestContext.moves_of_step hstep with
    | joined | opened =>
      rcases List.mem_append.mp hmem with hmem | hmem
      · exact Or.inl hmem
      · rw [List.mem_singleton.mp hmem]
        exact Or.inr rfl
    | _ => exact Or.inl hmem

/-- If calls with the same key ask for the same, nothing else is delivered. -/
theorem deliversOwn_of_key {Call Asked : Type} {key : Call → List Char}
    {resource : Call → Asked} {asked : ℕ → Call}
    (h : ∀ id id', key (asked id) = key (asked id') →
      resource (asked id) = resource (asked id')) : DeliversOwn key resource asked := by
  intro Response events s hrun hasked id owner response hinvoked
  obtain ⟨q, hq, q', hq', rfl, rfl, hkey⟩ := MultiRequestContext.same_key_of_run hrun
    (List.mem_append_right _ hinvoked)
  refine h q.id q'.id ?_
  rw [← hasked _ _ (mem_events_of_mem_requests hrun hq),
    ← hasked _ _ (mem_events_of_mem_requests hrun hq'), hkey]

/-! ## Main result -/

/-- **Requests for data with the same key ask for the same iff they name their data alike,
calls of one `PartitionsRepository` with the same key iff their ids have the same lengths, and
where all calls are so, a shared execution delivers to each caller what it asked for.**
SOURCE: DataRequest.h:215-239, PartitionsRequest.h:146-161, PartitionsRepository.cpp:49-77,
232-365, 367-471, DataRepository.cpp:179-330 -/
theorem same_resource_iff (asked : ℕ → DataRequest) (called : ℕ → PartitionsCall)
    (hasked : ∀ id, PlainData (asked id)) (hcalled : ∀ id, PlainCall (called id)) :
    (∀ id id', (asked id).createKey = (asked id').createKey →
      (dataResource (asked id) = dataResource (asked id') ↔
        NamedAlike (asked id) (asked id'))) ∧
    (∀ id id', (called id).requestKey = (called id').requestKey →
      (partitionsResource (called id) = partitionsResource (called id') ↔
        idLengths (called id) = idLengths (called id'))) ∧
    ((∀ id id', (asked id).createKey = (asked id').createKey →
        NamedAlike (asked id) (asked id')) →
      DeliversOwn DataRequest.createKey dataResource asked) ∧
    ((∀ id id', (called id).requestKey = (called id').requestKey →
        idLengths (called id) = idLengths (called id')) →
      DeliversOwn PartitionsCall.requestKey partitionsResource called) := by
  have hdata (id id' : ℕ) (hkey : (asked id).createKey = (asked id').createKey) :=
    dataResource_eq_iff (hasked id) (hasked id') hkey
  have hpartitions (id id' : ℕ) (hkey : (called id).requestKey = (called id').requestKey) :=
    partitionsResource_eq_iff (hcalled id) (hcalled id') hkey
  refine ⟨hdata, hpartitions, fun halike => ?_, fun halike => ?_⟩
  · exact deliversOwn_of_key fun id id' hkey => (hdata id id' hkey).mpr (halike id id' hkey)
  · exact deliversOwn_of_key fun id id' hkey => (hpartitions id id' hkey).mpr (halike id id' hkey)

/-- A request with a partition id that is also its data handle and requests with that data
handle only; and calls for two partitions. -/
theorem same_resource_of_named_alike :
    let asked (id : ℕ) : DataRequest :=
      if id = 0 then { layerId := ['l'], partitionId := some ['h'], dataHandle := some ['h'] }
      else { layerId := ['l'], dataHandle := some ['h'] }
    let called (_ : ℕ) : PartitionsCall := .getPartitionsById { layerId := ['l'] } [['a'], ['b']]
    dataResource (asked 0) = dataResource (asked 1) ∧
      partitionsResource (called 0) = partitionsResource (called 1) ∧
      DeliversOwn DataRequest.createKey dataResource asked ∧
      DeliversOwn PartitionsCall.requestKey partitionsResource called := by
  intro asked called
  have hasked (id : ℕ) : PlainData (asked id) := by
    dsimp only [asked]
    split
    · exact ⟨by decide, by decide, by decide, by decide⟩
    · exact ⟨by decide, by decide, by decide, by decide⟩
  have hhandle (id : ℕ) : (asked id).dataHandle = some ['h'] := by
    dsimp only [asked]
    split
    · rfl
    · rfl
  have halike (id id' : ℕ) : NamedAlike (asked id) (asked id') := by
    refine ⟨?_, fun hnone => ?_, fun _ => ?_⟩
    · rw [hhandle, hhandle]
    · rw [hhandle] at hnone
      exact nomatch hnone
    · rw [hhandle, hhandle]
  obtain ⟨hdata, hpartitions, hrun, hrun'⟩ := same_resource_iff asked called hasked
    (fun _ => ⟨⟨by decide, by decide⟩, by decide⟩)
  exact ⟨(hdata 0 1 (by decide)).mpr (halike 0 1), (hpartitions 0 1 rfl).mpr rfl,
    hrun (fun id id' _ => halike id id'), hrun' (fun _ _ _ => rfl)⟩

/-- Two requests with the partition id of a key and different data handles, and two calls
whose ids are joined to the same text. -/
theorem same_key_other_resource :
    (∃ r r' : DataRequest, PlainData r ∧ PlainData r' ∧ r.createKey = r'.createKey ∧
      dataResource r ≠ dataResource r') ∧
    ∃ c c' : PartitionsCall, PlainCall c ∧ PlainCall c' ∧ c.requestKey = c'.requestKey ∧
      partitionsResource c ≠ partitionsResource c' := by
  refine ⟨⟨{ layerId := ['l'], partitionId := some ['p'], dataHandle := some ['h', '1'] },
    { layerId := ['l'], partitionId := some ['p'], dataHandle := some ['h', '2'] },
    ⟨by decide, by decide, by decide, by decide⟩, ⟨by decide, by decide, by decide, by decide⟩,
    by decide, by decide⟩, ⟨.getPartitionsById { layerId := ['l'] } [['a', ',', 'b']],
    .getPartitionsById { layerId := ['l'] } [['a'], ['b']], ⟨⟨by decide, by decide⟩, by decide⟩,
    ⟨⟨by decide, by decide⟩, by decide⟩, by decide, by decide⟩⟩

end OlpEdgeSdk.Analysis.Requests
