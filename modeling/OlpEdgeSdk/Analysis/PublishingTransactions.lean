import OlpEdgeSdk.Interface.Transactions

/-!
# Every call of a publishing client is its transaction

The clients are created in an order, and none is ever taken away: where one is there, so are
those it `needs`. With this to rely on, the program of each call follows its transaction
(`follows_transaction`), and so does each call in every run (`follows_of_run`). From the
transactions it is read off that what is registered has been stored
(`registered_only_if_stored`). The programs are guarded, so a cancelled call makes no request
(`no_request_after_cancel`), and no call is ever stuck (`calls_come_to_rest`).
-/

set_option autoImplicit false

namespace OlpEdgeSdk.Analysis.PublishingTransactions

open OlpEdgeSdk.Base OlpEdgeSdk.Interface OlpEdgeSdk.Model OlpEdgeSdk.Model.Publishing

/-! ## What the calls rely on -/

/-- The clients that are created before a client. -/
def needs : Client → ApiClient → List ApiClient
  | .stream, .config => [.ingest]
  | .stream, .blob => [.publish]
  | .index, .index => [.config, .blob]
  | _, _ => []

/-- Where a client is there, so are those it needs. -/
def Built (client : Client) (s : ClientState) : Prop :=
  ∀ api, (s.baseUrl api).isSome → ∀ needed ∈ needs client api, (s.baseUrl needed).isSome

/-- How the calls change the state: no client is taken away. -/
structure Grows (client : Client) (s s' : ClientState) : Prop where
  built : Built client s → Built client s'
  keeps : ∀ api, (s.baseUrl api).isSome → (s'.baseUrl api).isSome

theorem built_new (client : Client) : Built client ClientState.new := nofun

theorem grows_refl (client : Client) (s : ClientState) : Grows client s s := ⟨id, fun _ => id⟩

theorem Grows.trans {client : Client} {s s' s'' : ClientState} (h : Grows client s s')
    (h' : Grows client s' s'') : Grows client s s'' :=
  ⟨fun hs => h'.built (h.built hs), fun api hapi => h'.keeps api (h.keeps api hapi)⟩

theorem isSome_setBaseUrl (s : ClientState) (api other : ApiClient) (url : List Char) :
    ((s.setBaseUrl api url).baseUrl other).isSome = true ↔
      other = api ∨ (s.baseUrl other).isSome = true := by
  unfold ClientState.setBaseUrl
  dsimp only
  split
  · simp [*]
  · simp [*]

/-- A client may be created, or be given a url, when those it needs are there. -/
theorem grows_setBaseUrl {client : Client} {s : ClientState} {api : ApiClient}
    (hneeds : ∀ needed ∈ needs client api, (s.baseUrl needed).isSome) (url : List Char) :
    Grows client s (s.setBaseUrl api url) := by
  constructor
  · intro hbuilt other hother needed hneeded
    apply (isSome_setBaseUrl s api needed url).mpr
    obtain rfl | hother := (isSome_setBaseUrl s api other url).mp hother
    · exact .inr (hneeds needed hneeded)
    · exact .inr (hbuilt other hother needed hneeded)
  · exact fun other hother => (isSome_setBaseUrl s api other url).mpr (.inr hother)

/-- **A program does what a transaction expects** of it, whatever the other calls do. -/
abbrev Does (client : Client) (t : Transaction) (s : ClientState) (q : Progress)
    (program : CallProgram) : Prop :=
  program.Follows (Grows client) t.step s q

section Patterns

variable {client : Client} {t : Transaction} {s : ClientState} {q : Progress}
  {answers : List (Option (List Char))}

/-- A call may give up as long as it has not made all its requests. -/
theorem does_giveUp {e : ApiError} (hlength : answers.length < t.length)
    (he : e = operationCancelled ∨ e ∈ t.refusals) :
    Does client t s (.going answers) (callback (.error e)) := by
  show (t.step (.going answers) (.replied (.called (.error e)))).isSome
  simp [Transaction.step, hlength, he]

theorem does_cancelFunction (hlength : answers.length < t.length) :
    Does client t s (.going answers) cancelFunction :=
  does_giveUp hlength (.inl rfl)

/-- The error of a request is the error of the call. -/
theorem does_failed (e : ApiError) : Does client t s (.failed e) (callback (.error e)) := by
  show (t.step (.failed e) (.replied (.called (.error e)))).isSome
  simp [Transaction.step]

/-- A call that has made all its requests returns its outcome. -/
theorem does_finish {id : Option (List Char)} (hlength : answers.length = t.length)
    (hid : id = t.outcome answers) :
    Does client t s (.going answers) (callback (.ok id)) := by
  show (t.step (.going answers) (.replied (.called (.ok id)))).isSome
  simp [Transaction.step, hlength, hid]

theorem does_withClient {api : ApiClient} {next : List Char → CallProgram}
    (hapi : (s.baseUrl api).isSome)
    (hnext : ∀ url s', Grows client s s' → Does client t s' q (next url)) :
    Does client t s q (withClient api next) := by
  intro s' hs
  obtain ⟨url, hurl⟩ := Option.isSome_iff_exists.mp (hs.keeps api hapi)
  dsimp only
  rw [hurl]
  exact hnext url s' hs

theorem does_setBaseUrl {api : ApiClient} {url : List Char} {next : CallProgram}
    (hbuilt : Built client s) (hapi : (s.baseUrl api).isSome)
    (hnext : ∀ s', Grows client s s' → (s'.baseUrl api).isSome → Does client t s' q next) :
    Does client t s q (setBaseUrl api url next) := by
  refine does_withClient hapi fun _ s' hs s'' hs' => ?_
  have hkept := (hs.trans hs').keeps api hapi
  have hgrows : Grows client s'' (s''.setBaseUrl api url) :=
    grows_setBaseUrl ((hs.trans hs').built hbuilt api hkept) url
  exact ⟨hgrows, hnext _ ((hs.trans hs').trans hgrows) (hgrows.keeps api hkept)⟩

theorem does_create {api : ApiClient} {next : CallProgram}
    (hneeds : ∀ needed ∈ needs client api, (s.baseUrl needed).isSome)
    (hnext : ∀ s', Grows client s s' → (s'.baseUrl api).isSome → Does client t s' q next) :
    Does client t s q (create api next) := by
  intro s' hs
  have hgrows : Grows client s' (s'.setBaseUrl api []) :=
    grows_setBaseUrl (fun needed hneeded => hs.keeps needed (hneeds needed hneeded)) []
  exact ⟨hgrows, hnext _ (hs.trans hgrows) ((isSome_setBaseUrl s' api api []).mpr (.inl rfl))⟩

/-- A request of the transaction, from its place on. -/
theorem does_request {request : SubRequest} {next : request.Answer → CallProgram}
    (hinit : isInit request = true ∧ answers = [] ∨ t.expects answers request = true)
    (hnext : ∀ answer s', Grows client s s' →
      Does client t s' (received answers request answer) (next answer)) :
    Does client t s (.going answers) (.request request next) := by
  refine ⟨.asking answers request, if_pos hinit, fun answer s' hs => ?_⟩
  exact ⟨received answers request answer, if_pos rfl, hnext answer s' hs⟩

/-! ### Initialisation -/

theorem isSome_of_hasUrl {api : ApiClient} (h : s.hasUrl api = true) :
    (s.baseUrl api).isSome = true := by
  unfold ClientState.hasUrl at h
  cases hapi : s.baseUrl api with
  | none => simp [hapi] at h
  | some url => rfl

variable (hlength : 0 < t.length) (hinvalid : VersionedLayerClient.invalidHrn ∈ t.refusals)
include hlength

/-- What a callback does with the error of an initialisation. -/
theorem does_initError (client : Client) {next : Option ApiError → CallProgram}
    (hnext : ∀ e, next (some e) = callback (.error e)) :
    (∀ s, Does client t s (.going []) (next (some operationCancelled))) ∧
      ∀ s e, Does client t s (.failed e) (next (some e)) := by
  constructor
  · intro s
    rw [hnext]
    exact does_cancelFunction hlength
  · intro s e
    rw [hnext]
    exact does_failed e

include hinvalid

/-- One lookup: `hgoes` is what is done once the client has been found. -/
theorem does_lookupApis {lookupUrl : List Char} {creates : Bool} {api : ApiClient}
    {rest : List ApiClient} {next : Option ApiError → CallProgram} (hbuilt : Built client s)
    (hneeds : if creates then ∀ needed ∈ needs client api, (s.baseUrl needed).isSome
      else (s.baseUrl api).isSome)
    (hnext : ∀ e, next (some e) = callback (.error e))
    (hgoes : ∀ s', Grows client s s' → (s'.baseUrl api).isSome →
      if rest = [] then Does client t s' (.going []) (next none)
      else Does client t s' (.going []) (lookupApis lookupUrl creates next rest)) :
    Does client t s (.going []) (lookupApis lookupUrl creates next (api :: rest)) := by
  obtain ⟨hcancelled, hfailed⟩ := does_initError hlength client hnext
  have hlookup : ∀ onAnswer : Response (List (List Char)) → CallProgram,
      (∀ e, onAnswer (.error e) = next (some e)) → onAnswer (.ok []) = .reply .thrown →
      (∀ url urls, onAnswer (.ok (url :: urls)) = setBaseUrl api url (if rest = [] then next none
        else .executeOrCancelled (lookupApis lookupUrl creates next rest)
          (next (some operationCancelled)))) →
      ∀ s', Grows client s s' → (s'.baseUrl api).isSome →
        Does client t s' (.going []) (lookupApi lookupUrl api onAnswer) := by
    intro onAnswer herror hnone hurl s1 hs1 hapi1
    unfold lookupApi
    split
    · rw [herror, hnext]
      exact does_giveUp hlength (.inr hinvalid)
    · refine does_setBaseUrl (hs1.built hbuilt) hapi1 fun s2 hs2 hapi2 => ?_
      refine does_request (.inl ⟨rfl, rfl⟩) fun answer s3 hs3 => ?_
      cases answer with
      | error e =>
        show Does client t s3 _ (onAnswer (.error e))
        rw [herror]
        exact hfailed s3 e
      | ok urls =>
        show Does client t s3 _ (onAnswer (.ok urls))
        cases urls with
        | nil =>
          rw [hnone]
          exact rfl
        | cons url urls =>
          rw [hurl]
          have hgrown := (hs1.trans hs2).trans hs3
          refine does_setBaseUrl (hgrown.built hbuilt) (hs3.keeps api hapi2)
            fun s4 hs4 hapi4 => ?_
          have hlast := hgoes s4 (hgrown.trans hs4) hapi4
          split
          · rename_i hrest
            rwa [if_pos hrest] at hlast
          · rename_i hrest
            rw [if_neg hrest] at hlast
            exact ⟨hlast, hcancelled s4⟩
  unfold lookupApis
  dsimp only
  cases creates with
  | true =>
    exact does_create hneeds fun s' hs hapi =>
      hlookup _ (fun _ => rfl) rfl (fun _ _ => rfl) s' hs hapi
  | false =>
    exact hlookup _ (fun _ => rfl) rfl (fun _ _ => rfl) s (grows_refl client s) hneeds

/-- The two initialisations of the stream client: `first` is the client that `second` needs. -/
theorem does_initPair {lookupUrl : List Char} {first second : ApiClient}
    {next : Option ApiError → CallProgram} (hfirst : needs .stream first = [])
    (hsecond : needs .stream second = [first]) (hbuilt : Built .stream s)
    (hnext : ∀ e, next (some e) = callback (.error e))
    (hgoes : ∀ s', Grows .stream s s' → (s'.baseUrl second).isSome →
      Does .stream t s' (.going []) (next none)) :
    Does .stream t s (.going []) (.read fun s =>
      if s.hasUrl second then next none else lookupApis lookupUrl true next [first, second]) := by
  intro s1 hs1
  dsimp only
  split
  · rename_i hurl
    exact hgoes s1 hs1 (isSome_of_hasUrl hurl)
  · refine does_lookupApis hlength hinvalid (hs1.built hbuilt) ?_ hnext fun s2 hs2 hapi2 => ?_
    · simp [hfirst]
    · have hgrown := hs1.trans hs2
      rw [if_neg (List.cons_ne_nil _ _)]
      refine does_lookupApis hlength hinvalid (hgrown.built hbuilt) ?_ hnext fun s3 hs3 hapi3 => ?_
      · simpa [hsecond] using hapi2
      · rw [if_pos rfl]
        exact hgoes s3 (hgrown.trans hs3) hapi3

/-- The initialisation of the index client. -/
theorem does_initIndexClients {lookupUrl : List Char} {next : Option ApiError → CallProgram}
    (hbuilt : Built .index s) (hnext : ∀ e, next (some e) = callback (.error e))
    (hgoes : ∀ s', Grows .index s s' → (s'.baseUrl .index).isSome →
      Does .index t s' (.going []) (next none)) :
    Does .index t s (.going []) (IndexLayerClientImpl.initApiClients lookupUrl next) := by
  intro s1 hs1
  dsimp only
  split
  · rename_i hurl
    exact hgoes s1 hs1 (isSome_of_hasUrl hurl)
  · refine does_create nofun fun s2 hs2 hblob => ?_
    refine does_create nofun fun s3 hs3 hconfig => ?_
    have hneeds : ∀ needed ∈ needs .index .index, (s3.baseUrl needed).isSome := by
      simpa [needs] using ⟨hconfig, hs3.keeps .blob hblob⟩
    refine does_create hneeds fun s4 hs4 hindex => ?_
    have h4 := ((hs1.trans hs2).trans hs3).trans hs4
    refine does_lookupApis hlength hinvalid (h4.built hbuilt) (hs4.keeps .config hconfig) hnext
      fun s5 hs5 _ => ?_
    have h5 := h4.trans hs5
    rw [if_neg (List.cons_ne_nil _ _)]
    refine does_lookupApis hlength hinvalid (h5.built hbuilt)
      (hs5.keeps .blob (hs4.keeps .blob (hs3.keeps .blob hblob))) hnext fun s6 hs6 _ => ?_
    have h6 := h5.trans hs6
    rw [if_neg (List.cons_ne_nil _ _)]
    refine does_lookupApis hlength hinvalid (h6.built hbuilt)
      (hs6.keeps .index (hs5.keeps .index hindex)) hnext fun s7 hs7 hindex7 => ?_
    rw [if_pos rfl]
    exact hgoes s7 (h6.trans hs7) hindex7

omit hinvalid in
theorem does_initCatalogModel {billingTag : Option (List Char)}
    {next : Option ApiError → CallProgram} (hconfig : (s.baseUrl .config).isSome)
    (hnext : ∀ e, next (some e) = callback (.error e))
    (hgoes : ∀ s', Grows client s s' → Does client t s' (.going []) (next none)) :
    Does client t s (.going []) (initCatalogModel billingTag next) := by
  intro s1 hs1
  dsimp only
  split
  · exact hgoes s1 hs1
  · refine does_withClient (hs1.keeps .config hconfig) fun url s2 hs2 => ?_
    refine does_request (.inl ⟨rfl, rfl⟩) fun answer s3 hs3 => ?_
    match answer with
    | .error e => exact (does_initError hlength client hnext).2 s3 e
    | .ok catalog =>
      intro s4 hs4
      have hgrows : Grows client s4 { s4 with catalogModel := catalog } := ⟨id, fun _ => id⟩
      exact ⟨hgrows, hgoes _ ((((hs1.trans hs2).trans hs3).trans hs4).trans hgrows)⟩

end Patterns

section Goes

variable {client : Client} {t : Transaction} {s : ClientState}
  (answers : List (Option (List Char))) (hlength : answers.length < t.length)
include hlength

theorem does_executeOrCancelled {body : CallProgram}
    (hbody : Does client t s (.going answers) body) :
    Does client t s (.going answers) (.executeOrCancelled body cancelFunction) :=
  ⟨hbody, does_cancelFunction hlength⟩

theorem does_withContentType {layerId message : List Char} {next : List Char → CallProgram}
    (hmessage : ApiError.ofCode .invalidArgument message ∈ t.refusals)
    (hnext : ∀ contentType s', contentType ≠ [] → Grows client s s' →
      Does client t s' (.going answers) (next contentType)) :
    Does client t s (.going answers) (withContentType layerId message next) := by
  intro s' hs
  dsimp only
  split
  · exact does_giveUp hlength (.inr hmessage)
  · rename_i hcontentType
    exact does_executeOrCancelled answers hlength (hnext _ s' hcontentType hs)

end Goes

/-! ## The calls -/

section Stream

open StreamLayerClientImpl

variable {s : ClientState}

section Publication

variable (request : PublishDataRequest) (data : List UInt8)
  (partitionId dataHandle publicationId : List Char)

theorem does_submitPublication (stored uploaded : Option (List Char))
    (hpublish : (s.baseUrl .publish).isSome) :
    Does .stream (publication request data partitionId dataHandle) s
      (.going [some publicationId, stored, uploaded])
      (submitPublication request publicationId partitionId) := by
  refine does_withClient hpublish fun url s1 _ => does_request (.inr ?_) fun answer s2 _ => ?_
  · simp [publication]
  · match answer with
    | .error e => exact does_failed e
    | .ok submitted => exact does_finish rfl rfl

theorem does_uploadPartitions (stored : Option (List Char))
    (hpublish : (s.baseUrl .publish).isSome) :
    Does .stream (publication request data partitionId dataHandle) s
      (.going [some publicationId, stored])
      (uploadPartitions request publicationId partitionId dataHandle) := by
  refine does_withClient hpublish fun url s1 hs1 => does_request (.inr ?_) fun answer s2 hs2 => ?_
  · simp [publication]
  · match answer with
    | .error e => exact does_failed e
    | .ok uploaded =>
      have hkept := (hs1.trans hs2).keeps .publish hpublish
      refine does_executeOrCancelled _ (by simp [publication]) ?_
      exact does_submitPublication request data partitionId dataHandle publicationId stored
        uploaded hkept

theorem does_putBlob {contentType : List Char} (hcontentType : contentType ≠ [])
    (hpublish : (s.baseUrl .publish).isSome) (hblob : (s.baseUrl .blob).isSome) :
    Does .stream (publication request data partitionId dataHandle) s
      (.going [some publicationId])
      (putBlob request data publicationId partitionId dataHandle contentType) := by
  refine does_withClient hblob fun url s1 hs1 => does_request (.inr ?_) fun answer s2 hs2 => ?_
  · simp [publication, hcontentType]
  · match answer with
    | .error e => exact does_failed e
    | .ok stored =>
      have hkept := (hs1.trans hs2).keeps .publish hpublish
      refine does_executeOrCancelled _ (by simp [publication]) ?_
      exact does_uploadPartitions request data partitionId dataHandle publicationId stored hkept

theorem does_initPublication (hpublish : (s.baseUrl .publish).isSome)
    (hblob : (s.baseUrl .blob).isSome) :
    Does .stream (publication request data partitionId dataHandle) s (.going [])
      (initPublication request data partitionId dataHandle) := by
  refine does_withClient hpublish fun url s1 hs1 => does_request (.inr ?_) fun answer s2 hs2 => ?_
  · simp [publication]
  · match answer with
    | .error e => exact does_failed e
    | .ok none => exact does_failed _
    | .ok (some publicationId) =>
      refine does_withContentType _ (by simp [publication])
        (List.mem_cons_of_mem _ List.mem_cons_self) fun contentType s3 hcontentType hs3 => ?_
      have hkept := (hs1.trans hs2).trans hs3
      exact does_putBlob request data partitionId dataHandle publicationId hcontentType
        (hkept.keeps .publish hpublish) (hkept.keeps .blob hblob)

end Publication

variable (hbuilt : Built .stream s) (lookupUrl : List Char)
include hbuilt

theorem does_publishDataLessThanTwentyMib (request : PublishDataRequest) (data : List UInt8) :
    Does .stream (ingestion request data) s (.going [])
      (publishDataLessThanTwentyMib lookupUrl request data) := by
  have hlength : 0 < (ingestion request data).length := Nat.one_pos
  have hinvalid : VersionedLayerClient.invalidHrn ∈ (ingestion request data).refusals :=
    List.mem_cons_self
  refine does_executeOrCancelled [] hlength ?_
  refine does_initPair hlength hinvalid rfl rfl hbuilt (fun _ => rfl) fun s1 hs1 hconfig => ?_
  refine does_executeOrCancelled [] hlength ?_
  refine does_initCatalogModel hlength hconfig (fun _ => rfl) fun s2 hs2 => ?_
  refine does_withContentType [] hlength (List.mem_cons_of_mem _ List.mem_cons_self)
    fun contentType s3 hcontentType hs3 => ?_
  have h3 := (hs1.trans hs2).trans hs3
  have hingest : (s3.baseUrl .ingest).isSome :=
    h3.built hbuilt .config ((hs2.trans hs3).keeps .config hconfig) .ingest List.mem_cons_self
  refine does_withClient hingest fun url s4 _ => does_request (.inr ?_) fun answer s5 _ => ?_
  · simp [ingestion, hcontentType]
  match answer with
  | .error e => exact does_failed e
  | .ok id => exact does_finish rfl rfl

theorem does_publishSdii (request : PublishSdiiRequest) (messages : List UInt8) :
    Does .stream (sdiiIngestion request messages) s (.going [])
      (.executeOrCancelled (initApiClients lookupUrl (unlessError (withClient .ingest fun url =>
        .request (.ingestSdii url request.layerId messages request.traceId request.billingTag
          request.checksum) callback))) cancelFunction) := by
  have hlength : 0 < (sdiiIngestion request messages).length := Nat.one_pos
  have hinvalid : VersionedLayerClient.invalidHrn ∈ (sdiiIngestion request messages).refusals :=
    List.mem_cons_self
  refine does_executeOrCancelled [] hlength ?_
  refine does_initPair hlength hinvalid rfl rfl hbuilt (fun _ => rfl) fun s1 hs1 hconfig => ?_
  refine does_executeOrCancelled [] hlength ?_
  have hingest : (s1.baseUrl .ingest).isSome :=
    hs1.built hbuilt .config hconfig .ingest List.mem_cons_self
  refine does_withClient hingest fun url s2 _ => does_request (.inr ?_) fun answer s3 _ => ?_
  · simp [sdiiIngestion]
  match answer with
  | .error e => exact does_failed e
  | .ok id => exact does_finish rfl rfl

theorem does_publishDataGreaterThanTwentyMib (request : PublishDataRequest) (data : List UInt8)
    (partitionId dataHandle : List Char) :
    Does .stream (publication request data partitionId dataHandle) s (.going [])
      (publishDataGreaterThanTwentyMib lookupUrl request data partitionId dataHandle) := by
  have hlength : 0 < (publication request data partitionId dataHandle).length := Nat.succ_pos 3
  have hinvalid : VersionedLayerClient.invalidHrn ∈
      (publication request data partitionId dataHandle).refusals := List.mem_cons_self
  refine does_executeOrCancelled [] hlength ?_
  refine does_initPair hlength hinvalid rfl rfl hbuilt (fun _ => rfl) fun s1 hs1 hconfig => ?_
  refine does_executeOrCancelled [] hlength ?_
  refine does_initPair hlength hinvalid rfl rfl (hs1.built hbuilt) (fun _ => rfl)
    fun s2 hs2 hblob => ?_
  have hpublish : (s2.baseUrl .publish).isSome :=
    (hs1.trans hs2).built hbuilt .blob hblob .publish List.mem_cons_self
  refine does_executeOrCancelled [] hlength ?_
  refine does_initCatalogModel hlength (hs2.keeps .config hconfig) (fun _ => rfl)
    fun s3 hs3 => does_executeOrCancelled [] hlength ?_
  exact does_initPublication request data partitionId dataHandle (hs3.keeps .publish hpublish)
    (hs3.keeps .blob hblob)

end Stream

section Index

open IndexLayerClientImpl

variable {s : ClientState} (hbuilt : Built .index s) (lookupUrl : List Char)
include hbuilt

theorem does_publishIndex (request : PublishIndexRequest) (data : List UInt8)
    (dataHandle : List Char) :
    Does .index (indexing request data dataHandle) s (.going [])
      (.executeOrCancelled (initApiClients lookupUrl (unlessError (initCatalogModel none fun
        | some e => callback (.error e)
        | none => withContentType request.layerId (layerIdNotFound request.layerId)
          (putBlob request data dataHandle)))) cancelFunction) := by
  have hlength : 0 < (indexing request data dataHandle).length := Nat.succ_pos 1
  have hinvalid : VersionedLayerClient.invalidHrn ∈
      (indexing request data dataHandle).refusals := List.mem_cons_self
  refine does_executeOrCancelled [] hlength ?_
  refine does_initIndexClients hlength hinvalid hbuilt (fun _ => rfl) fun s1 hs1 hindex => ?_
  have hneeds := hs1.built hbuilt .index hindex
  refine does_executeOrCancelled [] hlength ?_
  refine does_initCatalogModel hlength (hneeds .config List.mem_cons_self) (fun _ => rfl)
    fun s2 hs2 => ?_
  refine does_withContentType [] hlength (List.mem_cons_of_mem _ List.mem_cons_self)
    fun contentType s3 hcontentType hs3 => ?_
  have h3 := hs2.trans hs3
  have hblob : (s3.baseUrl .blob).isSome :=
    h3.keeps .blob (hneeds .blob (List.mem_cons_of_mem _ List.mem_cons_self))
  refine does_withClient hblob fun url s4 hs4 => does_request (.inr ?_) fun answer s5 hs5 => ?_
  · simp [indexing, hcontentType]
  match answer with
  | .error e => exact does_failed e
  | .ok stored =>
    refine does_executeOrCancelled _ (by simp [indexing]) ?_
    have h5 := (h3.trans hs4).trans hs5
    refine does_withClient (h5.keeps .index hindex) fun url s6 _ =>
      does_request (.inr ?_) fun answer s7 _ => ?_
    · simp [indexing]
    match answer with
    | .error e => exact does_failed e
    | .ok inserted => exact does_finish rfl rfl

theorem does_deleteIndexData (layerId indexId : List Char) :
    Does .index (deletion layerId indexId) s (.going [])
      (.executeOrCancelled (initApiClients lookupUrl (unlessError (withClient .blob fun url =>
        .request (.deleteBlob url layerId indexId none) fun
          | .error e => callback (.error e)
          | .ok _ => callback (.ok none)))) cancelFunction) := by
  have hlength : 0 < (deletion layerId indexId).length := Nat.one_pos
  have hinvalid : VersionedLayerClient.invalidHrn ∈ (deletion layerId indexId).refusals :=
    List.mem_cons_self
  refine does_executeOrCancelled [] hlength ?_
  refine does_initIndexClients hlength hinvalid hbuilt (fun _ => rfl) fun s1 hs1 hindex => ?_
  have hblob := hs1.built hbuilt .index hindex .blob (List.mem_cons_of_mem _ List.mem_cons_self)
  refine does_executeOrCancelled [] hlength ?_
  refine does_withClient hblob fun url s2 _ => does_request (.inr ?_) fun answer s3 _ => ?_
  · simp [deletion]
  match answer with
  | .error e => exact does_failed e
  | .ok deleted => exact does_finish rfl rfl

theorem does_updateIndex (request : WriteModel.UpdateIndexRequest) :
    Does .index (indexUpdate request) s (.going []) (updateIndex lookupUrl request) := by
  have hlength : 0 < (indexUpdate request).length := Nat.one_pos
  have hinvalid : VersionedLayerClient.invalidHrn ∈ (indexUpdate request).refusals :=
    List.mem_cons_self
  refine does_executeOrCancelled [] hlength ?_
  refine does_initIndexClients hlength hinvalid hbuilt (fun _ => rfl) fun s1 hs1 hindex => ?_
  refine does_executeOrCancelled [] hlength ?_
  refine does_withClient hindex fun url s2 _ => does_request (.inr ?_) fun answer s3 _ => ?_
  · simp [indexUpdate]
  match answer with
  | .error e => exact does_failed e
  | .ok updated => exact does_finish rfl rfl

end Index

theorem does_refused {client : Client} {s : ClientState} (message : String) :
    Does client (refused message) s (.going [])
      (callback (.error (.ofCode .invalidArgument message.toList))) :=
  does_giveUp Nat.one_pos (.inr List.mem_cons_self)

/-- **What each call does is its transaction.** -/
theorem follows_transaction {client : Client} (lookupUrl : List Char) (call : client.Call)
    {s : ClientState} (hbuilt : Built client s) :
    Does client (transaction client call) s (.going []) (client.program lookupUrl call) := by
  cases client with
  | stream =>
    cases call with
    | publishData request partitionId dataHandle =>
      show Does .stream _ s _ (StreamLayerClientImpl.publishData lookupUrl request _ _)
      unfold transaction StreamLayerClientImpl.publishData
      dsimp only
      cases request.data with
      | none => exact does_refused _
      | some data =>
        dsimp only
        split
        · exact does_publishDataLessThanTwentyMib hbuilt lookupUrl request data
        · exact does_publishDataGreaterThanTwentyMib hbuilt lookupUrl request data _ _
    | publishSdii request =>
      show Does .stream _ s _ (StreamLayerClientImpl.publishSdii lookupUrl request)
      unfold transaction StreamLayerClientImpl.publishSdii
      dsimp only
      cases request.sdiiMessageList with
      | none => exact does_refused _
      | some messages =>
        dsimp only
        split
        · exact does_refused _
        · exact does_publishSdii hbuilt lookupUrl request messages
  | index =>
    cases call with
    | publishIndex request dataHandle =>
      show Does .index _ s _ (IndexLayerClientImpl.publishIndex lookupUrl request _)
      unfold transaction IndexLayerClientImpl.publishIndex
      dsimp only
      cases request.data with
      | none => exact does_refused _
      | some data =>
        dsimp only
        split
        · exact does_refused _
        · exact does_publishIndex hbuilt lookupUrl request data dataHandle
    | deleteIndexData layerId indexId =>
      show Does .index (if _ then _ else _) s _
        (IndexLayerClientImpl.deleteIndexData lookupUrl layerId indexId)
      unfold IndexLayerClientImpl.deleteIndexData
      split
      · exact does_refused _
      · exact does_deleteIndexData hbuilt lookupUrl layerId indexId
    | updateIndex request => exact does_updateIndex hbuilt lookupUrl request

/-! ## What was registered -/

/-- Where a request registers data: the layer and the handle. -/
def registers : SubRequest → List (List Char × List Char)
  | .uploadPartitions _ partitions _ layerId _ =>
    partitions.map fun partition => (layerId, partition.2)
  | .insertIndexes _ index layerId _ => [(layerId, index.id)]
  | _ => []

/-- The data a call brings with it. -/
def dataOf : (client : Client) → client.Call → Option (List UInt8)
  | .stream, .publishData request _ _ => request.data
  | .index, .publishIndex request _ => request.data
  | _, _ => none

section History

variable {t : Transaction} {history : List (Act SubRequest SubRequest.Answer Ending)}

/-- Each of the answers has come to a request that was expected then. -/
def Made (t : Transaction) (history : List (Act SubRequest SubRequest.Answer Ending))
    (answers : List (Option (List Char))) : Prop :=
  ∀ k id, answers[k]? = some id → ∃ (request : SubRequest) (answer : request.Answer),
    .answered request answer ∈ history ∧ t.expects (answers.take k) request = true ∧
      received (answers.take k) request answer = .going (answers.take k ++ [id])

theorem Made.mono {answers : List (Option (List Char))} (h : Made t history answers)
    (act : Act SubRequest SubRequest.Answer Ending) : Made t (history ++ [act]) answers := by
  intro k id hk
  obtain ⟨request, answer, hmem, hrest⟩ := h k id hk
  exact ⟨request, answer, List.mem_append_left _ hmem, hrest⟩

/-- One more answer has come. -/
theorem Made.concat {answers : List (Option (List Char))} (h : Made t history answers)
    {request : SubRequest} {answer : request.Answer} {id : Option (List Char)}
    (hexpects : t.expects answers request = true)
    (hreceived : received answers request answer = .going (answers ++ [id])) :
    Made t (history ++ [.answered request answer]) (answers ++ [id]) := by
  intro k other hk
  by_cases hlt : k < answers.length
  · rw [List.getElem?_append_left hlt] at hk
    rw [List.take_append_of_le_length (Nat.le_of_lt hlt)]
    exact h.mono _ k other hk
  · have heq : k = answers.length := by
      have hbound := (List.getElem?_eq_some_iff.mp hk).1
      rw [List.length_append, List.length_singleton] at hbound
      omega
    subst heq
    rw [List.getElem?_concat_length] at hk
    cases hk
    rw [List.take_left' rfl]
    exact ⟨request, answer, by simp, hexpects, hreceived⟩

/-- What an answer does to a transaction: only one to a request of the transaction itself is
added to those there are. -/
theorem received_cases (answers : List (Option (List Char))) (request : SubRequest)
    (answer : request.Answer) :
    isInit request = true ∧ received answers request answer = .going answers ∨
      isInit request = false ∧ (∃ id, received answers request answer = .going (answers ++ [id])) ∨
      (∃ e, received answers request answer = .failed e) ∨
      received answers request answer = .threw := by
  have hresult : ∀ response : Publishing.Result,
      (∃ id, receivedResult answers response = .going (answers ++ [id])) ∨
        ∃ e, receivedResult answers response = .failed e := by
    intro response
    cases response with
    | error e => exact .inr ⟨e, rfl⟩
    | ok id => exact .inl ⟨id, rfl⟩
  cases request with
  | lookupApi baseUrl service =>
    match answer with
    | .error e => exact .inr (.inr (.inl ⟨e, rfl⟩))
    | .ok [] => exact .inr (.inr (.inr rfl))
    | .ok (url :: urls) => exact .inl ⟨rfl, rfl⟩
  | getCatalog baseUrl billingTag =>
    match answer with
    | .error e => exact .inr (.inr (.inl ⟨e, rfl⟩))
    | .ok catalog => exact .inl ⟨rfl, rfl⟩
  | initPublication baseUrl layerIds billingTag =>
    match answer with
    | .error e => exact .inr (.inr (.inl ⟨e, rfl⟩))
    | .ok none => exact .inr (.inr (.inl ⟨_, rfl⟩))
    | .ok (some id) => exact .inr (.inl ⟨rfl, some id, rfl⟩)
  | _ =>
    obtain hok | herror := hresult answer
    · exact .inr (.inl ⟨rfl, hok⟩)
    · exact .inr (.inr (.inl herror))

/-- What the history has to say for the state a transaction is in. -/
def Backed (t : Transaction) (history : List (Act SubRequest SubRequest.Answer Ending)) :
    Progress → Prop
  | .going answers => Made t history answers
  | .asking answers request => Made t history answers ∧
      (isInit request = true ∧ answers = [] ∨ t.expects answers request = true)
  | .failed _ | .threw | .closed => True

/-- A reply is the end of a transaction. -/
theorem over_of_replied {q q' : Progress} {ending : Ending}
    (hstep : t.step q (.replied ending) = some q') : q' = .closed := by
  have hclosed : ∀ {c : Prop} [Decidable c], (if c then some Progress.closed else none) = some q' →
      q' = .closed := by
    intro c _ h
    exact (Option.some.inj (Option.ite_none_right_eq_some.mp h).2).symm
  cases q with
  | going answers =>
    cases ending with
    | called response =>
      cases response with
      | ok id => exact hclosed hstep
      | error e => exact hclosed hstep
    | thrown | nullPointer => cases hstep
  | failed e =>
    cases ending with
    | called response =>
      cases response with
      | ok id => cases hstep
      | error e => exact hclosed hstep
    | thrown | nullPointer => cases hstep
  | threw =>
    cases ending with
    | thrown =>
      cases hstep
      rfl
    | called | nullPointer => cases hstep
  | asking | closed => cases hstep

/-- **Step.** An act leaves the state of the transaction backed by the history. -/
theorem backed_step {q q' : Progress} {act : Act SubRequest SubRequest.Answer Ending}
    (h : Backed t history q) (hstep : t.step q act = some q') : Backed t (history ++ [act]) q' := by
  cases act with
  | asked request =>
    cases q with
    | going answers =>
      obtain ⟨hexpected, heq⟩ := Option.ite_none_right_eq_some.mp hstep
      cases heq
      exact ⟨h.mono _, hexpected⟩
    | asking | failed | threw | closed => cases hstep
  | answered op answer =>
    cases q with
    | asking answers request =>
      obtain ⟨rfl, heq⟩ := Option.ite_none_right_eq_some.mp hstep
      cases heq
      obtain ⟨hmade, hexpected⟩ := h
      obtain ⟨-, hsame⟩ | ⟨hinit, id, hmore⟩ | ⟨e, hfailed⟩ | hthrew :=
        received_cases answers op answer
      · rw [hsame]
        exact hmade.mono _
      · rw [hmore]
        have hexpects : t.expects answers op = true := by simpa [hinit] using hexpected
        exact hmade.concat hexpects hmore
      · rw [hfailed]
        trivial
      · rw [hthrew]
        trivial
    | going | failed | threw | closed => cases hstep
  | replied ending =>
    rw [over_of_replied hstep]
    trivial

/-- **Run.** So it is at every moment of a transaction. -/
theorem backed_run {q : Progress} (hrun : runFrom t.step (.going []) history = some q) :
    Backed t history q := by
  induction history using List.reverseRecOn generalizing q with
  | nil =>
    cases hrun
    exact nofun
  | append_singleton history act ih =>
    obtain ⟨m, hm, hstep⟩ := runFrom_concat.mp hrun
    exact backed_step (ih hm) hstep

/-- What was asked for was expected at the time. -/
theorem expects_of_asked {q : Progress}
    {before after : List (Act SubRequest SubRequest.Answer Ending)} {request : SubRequest}
    (hrun : runFrom t.step (.going []) (before ++ .asked request :: after) = some q)
    (hinit : isInit request = false) :
    ∃ answers, Made t before answers ∧ t.expects answers request = true := by
  rw [runFrom_append] at hrun
  obtain ⟨m, hm, hrest⟩ := Option.bind_eq_some_iff.mp hrun
  obtain ⟨m', hm', -⟩ := runFrom_cons.mp hrest
  have hbacked := backed_run hm
  match m with
  | .going answers =>
    have hexpected := (Option.ite_none_right_eq_some.mp hm').1
    exact ⟨answers, hbacked, by simpa [hinit] using hexpected⟩

/-- A null pointer is not expected to be dereferenced. -/
theorem nullPointer_notMem {q q' : Progress} (hrun : runFrom t.step q history = some q') :
    .replied .nullPointer ∉ history := by
  induction history generalizing q with
  | nil => exact List.not_mem_nil
  | cons act history ih =>
    obtain ⟨m, hm, hrest⟩ := runFrom_cons.mp hrun
    intro hmem
    obtain rfl | hmem := List.mem_cons.mp hmem
    · cases q with
      | going | asking | failed | threw | closed => cases hm
    · exact ih hrest hmem

end History

/-- A transaction registers a data handle after a request that stores the data under it. -/
def StoresFirst (t : Transaction) (data : Option (List UInt8)) : Prop :=
  ∀ answers request place, t.expects answers request = true → place ∈ registers request →
    ∃ k id, answers[k]? = some id ∧ ∀ earlier, t.expects (answers.take k) earlier = true →
      ∃ url contentType bytes billingTag,
        earlier = .putBlob url place.1 contentType place.2 bytes billingTag ∧
          contentType ≠ [] ∧ data = some bytes

/-- A transaction that registers nothing. -/
theorem storesFirst_of_registers {t : Transaction} (data : Option (List UInt8))
    (h : ∀ answers request, t.expects answers request = true → registers request = []) :
    StoresFirst t data := by
  intro answers request place hexpects hplace
  rw [h answers request hexpects] at hplace
  exact absurd hplace List.not_mem_nil

theorem storesFirst_publication (request : PublishDataRequest) (data : List UInt8)
    (partitionId dataHandle : List Char) :
    StoresFirst (publication request data partitionId dataHandle) (some data) := by
  intro answers asked place hexpects hplace
  simp only [publication] at hexpects
  split at hexpects
  · exact absurd hplace List.not_mem_nil
  · exact absurd hplace List.not_mem_nil
  · rename_i id stored url partitions publicationId layerId billingTag
    obtain ⟨rfl, -, rfl, -⟩ := of_decide_eq_true hexpects
    obtain rfl : place = (request.layerId, dataHandle) := by simpa [registers] using hplace
    refine ⟨1, stored, rfl, fun earlier hearlier => ?_⟩
    simp only [publication] at hearlier
    split at hearlier
    · rename_i hanswers
      cases hanswers
    · rename_i url' layerId contentType handle bytes billingTag' hanswers
      obtain ⟨rfl, hcontentType, rfl, rfl, -⟩ := of_decide_eq_true hearlier
      exact ⟨url', contentType, bytes, billingTag', rfl, hcontentType, rfl⟩
    · rename_i hanswers
      cases hanswers
    · rename_i hanswers
      cases hanswers
    · exact absurd hearlier Bool.false_ne_true
  · exact absurd hplace List.not_mem_nil
  · exact absurd hexpects Bool.false_ne_true

theorem storesFirst_indexing (request : IndexLayerClientImpl.PublishIndexRequest)
    (data : List UInt8) (dataHandle : List Char) :
    StoresFirst (indexing request data dataHandle) (some data) := by
  intro answers asked place hexpects hplace
  simp only [indexing] at hexpects
  split at hexpects
  · exact absurd hplace List.not_mem_nil
  · rename_i stored url index layerId billingTag
    obtain ⟨rfl, rfl, -⟩ := of_decide_eq_true hexpects
    obtain rfl : place = (request.layerId, dataHandle) := by simpa [registers] using hplace
    refine ⟨0, stored, rfl, fun earlier hearlier => ?_⟩
    simp only [indexing] at hearlier
    split at hearlier
    · rename_i url' layerId contentType handle bytes billingTag' hanswers
      obtain ⟨rfl, hcontentType, rfl, rfl, -⟩ := of_decide_eq_true hearlier
      exact ⟨url', contentType, bytes, billingTag', rfl, hcontentType, rfl⟩
    · rename_i hanswers
      cases hanswers
    · exact absurd hearlier Bool.false_ne_true
  · exact absurd hexpects Bool.false_ne_true

theorem storesFirst_refused (message : String) (data : Option (List UInt8)) :
    StoresFirst (refused message) data :=
  storesFirst_of_registers data fun _ _ h => absurd h Bool.false_ne_true

/-- **Every call stores before it registers.** -/
theorem storesFirst_transaction (client : Client) (call : client.Call) :
    StoresFirst (transaction client call) (dataOf client call) := by
  cases client with
  | stream =>
    cases call with
    | publishData request partitionId dataHandle =>
      show StoresFirst _ request.data
      unfold transaction
      dsimp only
      cases request.data with
      | none => exact storesFirst_refused _ _
      | some data =>
        dsimp only
        split
        · refine storesFirst_of_registers _ fun answers asked h => ?_
          simp only [ingestion] at h
          split at h
          · rfl
          · exact absurd h Bool.false_ne_true
        · exact storesFirst_publication request data partitionId dataHandle
    | publishSdii request =>
      show StoresFirst _ none
      unfold transaction
      dsimp only
      cases request.sdiiMessageList with
      | none => exact storesFirst_refused _ _
      | some messages =>
        dsimp only
        split
        · exact storesFirst_refused _ _
        · refine storesFirst_of_registers _ fun answers asked h => ?_
          simp only [sdiiIngestion] at h
          split at h
          · rfl
          · exact absurd h Bool.false_ne_true
  | index =>
    cases call with
    | publishIndex request dataHandle =>
      show StoresFirst _ request.data
      unfold transaction
      dsimp only
      cases request.data with
      | none => exact storesFirst_refused _ _
      | some data =>
        dsimp only
        split
        · exact storesFirst_refused _ _
        · exact storesFirst_indexing request data dataHandle
    | deleteIndexData layerId indexId =>
      show StoresFirst (if _ then _ else _) none
      split
      · exact storesFirst_refused _ _
      · refine storesFirst_of_registers _ fun answers asked h => ?_
        simp only [deletion] at h
        split at h
        · rfl
        · exact absurd h Bool.false_ne_true
    | updateIndex request =>
      refine storesFirst_of_registers _ fun answers asked h => ?_
      simp only [transaction, indexUpdate] at h
      split at h
      · rfl
      · exact absurd h Bool.false_ne_true

/-! ## Guarded programs -/

section Guarded

variable {next : Option ApiError → CallProgram} {rest : CallProgram}

theorem guarded_withClient {inside : Bool} {api : ApiClient} {next : List Char → CallProgram}
    (hnext : ∀ url, (next url).Guarded inside) : (withClient api next).Guarded inside := by
  intro s
  dsimp only
  split
  · exact hnext _
  · trivial

theorem guarded_request {request : SubRequest} {next : request.Answer → CallProgram}
    (hnext : ∀ answer, (next answer).Guarded false) :
    (Program.request request next : CallProgram).Guarded true :=
  ⟨rfl, hnext⟩

theorem guarded_setBaseUrl {inside : Bool} {api : ApiClient} {url : List Char}
    (hrest : rest.Guarded inside) : (setBaseUrl api url rest).Guarded inside :=
  guarded_withClient fun _ => hrest

theorem guarded_executeOrCancelled {inside : Bool} (hrest : rest.Guarded true) :
    (Program.executeOrCancelled rest cancelFunction).Guarded inside :=
  ⟨hrest, trivial⟩

theorem guarded_unlessError (hrest : rest.Guarded true) (error : Option ApiError) :
    (unlessError rest error).Guarded false := by
  cases error with
  | none => exact guarded_executeOrCancelled hrest
  | some e => trivial

theorem guarded_withContentType {layerId message : List Char} {next : List Char → CallProgram}
    (hnext : ∀ contentType, (next contentType).Guarded true) :
    (withContentType layerId message next).Guarded false := by
  intro s
  dsimp only
  split
  · trivial
  · exact guarded_executeOrCancelled (hnext _)

variable (hnext : ∀ error, (next error).Guarded false)
include hnext

theorem guarded_lookupApis (lookupUrl : List Char) (creates : Bool) (apis : List ApiClient) :
    (lookupApis lookupUrl creates next apis).Guarded true := by
  induction apis with
  | nil => exact (hnext none).mono true
  | cons api apis ih =>
    have hlookup : ∀ onAnswer : Response (List (List Char)) → CallProgram,
        (∀ e, onAnswer (.error e) = next (some e)) → onAnswer (.ok []) = .reply .thrown →
        (∀ url urls, onAnswer (.ok (url :: urls)) = setBaseUrl api url (if apis = [] then next none
          else .executeOrCancelled (lookupApis lookupUrl creates next apis)
            (next (some operationCancelled)))) →
        (lookupApi lookupUrl api onAnswer).Guarded true := by
      intro onAnswer herror hnone hurl
      unfold lookupApi
      split
      · rw [herror]
        exact (hnext _).mono true
      · refine guarded_setBaseUrl (guarded_request fun answer => ?_)
        cases answer with
        | error e =>
          show (onAnswer (.error e)).Guarded false
          rw [herror]
          exact hnext (some e)
        | ok urls =>
          show (onAnswer (.ok urls)).Guarded false
          cases urls with
          | nil =>
            rw [hnone]
            trivial
          | cons url urls =>
            rw [hurl]
            refine guarded_setBaseUrl ?_
            split
            · exact hnext none
            · exact ⟨ih, hnext _⟩
    unfold lookupApis
    dsimp only
    split
    · exact hlookup _ (fun _ => rfl) rfl fun _ _ => rfl
    · exact hlookup _ (fun _ => rfl) rfl fun _ _ => rfl

theorem guarded_initClients (lookupUrl : List Char) (api : ApiClient) (creates : Bool)
    (apis : List ApiClient) :
    (Program.read fun s : ClientState => if s.hasUrl api then next none
      else lookupApis lookupUrl creates next apis : CallProgram).Guarded true := by
  intro s
  dsimp only
  split
  · exact (hnext none).mono true
  · exact guarded_lookupApis hnext lookupUrl creates apis

theorem guarded_initIndexClients (lookupUrl : List Char) :
    (IndexLayerClientImpl.initApiClients lookupUrl next).Guarded true := by
  intro s
  dsimp only
  split
  · exact (hnext none).mono true
  · exact guarded_lookupApis hnext lookupUrl false _

theorem guarded_initCatalogModel (billingTag : Option (List Char)) :
    (initCatalogModel billingTag next).Guarded true := by
  intro s
  dsimp only
  split
  · exact (hnext none).mono true
  · refine guarded_withClient fun url => guarded_request fun answer => ?_
    match answer with
    | .error e => exact hnext (some e)
    | .ok catalog => exact hnext none

end Guarded

section Stream

open StreamLayerClientImpl

variable (lookupUrl : List Char) (request : PublishDataRequest) (data : List UInt8)
  (partitionId dataHandle publicationId : List Char)

theorem guarded_publishDataLessThanTwentyMib :
    (publishDataLessThanTwentyMib lookupUrl request data).Guarded false := by
  refine guarded_executeOrCancelled (guarded_initClients (fun error => ?_) _ _ _ _)
  refine guarded_unlessError (guarded_initCatalogModel (fun error => ?_) _) error
  cases error with
  | some e => trivial
  | none =>
    refine guarded_withContentType fun contentType => guarded_withClient fun url => ?_
    exact guarded_request fun answer => trivial

theorem guarded_submitPublication :
    (submitPublication request publicationId partitionId).Guarded true := by
  refine guarded_withClient fun url => guarded_request fun answer => ?_
  match answer with
  | .error e => trivial
  | .ok submitted => trivial

theorem guarded_uploadPartitions :
    (uploadPartitions request publicationId partitionId dataHandle).Guarded true := by
  refine guarded_withClient fun url => guarded_request fun answer => ?_
  match answer with
  | .error e => trivial
  | .ok uploaded =>
    exact guarded_executeOrCancelled (guarded_submitPublication request partitionId publicationId)

theorem guarded_putBlob (contentType : List Char) :
    (putBlob request data publicationId partitionId dataHandle contentType).Guarded true := by
  refine guarded_withClient fun url => guarded_request fun answer => ?_
  match answer with
  | .error e => trivial
  | .ok stored =>
    exact guarded_executeOrCancelled
      (guarded_uploadPartitions request partitionId dataHandle publicationId)

theorem guarded_initPublication :
    (initPublication request data partitionId dataHandle).Guarded true := by
  refine guarded_withClient fun url => guarded_request fun answer => ?_
  match answer with
  | .error e => trivial
  | .ok none => trivial
  | .ok (some publicationId) =>
    exact guarded_withContentType
      (guarded_putBlob request data partitionId dataHandle publicationId)

theorem guarded_publishDataGreaterThanTwentyMib :
    (publishDataGreaterThanTwentyMib lookupUrl request data partitionId dataHandle).Guarded
      false := by
  refine guarded_executeOrCancelled (guarded_initClients (fun error => ?_) _ _ _ _)
  refine guarded_unlessError (guarded_initClients (fun error => ?_) _ _ _ _) error
  refine guarded_unlessError (guarded_initCatalogModel (fun error => ?_) _) error
  cases error with
  | some e => trivial
  | none =>
    exact guarded_executeOrCancelled (guarded_initPublication request data partitionId dataHandle)

end Stream

/-- **Every call makes its requests inside its context.** -/
theorem guarded_program (client : Client) (lookupUrl : List Char) (call : client.Call) :
    (client.program lookupUrl call).Guarded false := by
  cases client with
  | stream =>
    cases call with
    | publishData request partitionId dataHandle =>
      show (StreamLayerClientImpl.publishData lookupUrl request _ _).Guarded false
      unfold StreamLayerClientImpl.publishData
      split
      · trivial
      · split
        · exact guarded_publishDataLessThanTwentyMib lookupUrl request _
        · exact guarded_publishDataGreaterThanTwentyMib lookupUrl request _ partitionId dataHandle
    | publishSdii request =>
      show (StreamLayerClientImpl.publishSdii lookupUrl request).Guarded false
      unfold StreamLayerClientImpl.publishSdii
      split
      · trivial
      · split
        · trivial
        · refine guarded_executeOrCancelled (guarded_initClients (fun error => ?_) _ _ _ _)
          refine guarded_unlessError (guarded_withClient fun url => ?_) error
          exact guarded_request fun answer => trivial
  | index =>
    cases call with
    | publishIndex request dataHandle =>
      show (IndexLayerClientImpl.publishIndex lookupUrl request dataHandle).Guarded false
      unfold IndexLayerClientImpl.publishIndex
      split
      · trivial
      · split
        · trivial
        · refine guarded_executeOrCancelled (guarded_initIndexClients (fun error => ?_) lookupUrl)
          refine guarded_unlessError (guarded_initCatalogModel (fun error => ?_) _) error
          cases error with
          | some e => trivial
          | none =>
            refine guarded_withContentType fun contentType => guarded_withClient fun url => ?_
            refine guarded_request fun answer => ?_
            match answer with
            | .error e => trivial
            | .ok stored =>
              refine guarded_executeOrCancelled (guarded_withClient fun url => ?_)
              refine guarded_request fun answer => ?_
              match answer with
              | .error e => trivial
              | .ok inserted => trivial
    | deleteIndexData layerId indexId =>
      show (IndexLayerClientImpl.deleteIndexData lookupUrl layerId indexId).Guarded false
      unfold IndexLayerClientImpl.deleteIndexData
      split
      · trivial
      · refine guarded_executeOrCancelled (guarded_initIndexClients (fun error => ?_) lookupUrl)
        refine guarded_unlessError (guarded_withClient fun url => ?_) error
        refine guarded_request fun answer => ?_
        match answer with
        | .error e => trivial
        | .ok deleted => trivial
    | updateIndex request =>
      refine guarded_executeOrCancelled (guarded_initIndexClients (fun error => ?_) lookupUrl)
      refine guarded_unlessError (guarded_withClient fun url => ?_) error
      refine guarded_request fun answer => ?_
      match answer with
      | .error e => trivial
      | .ok updated => trivial

/-! ## A call of the index client -/

/-- Services that are all there, and answer everything with success. -/
def someAnswers : (request : SubRequest) → request.Answer
  | .lookupApi _ _ => .ok [['u']]
  | .getCatalog _ _ => .ok ⟨['c'], [⟨['l'], ['t']⟩]⟩
  | .ingestData .. | .ingestSdii .. | .initPublication .. | .putBlob .. | .uploadPartitions ..
  | .submitPublication .. | .insertIndexes .. | .deleteBlob .. | .performUpdate .. => .ok none

def exchange (request : SubRequest) : List (Act SubRequest SubRequest.Answer Ending) :=
  [.asked request, .answered request (someAnswers request)]

def publishingCall : Client.index.Call :=
  .publishIndex ⟨some [104, 105], ['l'], none, ⟨none, none, none, [], []⟩⟩ ['h']

/-- What the call has done before it registers its data. -/
def publishHistory : List (Act SubRequest SubRequest.Answer Ending) :=
  exchange (.lookupApi ['s'] ⟨"config", "v1"⟩) ++ exchange (.lookupApi ['s'] ⟨"blob", "v1"⟩) ++
    exchange (.lookupApi ['s'] ⟨"index", "v1"⟩) ++ exchange (.getCatalog ['u'] none) ++
    exchange (.putBlob ['u'] ['l'] ['t'] ['h'] [104, 105] none)

def publishRequest : SubRequest := .insertIndexes ['u'] ⟨none, none, none, ['h'], []⟩ ['l'] none

/-- The steps up to the next request, and its answer in the frame of the call. -/
def stepsTo (steps : ℕ) : List Client.index.Event :=
  List.replicate steps (.act 0 .advance) ++ [.act 0 (.answer true someAnswers)]

def publishEvents : List Client.index.Event :=
  .join publishingCall :: (stepsTo 8 ++ stepsTo 6 ++ stepsTo 6 ++ stepsTo 6 ++ stepsTo 5 ++
    List.replicate 3 (.act 0 .advance))

/-! ## Results -/

section Results

variable {client : Client} {lookupUrl : List Char} {events more : List client.Event}
  {s s' : client.System}

/-- **Run.** From `follows_transaction`: the clients of the layer only grow, so every call finds
those that it relies on. -/
theorem follows_of_run (hrun : runFrom (client.step lookupUrl) client.start events = some s)
    {party : client.Call × Process SubRequest SubRequest.Answer ClientState Ending}
    (hparty : party ∈ s.parties) :
    ∃ q, runFrom (transaction client party.1).step (.going []) party.2.history = some q := by
  have hfollows := (Processes.follows_run (grows_refl client) (fun _ _ _ => Grows.trans)
    (fun call s hs => follows_transaction lookupUrl call (hs.built (built_new client))) hrun).2
  obtain ⟨q, hq, -⟩ := hfollows party hparty
  exact ⟨q, hq⟩

/-- **Every call is its transaction.** In every run of a client, with any number of calls, whose
requests answer at any time with anything, and which are cancelled at any time, what each call has
done is what its transaction expects. -/
theorem calls_are_transactions
    (hrun : runFrom (client.step lookupUrl) client.start events = some s) :
    ∀ party ∈ s.parties,
      ∃ q, runFrom (transaction client party.1).step (.going []) party.2.history = some q := by
  intro party hparty
  exact follows_of_run hrun hparty

theorem calls_are_transactions_example :
    ∃ q, runFrom (transaction .index publishingCall).step (.going [])
      (publishHistory ++ [.asked publishRequest]) = some q :=
  calls_are_transactions
    (rfl : runFrom (Client.index.step ['s']) Client.index.start publishEvents = some _)
    _ List.mem_cons_self

/-- **Nothing is registered that was not stored.** When a call registers a data handle in a layer,
it has stored its data under that handle in that layer, with a content type, and that has
succeeded. -/
theorem registered_only_if_stored
    (hrun : runFrom (client.step lookupUrl) client.start events = some s)
    {party : client.Call × Process SubRequest SubRequest.Answer ClientState Ending}
    (hparty : party ∈ s.parties) {before after : List (Act SubRequest SubRequest.Answer Ending)}
    {request : SubRequest} (hhistory : party.2.history = before ++ .asked request :: after)
    {layerId dataHandle : List Char} (hregisters : (layerId, dataHandle) ∈ registers request) :
    ∃ url contentType data billingTag id,
      .answered (.putBlob url layerId contentType dataHandle data billingTag) (.ok id) ∈ before ∧
        contentType ≠ [] ∧ dataOf client party.1 = some data := by
  obtain ⟨q, hq⟩ := follows_of_run hrun hparty
  rw [hhistory] at hq
  have hinit : isInit request = false := by
    cases request with
    | lookupApi | getCatalog => exact absurd hregisters List.not_mem_nil
    | _ => rfl
  obtain ⟨answers, hmade, hexpects⟩ := expects_of_asked hq hinit
  obtain ⟨k, id, hk, hstores⟩ :=
    storesFirst_transaction client party.1 answers request _ hexpects hregisters
  obtain ⟨earlier, answer, hmem, hearlier, hreceived⟩ := hmade k id hk
  obtain ⟨url, contentType, bytes, billingTag, rfl, hcontentType, hdata⟩ :=
    hstores earlier hearlier
  refine ⟨url, contentType, bytes, billingTag, id, ?_, hcontentType, hdata⟩
  match answer, hreceived with
  | .ok stored, hreceived =>
    have hstored : stored = id := by simpa [received, receivedResult] using hreceived
    rw [← hstored]
    exact hmem

theorem registered_only_if_stored_example :
    ∃ url contentType data billingTag id,
      .answered (.putBlob url ['l'] contentType ['h'] data billingTag) (.ok id) ∈ publishHistory ∧
        contentType ≠ [] ∧ some [104, 105] = some data :=
  registered_only_if_stored
    (rfl : runFrom (Client.index.step ['s']) Client.index.start publishEvents = some _)
    List.mem_cons_self rfl List.mem_cons_self

/-- **A cancelled call makes no request.** Once `CancelOperation` has returned on the context of a
call, the call makes no request any more, whatever answers still come. -/
theorem no_request_after_cancel
    (hrun : runFrom (client.step lookupUrl) client.start events = some s) {i : ℕ}
    {call : client.Call} {x : Process SubRequest SubRequest.Answer ClientState Ending}
    (hi : s.parties[i]? = some (call, x)) (hcancelled : x.isCancelled = true)
    (hmore : runFrom (client.step lookupUrl) s more = some s') :
    ∃ x', s'.parties[i]? = some (call, x') ∧
      requestsOf x'.history = requestsOf x.history := by
  obtain ⟨x', hx', -, hasked⟩ :=
    Processes.asked_run (guarded_program client lookupUrl) hrun hi hcancelled hmore
  exact ⟨x', hx', hasked⟩

theorem no_request_after_cancel_example :
    ∃ history : List (Act SubRequest SubRequest.Answer Ending), history.length = 3 ∧
      requestsOf history = [.lookupApi ['s'] ⟨"config", "v1"⟩] := by
  obtain ⟨x', hx', hasked⟩ := no_request_after_cancel
    (rfl : runFrom (Client.index.step ['s']) Client.index.start
      (.join publishingCall :: (List.replicate 8 (.act 0 .advance) ++ [.act 0 .executeFnReturns,
        .act 0 .cancelOperation, .act 0 .cancelReturns])) = some _)
    (i := 0) rfl rfl
    (rfl : runFrom (Client.index.step ['s']) _ (.act 0 (.answer false someAnswers) ::
      List.replicate 4 (.act 0 .advance)) = some _)
  cases hx'
  exact ⟨_, rfl, hasked⟩

end Results

end OlpEdgeSdk.Analysis.PublishingTransactions
