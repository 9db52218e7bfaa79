import OlpEdgeSdk.Model.AuthenticationClient

/-!
# Whose token is delivered offline

A token cache holds, under the key of the credentials, the token of the last successful answer to
a sign-in with that key, as long as it is not evicted. The secret and the user are not part of
the key, so a sign-in that finds the network down is given whatever token came last for its key.
-/

set_option autoImplicit false

namespace OlpEdgeSdk.Analysis.TokenOwners

open OlpEdgeSdk.Base OlpEdgeSdk.Interface OlpEdgeSdk.Model AuthenticationClient

variable {User : Type}

/-- Two sign-ins use the same entry of the same cache. -/
def SameEntry (a b : SignIn User) : Prop :=
  a.user.isSome = b.user.isSome ∧ a.credentials.key = b.credentials.key

instance decidableSameEntry (a b : SignIn User) : Decidable (SameEntry a b) :=
  inferInstanceAs (Decidable (_ ∧ _))

/-- The last successful answer to a sign-in of the same kind with the same key. -/
def lastIssued (issued : List (SignIn User × SignInResult)) (request : SignIn User) :
    Option (SignIn User × SignInResult) :=
  issued.find? fun e => SameEntry e.1 request

/-- A token was issued to the owner of a sign-in. -/
def IssuedTo (s : AuthenticationClient User) (request : SignIn User) (r : SignInResult) : Prop :=
  ∃ e ∈ s.issued, e.1.owner = request.owner ∧ e.2 = r

/-! ## One answer -/

/-- The cached token of a key. -/
def cachedFor (cache : TokenCache) (key : List Char) : Option SignInResult :=
  Assoc.valueOf cache.items key

theorem valueAt_find (cache : TokenCache) (key : List Char) :
    (cache.find key).1.valueAt (cache.find key).2 = cachedFor cache key := by
  rw [LinkedLru.find_it, cachedFor]
  split
  · rw [LinkedLru.valueAt_some, LinkedLru.items_find, Recency.valueOf_touch]
  · next hnot =>
    rw [(Assoc.valueOf_eq_none _ _).mpr hnot]
    rfl

theorem cachedFor_find (cache : TokenCache) (key other : List Char) :
    cachedFor (cache.find key).1 other = cachedFor cache other := by
  rw [cachedFor, LinkedLru.items_find, Recency.valueOf_touch, cachedFor]

/-- What an answer leaves in the cache: the new token under its own key, and at most what was
there before under the others. -/
theorem cachedFor_handleAnswer {noToken : ℤ → String → Delivery} {cache : TokenCache}
    {key other : List Char} {answer : NetworkAnswer} {r : SignInResult}
    (h : cachedFor (handleAnswer noToken cache key answer).1 other = some r) :
    (key = other ∧ successful answer = some r) ∨
      (cachedFor cache other = some r ∧ (key = other → successful answer = none)) := by
  have hoffline : answer.status < 0 → successful answer = none := by
    intro hneg
    have hstatus : answer.status ≠ okStatus := by
      rw [okStatus]
      omega
    simp only [successful, hstatus, and_false, if_false]
  rw [handleAnswer] at h
  by_cases hneg : answer.status < 0
  · rw [if_pos hneg] at h
    refine Or.inr ⟨?_, fun _ => hoffline hneg⟩
    split at h
    · exact h
    · split at h
      · rwa [cachedFor_find] at h
      · rwa [cachedFor_find] at h
  · rw [if_neg hneg] at h
    simp only at h
    split at h
    · next hok =>
      have hissued : successful answer =
          some (.ofAnswer answer.status answer.error answer.document answer.now) := if_pos hok
      rw [cachedFor, LinkedLru.items_insertOrAssign] at h
      rcases Recency.valueOf_insertOrAssign h with ⟨hkey, rfl⟩ | ⟨hkey, hold⟩
      · exact Or.inl ⟨hkey, hissued⟩
      · exact Or.inr ⟨hold, fun heq => absurd heq hkey⟩
    · next hnot => exact Or.inr ⟨h, fun _ => if_neg hnot⟩

/-- A token from the cache is delivered exactly if the network fails and there is one. -/
theorem handleAnswer_eq_cached {noToken : ℤ → String → Delivery}
    (hno : ∀ status error r, noToken status error ≠ .cached r) (cache : TokenCache)
    (key : List Char) (answer : NetworkAnswer) (r : SignInResult) :
    (handleAnswer noToken cache key answer).2 = .cached r ↔
      answer.offline = true ∧ cachedFor cache key = some r := by
  rw [handleAnswer, NetworkAnswer.offline, valueAt_find]
  by_cases hneg : answer.status < 0
  · by_cases hcancelled : answer.status = cancelledStatus
    · have honline : ¬ (answer.status < 0 ∧ answer.status ≠ cancelledStatus) :=
        fun h => h.2 hcancelled
      rw [if_pos hneg, if_pos hcancelled, decide_eq_false honline]
      refine iff_of_false ?_ ?_
      · exact Delivery.noConfusion
      · rintro ⟨⟨⟩, -⟩
    · simp only [hneg, hcancelled, if_true, if_false, ne_eq, not_false_eq_true, and_self,
        decide_true, true_and]
      cases hcached : cachedFor cache key with
      | none => simpa using hno answer.status answer.error r
      | some r' => simp
  · simp only [hneg, if_false, false_and, decide_false, Bool.false_eq_true, iff_false]
    split
    · exact fun h => nomatch h
    · exact fun h => nomatch h

/-! ## The client -/

/-- The caches are what the history says: a cached token is that of the last successful answer
for its kind and key. -/
def Cached (s : AuthenticationClient User) : Prop :=
  ∀ (request : SignIn User) (r : SignInResult),
    cachedFor (s.cacheOf request) request.credentials.key = some r →
      ∃ e, lastIssued s.issued request = some e ∧ e.2 = r

theorem cached_new (tokenCacheLimit : UInt64) :
    Cached (new tokenCacheLimit : AuthenticationClient User) := by
  intro request r h
  rw [cacheOf, new] at h
  split at h
  · rw [cachedFor, LinkedLru.items_new] at h
    cases h
  · rw [cachedFor, LinkedLru.items_new] at h
    cases h

/-- Every sign-in handles its answer in the same way, in the cache of its kind. -/
theorem answer_spec (s : AuthenticationClient User) (request : SignIn User)
    (networkAnswer : NetworkAnswer) :
    ∃ noToken : ℤ → String → Delivery, (∀ status error r, noToken status error ≠ .cached r) ∧
      (answer s request networkAnswer).2 =
        (handleAnswer noToken (s.cacheOf request) request.credentials.key networkAnswer).2 ∧
      ∀ other, (answer s request networkAnswer).1.cacheOf other =
        if request.user.isSome = other.user.isSome then
          (handleAnswer noToken (s.cacheOf request) request.credentials.key networkAnswer).1
        else s.cacheOf other := by
  cases request with
  | signInClient credentials =>
    refine ⟨.error, fun _ _ _ => Delivery.noConfusion, rfl, fun other => ?_⟩
    cases other with
    | signInClient => rfl
    | signInHereUser | signInFederated | signInRefresh | acceptTerms => rfl
  | signInHereUser credentials user | signInFederated credentials user
  | signInRefresh credentials user | acceptTerms credentials user =>
    refine ⟨fun status error => .result (.ofAnswer status error none networkAnswer.now),
      fun _ _ _ => Delivery.noConfusion, rfl, fun other => ?_⟩
    cases other with
    | signInClient => rfl
    | signInHereUser | signInFederated | signInRefresh | acceptTerms => rfl

/-- **One answer** keeps the caches what the history says. -/
theorem cached_answer {s : AuthenticationClient User} (h : Cached s) (request : SignIn User)
    (networkAnswer : NetworkAnswer) (requests : List (Option (SignIn User))) :
    Cached { (answer s request networkAnswer).1 with
      requests := requests
      issued := ((successful networkAnswer).map (request, ·)).toList ++ s.issued } := by
  obtain ⟨noToken, -, -, hcache⟩ := answer_spec s request networkAnswer
  intro other r hcached
  have hcached' : cachedFor ((answer s request networkAnswer).1.cacheOf other)
      other.credentials.key = some r := hcached
  rw [hcache] at hcached'
  -- the entry of `other` was written by this answer, or an earlier one that is still the last
  have hkept : cachedFor (s.cacheOf other) other.credentials.key = some r →
      (SameEntry request other → successful networkAnswer = none) →
      ∃ e, lastIssued (((successful networkAnswer).map (request, ·)).toList ++ s.issued) other =
        some e ∧ e.2 = r := by
    intro hold hnone
    obtain ⟨e, he, hr⟩ := h other r hold
    refine ⟨e, ?_, hr⟩
    cases hissued : successful networkAnswer with
    | none => exact he
    | some r' =>
      have hdifferent : ¬ SameEntry request other := by
        intro hsame
        rw [hnone hsame] at hissued
        cases hissued
      simpa [lastIssued, List.find?_cons, hdifferent] using he
  split at hcached'
  · next hkind =>
    have hsameCache : s.cacheOf request = s.cacheOf other := by
      rw [cacheOf, cacheOf, hkind]
    rcases cachedFor_handleAnswer hcached' with ⟨hkey, hissued⟩ | ⟨hold, hnone⟩
    · have hsame : SameEntry request other := ⟨hkind, hkey⟩
      refine ⟨(request, r), ?_, rfl⟩
      simp [lastIssued, hissued, hsame]
    · rw [hsameCache] at hold
      exact hkept hold fun hsame => hnone hsame.2
  · next hkind => exact hkept hcached' fun hsame => absurd hsame.1 hkind

theorem cached_step {s s' : AuthenticationClient User} {event : Event User} (h : Cached s)
    (hstep : step s event = some s') : Cached s' := by
  cases event with
  | signIn request =>
    cases hstep
    exact h
  | answer i networkAnswer =>
    rw [step] at hstep
    split at hstep
    · cases hstep
      exact cached_answer h _ _ _
    · cases hstep

/-! ## Runs -/

/-- A token that is delivered from a cache was issued to the owner of the sign-in. -/
def DeliversOwn (s : AuthenticationClient User) : Event User → Prop
  | .signIn _ => True
  | .answer i networkAnswer => ∀ request, s.requests[i]? = some (some request) →
    ∀ r, (answer s request networkAnswer).2 = .cached r → IssuedTo s request r

/-- When the network fails a sign-in and there is a token for its kind and key, the last one that
was issued for them belongs to the same credentials and user, or equals one that does. -/
def LastIsOwn (s : AuthenticationClient User) : Event User → Prop
  | .signIn _ => True
  | .answer i networkAnswer => ∀ request, s.requests[i]? = some (some request) →
    networkAnswer.offline = true →
      ((s.cacheOf request).find request.credentials.key).2.isSome = true →
        ∀ e, lastIssued s.issued request = some e → IssuedTo s request e.2

theorem deliversOwn_iff {s : AuthenticationClient User} (h : Cached s) (event : Event User) :
    DeliversOwn s event ↔ LastIsOwn s event := by
  cases event with
  | signIn request => exact Iff.rfl
  | answer i networkAnswer =>
    refine forall₂_congr fun request hrequest => ?_
    obtain ⟨noToken, hno, hdelivery, -⟩ := answer_spec s request networkAnswer
    simp only [hdelivery, handleAnswer_eq_cached hno]
    have hthere : ((s.cacheOf request).find request.credentials.key).2.isSome = true ↔
        ∃ r, cachedFor (s.cacheOf request) request.credentials.key = some r := by
      rw [← Option.isSome_iff_exists, cachedFor, Assoc.valueOf_isSome, LinkedLru.find_it]
      split
      · next hmem => exact iff_of_true rfl hmem
      · next hnot => exact iff_of_false Bool.false_ne_true hnot
    rw [hthere]
    constructor
    · rintro hown hoffline ⟨r, hr⟩ e he
      obtain ⟨e', he', rfl⟩ := h request r hr
      rw [he] at he'
      cases he'
      exact hown e.2 ⟨hoffline, hr⟩
    · rintro hlast r ⟨hoffline, hr⟩
      obtain ⟨e, he, rfl⟩ := h request r hr
      exact hlast hoffline ⟨e.2, hr⟩ e he

/-- **Offline tokens.** For every sequence of sign-ins and of answers to them, in any order: a
token that is delivered from a cache was issued to the same credentials and, for the sign-ins of
a user, the same user, if and only if, whenever the network fails a sign-in whose key is cached,
the last token that was issued to a sign-in of its kind with its key belongs to them or equals
one that does.
SOURCE: AuthenticationClient.cpp:283-349, 384-471 -/
theorem offline_tokens_own_iff (tokenCacheLimit : UInt64) (events : List (Event User)) :
    Along step DeliversOwn (new tokenCacheLimit) events ↔
      Along step LastIsOwn (new tokenCacheLimit) events :=
  along_congr (R := fun _ _ => True) Cached (fun _ _ _ h _ => cached_step h)
    (fun _ event h => deliversOwn_iff h event) (cached_new tokenCacheLimit)
    (along_of_forall (fun _ _ => trivial) _ _)

/-- Two users of one application sign in; the second one finds the network down and is given the
token of the first. -/
theorem token_of_other_user :
    let credentials : AuthenticationCredentials := ⟨['k'], ['s']⟩
    let document : SignInDocument := ⟨some "token", some "bearer", some 3600, none, some "alice"⟩
    let events : List (Event String) := [.signIn (.signInHereUser credentials "alice"),
      .signIn (.signInHereUser credentials "bob"), .answer 0 ⟨200, "OK", some document, 0⟩]
    ∃ s, runFrom step (new 100) events = some s ∧
      (answer s (.signInHereUser credentials "bob") ⟨-4, "offline", none, 1⟩).2 =
        .cached ⟨200, "OK", true, "token", "bearer", "", 3600, "alice"⟩ ∧
      ¬ Along step DeliversOwn (new 100)
        (events ++ [.answer 1 ⟨-4, "offline", none, 1⟩]) := by
  intro credentials document events
  refine ⟨_, rfl, by decide, fun hown => ?_⟩
  have hlast := ((along_append.mp hown).2 _ rfl).1
  obtain ⟨e, he, howner, -⟩ := hlast (.signInHereUser credentials "bob") rfl
    ⟨200, "OK", true, "token", "bearer", "", 3600, "alice"⟩ (by decide)
  have hissued : ∀ e ∈ [((.signInHereUser credentials "alice" : SignIn String),
      (⟨200, "OK", true, "token", "bearer", "", 3600, "alice"⟩ : SignInResult))],
      e.1.owner ≠ (.signInHereUser credentials "bob" : SignIn String).owner := by
    decide
  exact hissued e he howner

end OlpEdgeSdk.Analysis.TokenOwners
