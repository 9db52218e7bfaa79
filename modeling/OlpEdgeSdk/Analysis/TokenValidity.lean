import Mathlib.Data.List.Induction
import Mathlib.Tactic.Linarith
import OlpEdgeSdk.Model.AutoRefreshingToken

/-!
# How long a returned token is valid

The time of the next refresh is fixed when a token is fetched, by the validity that the fetching
call asks for. Until then every call gets that token, also one that asks for more. So a call is
honoured if it refreshes, or asks for no more than the call that fetched the token, or comes
early enough; and `honours_iff` says that there is nothing else.
-/

set_option autoImplicit false

namespace OlpEdgeSdk.Analysis.TokenValidity

open OlpEdgeSdk.Model.AutoRefreshingToken

variable {second : ℕ}

/-! ## One call -/

/-- The call asks the endpoint. -/
def Refreshes (impl : Impl) (call : Call) : Prop :=
  forceRefresh call.minimumValidity = true ∨ shouldRefreshNow impl call.clock.entered = true

/-- What the clock shows goes up, and what the endpoint answers is a token for a time. -/
structure Served (second : ℕ) (validity : ℤ) (call : Call) : Prop where
  positive : 0 < call.minimumValidity
  locked : call.clock.entered ≤ call.clock.locked
  issued : call.clock.locked ≤ call.issued
  received : call.issued ≤ call.clock.received
  expired : call.clock.received ≤ call.clock.expired
  success : call.response.success = true
  valid : call.issued + validity * second ≤ call.response.result.expiryTime * second

theorem run_of_not_refreshes {impl : Impl} {call : Call} (h : ¬ Refreshes impl call) :
    call.run second impl = (impl, impl.currentToken) := by
  unfold Call.run
  cases call.form with
  | blocking => exact if_neg h
  | callback => exact if_neg h

/-- Both forms keep the new token and return it. -/
theorem run_of_refreshes {impl : Impl} {call : Call}
    (hlocked : call.clock.entered ≤ call.clock.locked) (h : Refreshes impl call) :
    call.run second impl =
      (keep second call.clock call.response call.minimumValidity, call.response) := by
  have hcheck : forceRefresh call.minimumValidity = true ∨
      shouldRefreshNow impl call.clock.entered = true := h
  have hstill : ¬ (¬ forceRefresh call.minimumValidity = true ∧
      ¬ shouldRefreshNow impl call.clock.locked = true) := by
    rintro ⟨hforce, hnow⟩
    rcases h with h | h
    · exact hforce h
    · apply hnow
      unfold shouldRefreshNow at h ⊢
      rw [decide_eq_true_eq] at h ⊢
      omega
  unfold Call.run
  cases call.form with
  | blocking =>
    dsimp only
    rw [getToken, if_pos hcheck, tryRefreshCurrentToken, if_neg hstill]
    rfl
  | callback =>
    dsimp only
    rw [getTokenCallback, if_pos hcheck, tryRefreshCurrentTokenCallback, if_neg hstill]

/-! ## Runs -/

theorem runAll_concat (impl : Impl) (calls : List Call) (call : Call) :
    runAll second impl (calls ++ [call]) = (call.run second (runAll second impl calls)).1 := by
  rw [runAll, List.foldl_append]
  rfl

/-- Calls that do not refresh leave the state as it is. -/
theorem runAll_of_none {impl : Impl} {calls : List Call} (h : ∀ c ∈ calls, ¬ Refreshes impl c) :
    runAll second impl calls = impl := by
  induction calls using List.reverseRecOn with
  | nil => rfl
  | append_singleton calls call ih =>
    have hcalls := ih fun c hc => h c (List.mem_append_left _ hc)
    rw [runAll_concat, hcalls, run_of_not_refreshes (h call (by simp))]

theorem runAll_append_of_none {impl : Impl} {before between : List Call} {call : Call}
    (h : ∀ c ∈ between, ¬ Refreshes (runAll second impl (before ++ [call])) c) :
    runAll second impl (before ++ call :: between) = runAll second impl (before ++ [call]) := by
  rw [← List.singleton_append, ← List.append_assoc]
  conv_lhs => rw [runAll, List.foldl_append]
  exact runAll_of_none h

/-- The calls are run one after another, and each of them is served. -/
structure ServedRun (second : ℕ) (validity : ℤ) (calls : List Call) : Prop where
  each : ∀ c ∈ calls, Served second validity c
  ordered : calls.Pairwise fun c d => c.clock.expired ≤ d.clock.entered

/-- The second call gets the token that the first one fetched: the first one refreshes, and no
call after it up to the second one does, so each of these finds the state that it has left. -/
def AnsweredWith (second : ℕ) (calls : List Call) (fetching call : Call) : Prop :=
  ∃ before between after, calls = before ++ fetching :: (between ++ call :: after) ∧
    Refreshes (runAll second Impl.new before) fetching ∧
    ∀ c ∈ between ++ [call], ¬ Refreshes (runAll second Impl.new (before ++ [fetching])) c

theorem refreshes_new (call : Call) : Refreshes Impl.new call := by
  right
  rw [shouldRefreshNow, decide_eq_true_eq]
  exact Int.natCast_nonneg _

/-- **After a run** the token is one that was fetched in it, and the call that fetched it is the
last one that refreshed. -/
theorem exists_fetching (second : ℕ) {calls : List Call} (hne : calls ≠ []) :
    ∃ before fetching between, calls = before ++ fetching :: between ∧
      Refreshes (runAll second Impl.new before) fetching ∧
      ∀ c ∈ between, ¬ Refreshes (runAll second Impl.new (before ++ [fetching])) c := by
  induction calls using List.reverseRecOn with
  | nil => exact absurd rfl hne
  | append_singleton calls call ih =>
    by_cases hcall : Refreshes (runAll second Impl.new calls) call
    · exact ⟨calls, call, [], rfl, hcall, by simp⟩
    · have hcalls : calls ≠ [] := by
        rintro rfl
        exact hcall (refreshes_new call)
      obtain ⟨before, fetching, between, rfl, hfetching, hbetween⟩ := ih hcalls
      refine ⟨before, fetching, between ++ [call], by simp, hfetching, ?_⟩
      intro c hc
      rcases List.mem_append.mp hc with hc | hc
      · exact hbetween c hc
      · rw [List.mem_singleton.mp hc, ← runAll_append_of_none hbetween]
        exact hcall

/-- The call got a token that is valid for as long as it asked for. -/
def Honoured (second : ℕ) (call : Call) (response : TokenResponse) : Prop :=
  response.success = true ∧
    call.clock.entered + call.minimumValidity * second ≤ response.result.expiryTime * second

/-- Every call that asks for no more than tokens are issued for is honoured. -/
def HonoursAll (second : ℕ) (validity : ℤ) (calls : List Call) : Prop :=
  ∀ earlier call later, calls = earlier ++ call :: later → call.minimumValidity ≤ validity →
    Honoured second call (call.run second (runAll second Impl.new earlier)).2

/-- What a call gets that does not refresh. -/
theorem answer_of_answeredWith {before between : List Call} {fetching call : Call}
    (hlocked : fetching.clock.entered ≤ fetching.clock.locked)
    (hfetching : Refreshes (runAll second Impl.new before) fetching)
    (hnone : ∀ c ∈ between ++ [call],
      ¬ Refreshes (runAll second Impl.new (before ++ [fetching])) c) :
    call.run second (runAll second Impl.new (before ++ fetching :: between)) =
      (keep second fetching.clock fetching.response fetching.minimumValidity,
        fetching.response) ∧
      ¬ Refreshes (keep second fetching.clock fetching.response fetching.minimumValidity) call := by
  have hkept : runAll second Impl.new (before ++ [fetching]) =
      keep second fetching.clock fetching.response fetching.minimumValidity := by
    rw [runAll_concat, run_of_refreshes hlocked hfetching]
  have hcall := hnone call (by simp)
  rw [hkept] at hcall
  rw [runAll_append_of_none fun c hc => hnone c (List.mem_append_left _ hc), hkept,
    run_of_not_refreshes hcall]
  exact ⟨rfl, hcall⟩

/-- **When every minimum validity is honoured**: a call that is answered with the token of an
earlier one asks for no longer than that one did, or comes while what it asks for is still left
of the token.
SOURCE: AutoRefreshingToken.cpp:42-114 -/
theorem honours_iff {validity : ℤ} {calls : List Call} (hrun : ServedRun second validity calls) :
    HonoursAll second validity calls ↔
      ∀ fetching call, AnsweredWith second calls fetching call →
        call.minimumValidity ≤ validity →
        call.minimumValidity ≤ fetching.minimumValidity ∨
          call.clock.entered + call.minimumValidity * second ≤
            fetching.response.result.expiryTime * second := by
  constructor
  · rintro hall fetching call ⟨before, between, after, rfl, hfetching, hnone⟩ hvalidity
    right
    have hserved := hrun.each fetching (by simp)
    have hanswer := (answer_of_answeredWith hserved.locked hfetching hnone).1
    have hhonoured := hall (before ++ fetching :: between) call after (by simp) hvalidity
    rw [hanswer] at hhonoured
    exact hhonoured.2
  · rintro hcached earlier call later rfl hvalidity
    have hserved := hrun.each call (by simp)
    by_cases hrefreshes : Refreshes (runAll second Impl.new earlier) call
    · rw [run_of_refreshes hserved.locked hrefreshes]
      refine ⟨hserved.success, ?_⟩
      have hmore : call.minimumValidity * second ≤ validity * second :=
        mul_le_mul_of_nonneg_right hvalidity (Int.natCast_nonneg _)
      have hlocked := hserved.locked
      have hissued := hserved.issued
      have hvalid := hserved.valid
      show (_ : ℤ) ≤ call.response.result.expiryTime * second
      omega
    · have hne : earlier ≠ [] := by
        rintro rfl
        exact hrefreshes (refreshes_new call)
      obtain ⟨before, fetching, between, rfl, hfetching, hbetween⟩ :=
        exists_fetching second hne
      have hservedF := hrun.each fetching (by simp)
      have hnone : ∀ c ∈ between ++ [call],
          ¬ Refreshes (runAll second Impl.new (before ++ [fetching])) c := by
        intro c hc
        rcases List.mem_append.mp hc with hc | hc
        · exact hbetween c hc
        · rw [List.mem_singleton.mp hc]
          rwa [← runAll_append_of_none hbetween]
      obtain ⟨hanswer, hlate⟩ := answer_of_answeredWith hservedF.locked hfetching hnone
      rw [hanswer]
      refine ⟨hservedF.success, ?_⟩
      show (_ : ℤ) ≤ fetching.response.result.expiryTime * second
      rcases hcached fetching call ⟨before, between, later, by simp, hfetching, hnone⟩ hvalidity
        with hless | hearly
      · -- the time for the next refresh has not come
        have hbefore : fetching.clock.expired ≤ call.clock.entered :=
          (List.pairwise_append.mp hrun.ordered).2.2 fetching (by simp) call List.mem_cons_self
        have hless' : call.minimumValidity * second ≤ fetching.minimumValidity * second :=
          mul_le_mul_of_nonneg_right hless (Int.natCast_nonneg _)
        have hnow : ¬ shouldRefreshNow (keep second fetching.clock fetching.response
            fetching.minimumValidity) call.clock.entered = true := fun h => hlate (Or.inr h)
        rw [shouldRefreshNow, decide_eq_true_eq, not_le] at hnow
        unfold keep computeTokenRefreshTime at hnow
        dsimp only at hnow
        split at hnow
        · omega
        · omega
      · exact hearly

/-- A call at a time, answered at once with a token for an hour. -/
def hourly (minimumValidity : ℤ) (now : ℕ) : Call :=
  ⟨.blocking, minimumValidity, ⟨now, now, now, now⟩, now, ⟨⟨['t'], now + 3600⟩, true⟩⟩

/-- The second call asks for less than the first one did. -/
theorem honours_iff_less :
    ServedRun 1 3600 [hourly 300 0, hourly 1 3200] ∧
      (HonoursAll 1 3600 [hourly 300 0, hourly 1 3200] ↔
        ∀ fetching call, AnsweredWith 1 [hourly 300 0, hourly 1 3200] fetching call →
          call.minimumValidity ≤ 3600 →
          call.minimumValidity ≤ fetching.minimumValidity ∨
            call.clock.entered + call.minimumValidity * (1 : ℕ) ≤
              fetching.response.result.expiryTime * (1 : ℕ)) := by
  have hrun : ServedRun 1 3600 [hourly 300 0, hourly 1 3200] := by
    constructor
    · intro c hc
      simp only [List.mem_cons, List.not_mem_nil, or_false] at hc
      rcases hc with rfl | rfl
      · constructor <;> decide
      · constructor <;> decide
    · simp [hourly]
  exact ⟨hrun, honours_iff hrun⟩

/-- A call for five minutes gets a token that is left for less than two. -/
theorem longer_validity_not_honoured :
    ServedRun 1 3600 [hourly 1 0, hourly 300 3500] ∧
      ¬ HonoursAll 1 3600 [hourly 1 0, hourly 300 3500] := by
  constructor
  · constructor
    · intro c hc
      simp only [List.mem_cons, List.not_mem_nil, or_false] at hc
      rcases hc with rfl | rfl
      · constructor <;> decide
      · constructor <;> decide
    · simp [hourly]
  · intro h
    exact absurd (h [hourly 1 0] (hourly 300 3500) [] rfl (by decide)).2 (by decide)

end OlpEdgeSdk.Analysis.TokenValidity
