import OlpEdgeSdk.Model.Repositories

/-!
# The patterns that the repositories share

A property of programs that reading, writing and scheduling keep is kept by the check of the
cache (`structural_checkCache`) and by the callback that caches a response
(`structural_cacheResponseCallback`). One that the two requests of
`AppendPartitionsRequest` keep as well holds of it if it holds of what comes after
(`appendPartitionsRequest_of_requests`).
-/

set_option autoImplicit false

namespace OlpEdgeSdk.Analysis.RepositoryPatterns

open OlpEdgeSdk.Base OlpEdgeSdk.Model

section Patterns

variable {Op : Type} {Answer : Op → Type} {Reply α : Type}
  {P : Program Op Answer Store Reply → Prop} (hP : Program.Structural P)
  {callback : Response α → Program Op Answer Store Reply}
  (hcallback : ∀ response, P (callback response))
include hP hcallback

theorem structural_checkCache {fetchOption : FetchOptions} {get : Store → Option α}
    {notFound : List Char} {online : Program Op Answer Store Reply} (honline : P online) :
    P (checkCache fetchOption get notFound callback online) := by
  unfold checkCache
  split
  · apply hP.read
    intro s
    split
    · exact hP.schedule _ (hcallback _)
    · split
      · exact hP.schedule _ (hcallback _)
      · exact honline
  · exact honline

theorem structural_cacheResponseCallback {put : α → Store → Store} {clear : Store → Store}
    (response : Response α) : P (cacheResponseCallback put clear callback response) := by
  unfold cacheResponseCallback
  split
  · exact hP.write _ _ (hcallback _)
  · split
    · exact hP.write _ _ (hcallback _)
    · exact hcallback _

end Patterns

section Partitions

open PartitionsRepository

variable {P : PartitionsProgram → Prop} {r : PartitionsRequest}

/-- Errors of the two requests are replied at once. -/
theorem appendPartitionsRequest_of_requests (hreply : ∀ response, P (.reply response))
    (hcatalog : ∀ next : Response Catalog → PartitionsProgram,
      (∀ error, next (.error error) = .reply (.error error)) →
      (∀ response, P (next response)) →
      P (.executeOrCancelled (.request (.getCatalog ⟨r.billingTag, r.fetchOption⟩) next)
        cancelCallback))
    (hlatest : ∀ next : Response ℤ → PartitionsProgram,
      (∀ error, next (.error error) = .reply (.error error)) →
      (∀ response, P (next response)) →
      P (.executeOrCancelled
        (.request (.getLatestCatalogVersion ⟨-1, r.billingTag, r.fetchOption⟩) next)
        cancelCallback))
    {fetchPartitions : PartitionsRequest → Option ℤ → PartitionsProgram}
    (hfetch : ∀ appended expiry, P (fetchPartitions appended expiry)) :
    P (appendPartitionsRequest r fetchPartitions) := by
  unfold appendPartitionsRequest
  refine hcatalog _ (fun _ => rfl) fun response => ?_
  cases response with
  | error error => exact hreply _
  | ok catalog =>
    dsimp only
    split
    · exact hreply _
    · split
      · exact hfetch _ _
      · split
        · exact hfetch _ _
        · refine hlatest _ (fun _ => rfl) fun response => ?_
          cases response with
          | error error => exact hreply _
          | ok version => exact hfetch _ _

end Partitions

end OlpEdgeSdk.Analysis.RepositoryPatterns
