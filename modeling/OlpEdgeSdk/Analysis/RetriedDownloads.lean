import OlpEdgeSdk.Model.NetworkCurlHandle

/-!
# What a retried download leaves in the payload

A piece of a body is written where the counter stands, and a retry sets the counter back, not
the payload. So the bodies are written over one another from the start, and the tail of a
longer one stays; where the offset is ignored they are written behind one another. An attempt
writes nothing once a header has said that the range is past the end, which no retry takes
back, or if the content of its status is skipped.
-/

set_option autoImplicit false

namespace OlpEdgeSdk.Analysis.RetriedDownloads

open OlpEdgeSdk.Base OlpEdgeSdk.Model NetworkCurl

/-! ## The pieces of one body -/

/-- Where the next piece goes: the payload has a position in it that the counter stands for,
the end if the offset is ignored. -/
structure Writable (handle : RequestHandle) (payload : PayloadStream) : Prop where
  payload_eq : handle.payload = some payload
  count_le : handle.count ≤ payload.bytes.length
  pos_eq : handle.ignoreOffset = true → payload.pos = payload.bytes.length

/-- The place of the next piece. -/
def place (handle : RequestHandle) (payload : PayloadStream) : ℕ :=
  if handle.ignoreOffset then payload.bytes.length else handle.count

theorem place_of_ignore {handle : RequestHandle} (payload : PayloadStream)
    (h : handle.ignoreOffset = true) : place handle payload = payload.bytes.length := by
  unfold place
  rw [if_pos h]

theorem place_of_keep {handle : RequestHandle} (payload : PayloadStream)
    (h : ¬ handle.ignoreOffset = true) : place handle payload = handle.count := by
  unfold place
  rw [if_neg h]

theorem Writable.place_bounds {handle : RequestHandle} {payload : PayloadStream}
    (h : Writable handle payload) :
    handle.count ≤ place handle payload ∧ place handle payload ≤ payload.bytes.length := by
  have hcount := h.count_le
  unfold place
  split
  · exact ⟨hcount, le_refl _⟩
  · exact ⟨le_refl _, hcount⟩

/-- A piece is written at its place. -/
theorem writePayload_bytes {handle : RequestHandle} {payload : PayloadStream}
    (h : Writable handle payload) (data : List UInt8) :
    writePayload handle data payload =
      { bytes := overwriteAt payload.bytes (place handle payload) data
        pos := place handle payload + data.length } := by
  unfold writePayload place PayloadStream.write
  cases hignore : handle.ignoreOffset with
  | true =>
    have hpos := h.pos_eq hignore
    simp [hpos]
  | false =>
    by_cases hpos : payload.pos = handle.count
    · simp [hpos]
    · simp [hpos, PayloadStream.seekp, h.count_le]

/-- A handle that takes what comes in: no range past the end, and not cancelled. -/
def Receives (handle : RequestHandle) (status : ℕ) : Prop :=
  skips handle status = false ∧ handle.rangeOut = false ∧ handle.cancelled = false

/-- What the pieces of a body leave of the handle's data that say where the next one goes. -/
structure SameSettings (handle handle' : RequestHandle) : Prop where
  rangeOut : handle'.rangeOut = handle.rangeOut
  cancelled : handle'.cancelled = handle.cancelled
  ignoreOffset : handle'.ignoreOffset = handle.ignoreOffset
  skipContent : handle'.skipContent = handle.skipContent

theorem SameSettings.refl (handle : RequestHandle) : SameSettings handle handle :=
  ⟨rfl, rfl, rfl, rfl⟩

theorem SameSettings.trans {a b c : RequestHandle} (h : SameSettings a b)
    (h' : SameSettings b c) : SameSettings a c :=
  ⟨h'.rangeOut.trans h.rangeOut, h'.cancelled.trans h.cancelled,
    h'.ignoreOffset.trans h.ignoreOffset, h'.skipContent.trans h.skipContent⟩

theorem sameSettings_rxFunction (status : ℕ) (handle : RequestHandle) (data : List UInt8) :
    SameSettings handle (rxFunction true status handle data) := by
  unfold rxFunction
  split
  · exact SameSettings.refl handle
  · split
    · exact ⟨rfl, rfl, rfl, rfl⟩
    · exact SameSettings.refl handle

theorem Receives.of_same {handle handle' : RequestHandle} {status : ℕ}
    (h : SameSettings handle handle') : Receives handle' status ↔ Receives handle status := by
  unfold Receives skips
  rw [h.rangeOut, h.cancelled, h.skipContent]

/-- **A piece that is received** is written at its place; the counter goes on by its length. -/
theorem rxFunction_receives {handle : RequestHandle} {payload : PayloadStream} {status : ℕ}
    (h : Writable handle payload) (hreceives : Receives handle status) (data : List UInt8) :
    ∃ payload', Writable (rxFunction true status handle data) payload' ∧
      payload'.bytes = overwriteAt payload.bytes (place handle payload) data ∧
      place (rxFunction true status handle data) payload' = place handle payload + data.length := by
  obtain ⟨hskips, hrange, hcancelled⟩ := hreceives
  obtain ⟨hcount, hplace⟩ := h.place_bounds
  have hlength := length_overwriteAt hplace data
  have hafter : rxFunction true status handle data = { handle with
      dataCalls := if handle.dataCallback then
        handle.dataCalls ++ [(handle.offset + handle.count, data)] else handle.dataCalls
      payload := handle.payload.map (writePayload handle data)
      count := handle.count + data.length } := by
    unfold rxFunction
    simp [hskips, hrange, hcancelled]
  refine ⟨writePayload handle data payload, ?_, ?_, ?_⟩
  · rw [hafter]
    refine ⟨?_, ?_, ?_⟩
    · rw [h.payload_eq, Option.map_some]
    · rw [writePayload_bytes h]
      dsimp only
      omega
    · rw [writePayload_bytes h]
      intro hignore
      have hplace : place handle payload = payload.bytes.length := place_of_ignore payload hignore
      dsimp only
      omega
  · rw [writePayload_bytes h]
  · rw [writePayload_bytes h, hafter]
    by_cases hignore : handle.ignoreOffset = true
    · rw [place_of_ignore _ (by exact hignore)]
      have hplace : place handle payload = payload.bytes.length := place_of_ignore payload hignore
      dsimp only
      omega
    · rw [place_of_keep _ (by exact hignore), place_of_keep payload hignore]

/-- A piece that is not received changes nothing. -/
theorem rxFunction_of_not_receives {handle : RequestHandle} {status : ℕ}
    (h : ¬ Receives handle status) (data : List UInt8) :
    rxFunction true status handle data = handle := by
  unfold rxFunction
  unfold Receives at h
  cases hskips : skips handle status with
  | true => simp
  | false =>
    have hnot : (true && !handle.rangeOut && !handle.cancelled) = false := by
      rw [Bool.true_and]
      by_contra hboth
      simp only [Bool.not_eq_false, Bool.and_eq_true, Bool.not_eq_true'] at hboth
      exact h ⟨hskips, hboth⟩
    rw [hnot]
    simp

/-- **All pieces of a body** are written like the body in one piece. -/
theorem foldl_rxFunction_receives (chunks : List (List UInt8)) {handle : RequestHandle}
    {payload : PayloadStream} {status : ℕ} (h : Writable handle payload)
    (hreceives : Receives handle status) :
    ∃ payload', Writable (chunks.foldl (rxFunction true status) handle) payload' ∧
      payload'.bytes = overwriteAt payload.bytes (place handle payload) chunks.flatten := by
  induction chunks generalizing handle payload with
  | nil => exact ⟨payload, h, overwriteAt_nil.symm⟩
  | cons data chunks ih =>
    obtain ⟨payload', hwritable, hbytes, hplace⟩ := rxFunction_receives h hreceives data
    have hsame := sameSettings_rxFunction status handle data
    obtain ⟨payload'', hwritable', hbytes'⟩ := ih hwritable ((Receives.of_same hsame).mpr hreceives)
    refine ⟨payload'', hwritable', ?_⟩
    rw [hbytes', hbytes, hplace, overwriteAt_append h.place_bounds.2, List.flatten_cons]

theorem foldl_rxFunction_of_not_receives {chunks : List (List UInt8)} {handle : RequestHandle}
    {status : ℕ} (h : ¬ Receives handle status) :
    chunks.foldl (rxFunction true status) handle = handle := by
  induction chunks with
  | nil => rfl
  | cons data chunks ih =>
    rw [List.foldl_cons, rxFunction_of_not_receives h, ih]

theorem sameSettings_foldl (chunks : List (List UInt8)) (status : ℕ) (handle : RequestHandle) :
    SameSettings handle (chunks.foldl (rxFunction true status) handle) := by
  induction chunks generalizing handle with
  | nil => exact SameSettings.refl handle
  | cons data chunks ih => exact (sameSettings_rxFunction status handle data).trans (ih _)

/-! ## The attempts -/

/-- The body of an attempt. -/
def body (a : Attempt) : List UInt8 := a.chunks.flatten

/-- Whether the content of a status is taken, if that of errors is to be skipped. -/
def isAccepted (status : ℕ) : Bool := status = 200 || status = 206 || status = 201 || status = 0

/-- Whether the content of an attempt is taken, by its status. -/
def accepts (skipContent : Bool) (a : Attempt) : Bool := !skipContent || isAccepted a.status

/-- The bodies that are written: until a header says that the range is past the end. -/
def writtenBodies (skipContent : Bool) (attempts : List Attempt) : List (List UInt8) :=
  ((attempts.takeWhile fun a => !a.rangeOut).filter (accepts skipContent)).map body

/-- What bodies leave in a payload: written over one another, or behind one another. -/
def leftBy (ignoreOffset : Bool) (old : List UInt8) (bodies : List (List UInt8)) : List UInt8 :=
  if ignoreOffset then old ++ bodies.flatten else bodies.foldl overwrite old

theorem skips_eq (handle : RequestHandle) (a : Attempt) :
    skips handle a.status = !accepts handle.skipContent a := by
  unfold skips accepts isAccepted
  cases handle.skipContent with
  | false => rfl
  | true =>
    simp only [Bool.true_and, Bool.not_true, Bool.false_or, Bool.not_or, ne_eq, decide_not]

/-- At the start of an attempt nothing of its body has been counted. -/
structure Fresh (handle : RequestHandle) (payload : PayloadStream) : Prop where
  writable : Writable handle payload
  count_zero : handle.count = 0
  cancelled : handle.cancelled = false

theorem retry_fst (handle : RequestHandle) (status : ℤ) :
    SameSettings handle (retry handle status).1 ∧
      (retry handle status).1.payload = handle.payload ∧
      ((retry handle status).2 = true → (retry handle status).1.count = 0) := by
  unfold retry
  split
  · split
    · exact ⟨⟨rfl, rfl, rfl, rfl⟩, rfl, fun _ => rfl⟩
    · exact ⟨⟨rfl, rfl, rfl, rfl⟩, rfl, by rintro ⟨⟩⟩
  · exact ⟨SameSettings.refl handle, rfl, by rintro ⟨⟩⟩

/-- **One attempt** leaves its body if it is written, and the payload is ready for the next
attempt if there is one. -/
theorem receive_spec {a : Attempt} {handle : RequestHandle} {payload : PayloadStream}
    (h : Fresh handle payload) :
    ∃ payload', (receive a handle).1.payload = some payload' ∧
      payload'.bytes = (if !(handle.rangeOut || a.rangeOut) && accepts handle.skipContent a then
        leftBy handle.ignoreOffset payload.bytes [body a] else payload.bytes) ∧
      (receive a handle).1.rangeOut = (handle.rangeOut || a.rangeOut) ∧
      (receive a handle).1.skipContent = handle.skipContent ∧
      (receive a handle).1.ignoreOffset = handle.ignoreOffset ∧
      ((receive a handle).2 = true → Fresh (receive a handle).1 payload') := by
  obtain ⟨hwritable, hcount, hcancelled⟩ := h
  have hheader : Writable (receiveHeader a handle) payload :=
    ⟨hwritable.payload_eq, hwritable.count_le, hwritable.pos_eq⟩
  -- the payload after the body
  have hbody : ∃ payload',
      Writable (a.chunks.foldl (rxFunction true a.status) (receiveHeader a handle)) payload' ∧
      payload'.bytes = (if !(handle.rangeOut || a.rangeOut) && accepts handle.skipContent a then
        leftBy handle.ignoreOffset payload.bytes [body a] else payload.bytes) := by
    by_cases hreceives : Receives (receiveHeader a handle) a.status
    · obtain ⟨payload', hwritable', hbytes⟩ := foldl_rxFunction_receives a.chunks hheader hreceives
      refine ⟨payload', hwritable', ?_⟩
      obtain ⟨hskips, hrange, -⟩ := hreceives
      rw [skips_eq] at hskips
      have hskips' : accepts handle.skipContent a = true := by
        have : (!accepts handle.skipContent a) = false := hskips
        rwa [Bool.not_eq_false'] at this
      have hrange' : (handle.rangeOut || a.rangeOut) = false := hrange
      rw [hbytes, hrange', hskips']
      simp only [Bool.not_false, Bool.and_self, if_true]
      unfold leftBy
      by_cases hignore : handle.ignoreOffset = true
      · rw [if_pos hignore, place_of_ignore payload (by exact hignore), overwriteAt_length]
        simp [body]
      · rw [if_neg hignore, place_of_keep payload (by exact hignore)]
        have hzero : (receiveHeader a handle).count = 0 := hcount
        rw [hzero, overwriteAt_zero]
        rfl
    · refine ⟨payload, ?_, ?_⟩
      · rw [foldl_rxFunction_of_not_receives hreceives]
        exact hheader
      · rw [if_neg]
        intro hboth
        simp only [Bool.and_eq_true, Bool.not_eq_true'] at hboth
        apply hreceives
        refine ⟨?_, hboth.1, hcancelled⟩
        rw [skips_eq]
        show (!accepts handle.skipContent a) = false
        rw [hboth.2]
        rfl
  obtain ⟨payload', hwritable', hbytes⟩ := hbody
  have hsame := sameSettings_foldl a.chunks a.status (receiveHeader a handle)
  obtain ⟨hretry, hpayload, hzero⟩ := retry_fst
    (a.chunks.foldl (rxFunction true a.status) (receiveHeader a handle))
    (attemptStatus (a.chunks.foldl (rxFunction true a.status) (receiveHeader a handle))
      a.result a.status a.tookLong)
  have hall := hsame.trans hretry
  refine ⟨payload', hpayload.trans hwritable'.payload_eq, hbytes, hall.rangeOut,
    hall.skipContent, hall.ignoreOffset, ?_⟩
  intro hagain
  have hnone : (receive a handle).1.count = 0 := hzero hagain
  refine ⟨⟨hpayload.trans hwritable'.payload_eq, ?_, ?_⟩, hnone,
    hall.cancelled.trans hcancelled⟩
  · rw [hnone]
    exact Nat.zero_le _
  · intro hignore
    exact hwritable'.pos_eq (hretry.ignoreOffset.symm.trans hignore)

theorem leftBy_cons (ignoreOffset : Bool) (old b : List UInt8) (bodies : List (List UInt8)) :
    leftBy ignoreOffset old (b :: bodies) =
      leftBy ignoreOffset (leftBy ignoreOffset old [b]) bodies := by
  unfold leftBy
  split
  · simp
  · rfl

theorem leftBy_nil (ignoreOffset : Bool) (old : List UInt8) : leftBy ignoreOffset old [] = old := by
  unfold leftBy
  split
  · simp
  · rfl

theorem writtenBodies_cons (skipContent : Bool) (a : Attempt) (attempts : List Attempt) :
    writtenBodies skipContent (a :: attempts) =
      if a.rangeOut then []
      else if accepts skipContent a then body a :: writtenBodies skipContent attempts
      else writtenBodies skipContent attempts := by
  unfold writtenBodies
  cases hrange : a.rangeOut with
  | true => simp [hrange]
  | false =>
    cases haccepts : accepts skipContent a with
    | true => simp [hrange, haccepts]
    | false => simp [hrange, haccepts]

/-- What an attempt leaves, and the bodies of those after it. -/
theorem leftBy_writtenBodies_cons {rangeOut skipContent ignoreOffset : Bool}
    {old written : List UInt8} {a : Attempt} (attempts : List Attempt)
    (hwritten : written = if !(rangeOut || a.rangeOut) && accepts skipContent a then
      leftBy ignoreOffset old [body a] else old) :
    (if rangeOut || a.rangeOut then written
      else leftBy ignoreOffset written (writtenBodies skipContent attempts)) =
    if rangeOut then old
      else leftBy ignoreOffset old (writtenBodies skipContent (a :: attempts)) := by
  rw [hwritten, writtenBodies_cons]
  cases rangeOut with
  | true => simp
  | false =>
    cases a.rangeOut with
    | true => simp [leftBy_nil]
    | false =>
      cases accepts skipContent a with
      | true => exact (leftBy_cons _ _ _ _).symm
      | false => simp

/-- **All attempts** leave the bodies that are written. The induction is on the attempts; each
one that is followed by another starts afresh. -/
theorem download_spec {attempts : List Attempt} {handle : RequestHandle} {payload : PayloadStream}
    {out : Option PayloadStream} (h : Fresh handle payload)
    (hdone : download handle attempts = some (out, [])) :
    ∃ last, out = some last ∧ last.bytes =
      if handle.rangeOut then payload.bytes
      else leftBy handle.ignoreOffset payload.bytes
        (writtenBodies handle.skipContent attempts) := by
  induction attempts generalizing handle payload with
  | nil => cases hdone
  | cons a attempts ih =>
    obtain ⟨payload', hpayload, hbytes, hrange, hskip, hignore, hfresh⟩ := receive_spec (a := a) h
    rw [← leftBy_writtenBodies_cons attempts hbytes]
    unfold download at hdone
    dsimp only at hdone
    by_cases hagain : (receive a handle).2 = true
    · rw [if_pos hagain] at hdone
      obtain ⟨last, hlast, hleft⟩ := ih (hfresh hagain) hdone
      refine ⟨last, hlast, ?_⟩
      rw [hleft, hrange, hskip, hignore]
    · rw [if_neg hagain, Option.some.injEq, Prod.mk.injEq] at hdone
      obtain ⟨hout, rfl⟩ := hdone
      refine ⟨payload', hout.symm.trans hpayload, ?_⟩
      have hnone : writtenBodies handle.skipContent [] = [] := rfl
      rw [hnone, leftBy_nil, ite_self]

/-! ## The last body -/

/-- Whether the body of the last attempt is written: no header so far has said that the range
is past the end, and the content of its status is taken. -/
def LastIsWritten (skipContent : Bool) (earlier : List Attempt) (last : Attempt) : Prop :=
  (∀ a ∈ earlier ++ [last], a.rangeOut = false) ∧ accepts skipContent last = true

theorem writtenBodies_of_last_written {skipContent : Bool} {earlier : List Attempt}
    {last : Attempt} (h : LastIsWritten skipContent earlier last) :
    writtenBodies skipContent (earlier ++ [last]) =
      writtenBodies skipContent earlier ++ [body last] := by
  obtain ⟨hrange, haccepts⟩ := h
  induction earlier with
  | nil =>
    have hlast := hrange last (by simp)
    simp [writtenBodies, hlast, haccepts]
  | cons a earlier ih =>
    have ha := hrange a (by simp)
    have hrest := ih fun b hb => hrange b (List.mem_cons_of_mem a hb)
    rw [List.cons_append, writtenBodies_cons, writtenBodies_cons, ha, hrest]
    simp only [Bool.false_eq_true, if_false]
    split
    · rfl
    · rfl

theorem writtenBodies_of_last_unwritten {skipContent : Bool} {earlier : List Attempt}
    {last : Attempt} (h : ¬ LastIsWritten skipContent earlier last) :
    writtenBodies skipContent (earlier ++ [last]) = writtenBodies skipContent earlier := by
  induction earlier with
  | nil =>
    rw [List.nil_append, writtenBodies_cons]
    split
    · rfl
    · next hrange =>
      rw [if_neg]
      intro haccepts
      apply h
      refine ⟨?_, haccepts⟩
      intro b hb
      rw [List.nil_append, List.mem_singleton] at hb
      rw [hb]
      simpa using hrange
  | cons a earlier ih =>
    rw [List.cons_append, writtenBodies_cons, writtenBodies_cons]
    split
    · rfl
    · next hrange =>
      rw [ih]
      rintro ⟨hall, haccepts⟩
      apply h
      refine ⟨?_, haccepts⟩
      intro b hb
      rcases List.mem_cons.mp hb with rfl | hb
      · simpa using hrange
      · exact hall b hb

/-- The body of the last attempt is alone in the payload if the ones before it are no longer,
or empty where the offset is ignored. -/
theorem leftBy_concat_eq_iff {ignoreOffset : Bool} {bodies : List (List UInt8)} {b : List UInt8} :
    leftBy ignoreOffset [] (bodies ++ [b]) = b ↔
      ∀ earlier ∈ bodies, earlier.length ≤ if ignoreOffset then 0 else b.length := by
  unfold leftBy
  cases ignoreOffset with
  | true =>
    simp
  | false =>
    simp only [Bool.false_eq_true, if_false]
    rw [List.foldl_concat, overwrite_eq_right_iff, length_foldl_overwrite_le]
    simp

/-- **When a retried download delivers the last body.** For every list of attempts of which
the last one is not followed by another, the payload is the body of the last attempt exactly
if that body is written and none written before is longer (where the offset is ignored: has
any bytes), or it is not written and equals what the ones before have left. -/
theorem download_delivers_last_iff (handle : RequestHandle) (id : ℕ) (callback : Option ℕ)
    (headerCallback dataCallback : Bool) (maxRetries : ℕ) (ignoreOffset skipContent : Bool)
    (earlier : List Attempt) (last : Attempt) (payload : PayloadStream)
    (hdone : download
      (configure (take handle id callback headerCallback dataCallback (some PayloadStream.empty))
        maxRetries ignoreOffset skipContent) (earlier ++ [last]) = some (some payload, [])) :
    payload.bytes = body last ↔
      (LastIsWritten skipContent earlier last ∧
          ∀ b ∈ writtenBodies skipContent earlier,
            b.length ≤ if ignoreOffset then 0 else (body last).length) ∨
        (¬ LastIsWritten skipContent earlier last ∧
          leftBy ignoreOffset [] (writtenBodies skipContent earlier) = body last) := by
  have hfresh : Fresh (configure
      (take handle id callback headerCallback dataCallback (some PayloadStream.empty))
      maxRetries ignoreOffset skipContent) PayloadStream.empty :=
    ⟨⟨rfl, Nat.zero_le _, fun _ => rfl⟩, rfl, rfl⟩
  obtain ⟨payload', hpayload, hbytes⟩ := download_spec hfresh hdone
  rw [← Option.some.inj hpayload] at hbytes
  have hleft : payload.bytes =
      leftBy ignoreOffset [] (writtenBodies skipContent (earlier ++ [last])) := hbytes
  rw [hleft]
  by_cases hwritten : LastIsWritten skipContent earlier last
  · rw [writtenBodies_of_last_written hwritten, leftBy_concat_eq_iff]
    simp [hwritten]
  · rw [writtenBodies_of_last_unwritten hwritten]
    simp [hwritten]

/-- An attempt that comes through with a status and a body. -/
def answered (status : ℕ) (chunks : List (List UInt8)) : Attempt where
  rangeOut := false
  offset := none
  status := status
  chunks := chunks
  result := .OK
  tookLong := false

/-- The handle of a request for a download that may be retried three times. -/
def requested : RequestHandle :=
  configure (take RequestHandle.new 7 (some 0) false false (some PayloadStream.empty)) 3 false false

theorem download_delivers_last_after_shorter :
    ∃ payload, download requested [answered 503 [[1]], answered 200 [[9], [8]]] =
      some (some payload, []) ∧ payload.bytes = body (answered 200 [[9], [8]]) := by
  refine ⟨⟨[9, 8], 2⟩, rfl, ?_⟩
  apply (download_delivers_last_iff RequestHandle.new 7 (some 0) false false 3 false false
    [answered 503 [[1]]] (answered 200 [[9], [8]]) ⟨[9, 8], 2⟩ rfl).mpr
  left
  refine ⟨⟨?_, rfl⟩, ?_⟩
  · simp [answered]
  · simp [writtenBodies, answered, accepts, body]

/-- The error page of a first attempt is longer than the answer to the second one: its tail
stays behind the answer. -/
theorem download_keeps_tail :
    ∃ payload, download requested [answered 503 [[1, 2, 3]], answered 200 [[9]]] =
      some (some payload, []) ∧ payload.bytes = [9, 2, 3] ∧
        payload.bytes ≠ body (answered 200 [[9]]) :=
  ⟨⟨[9, 2, 3], 1⟩, rfl, rfl, by decide⟩

end OlpEdgeSdk.Analysis.RetriedDownloads
