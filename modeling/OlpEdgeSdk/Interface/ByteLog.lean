import OlpEdgeSdk.Base.Fifo
import OlpEdgeSdk.Model.NetworkStreamBuf

/-!
# A log of bytes

What a stream buffer is for: bytes that are only ever appended, read at a position of their own.
`Serves` says which answers to the calls of a stream buffer a log allows. Whether a write is
taken is left open here; one that is not leaves the log as it is.
-/

set_option autoImplicit false

namespace OlpEdgeSdk.Interface

open OlpEdgeSdk.Base OlpEdgeSdk.Model NetworkStreamBuf

structure ByteLog where
  bytes : List UInt8
  pos : ℕ
  pos_le : pos ≤ bytes.length

namespace ByteLog

def empty : ByteLog := ⟨[], 0, Nat.le_refl 0⟩

def append (log : ByteLog) (chars : List UInt8) : ByteLog where
  bytes := log.bytes ++ chars
  pos := log.pos
  pos_le := by
    rw [List.length_append]
    exact Nat.le_add_right_of_le log.pos_le

/-- What is read at the position, at most so many bytes. -/
def upTo (log : ByteLog) (count : ℕ) : List UInt8 := (log.bytes.drop log.pos).take count

/-- The log after that. -/
def skip (log : ByteLog) (count : ℕ) : ByteLog where
  bytes := log.bytes
  pos := log.pos + (log.upTo count).length
  pos_le := by
    have hpos := log.pos_le
    rw [upTo, List.length_take, List.length_drop]
    omega

/-- The position that an offset stands for. -/
def target (log : ByteLog) (off : ℤ) : SeekDir → ℤ
  | .beg => off
  | .cur => log.pos + off
  | .end => log.bytes.length + off

end ByteLog

inductive StreamAnswer where
  | put (count : ℤ)
  | overflowed (ch : Option UInt8)
  | got (chars : List UInt8) (count : ℤ)
  | position (pos : ℤ)
  | set (result : Bool)

/-- The answer says that the characters offered were written. -/
def StreamAnswer.Wrote : StreamAnswer → Prop
  | .put count => 0 < count
  | .overflowed ch => ch.isSome = true
  | _ => False

instance StreamAnswer.decidableWrote : ∀ answer : StreamAnswer, Decidable answer.Wrote
  | .put count => inferInstanceAs (Decidable (0 < count))
  | .overflowed ch => inferInstanceAs (Decidable (ch.isSome = true))
  | .got _ _ | .position _ | .set _ => isFalse id

/-- The calls of a stream buffer; positions are asked for in the get area. -/
inductive StreamCall (Double : Type) where
  | xsputn (data : Offer)
  | overflow (ch : Option UInt8)
  | xsgetn (count : Streamsize)
  | seekoff (off : ℤ) (dir : SeekDir)
  | seekpos (pos : ℤ)
  | setMaxSize (newMaxSize : ℕ)
  | setDesiredSize (newDesiredSize : ℕ)
  | setSizeIncrement (newIncrement : ℕ)
  | setGrowFactor (newFactor : Double)

/-- The characters that a call offers. -/
def StreamCall.offer {Double : Type} : StreamCall Double → Option Offer
  | .xsputn data => some data
  | .overflow ch => ch.map Offer.one
  | _ => none

/-- A call of a stream buffer with its answer. -/
def callStream {Double : Type} [GrowFactor Double] (b : NetworkStreamBuf Double) :
    StreamCall Double → NetworkStreamBuf Double × StreamAnswer
  | .xsputn data => ((xsputn b data).1, .put (xsputn b data).2)
  | .overflow ch => ((overflow b ch).1, .overflowed (overflow b ch).2)
  | .xsgetn count => ((xsgetn b count).1, .got (xsgetn b count).2.1 (xsgetn b count).2.2)
  | .seekoff off dir =>
    ((seekoff b off dir ⟨true, false⟩).1, .position (seekoff b off dir ⟨true, false⟩).2)
  | .seekpos pos => ((seekpos b pos ⟨true, false⟩).1, .position (seekpos b pos ⟨true, false⟩).2)
  | .setMaxSize n => ((setMaxSize b n).1, .set (setMaxSize b n).2)
  | .setDesiredSize n => ((setDesiredSize b n).1, .set (setDesiredSize b n).2)
  | .setSizeIncrement n => ((setSizeIncrement b n).1, .set (setSizeIncrement b n).2)
  | .setGrowFactor f => ((setGrowFactor b f).1, .set (setGrowFactor b f).2)

namespace ByteLog

def offer (log : ByteLog) (data : Offer) (ok : Bool) : ByteLog :=
  if 0 < data.count ∧ ok = true then log.append data.chars else log

def seekTo (log : ByteLog) (pos : ℤ) : ByteLog × StreamAnswer :=
  if h : 0 ≤ pos ∧ pos ≤ log.bytes.length then
    (⟨log.bytes, pos.toNat, by omega⟩, .position pos)
  else (log, .position (-1))

/-- What a log answers to a call, and what it is afterwards. `ok` says whether a write is taken
and whether a setting is accepted. -/
def call {Double : Type} (log : ByteLog) (c : StreamCall Double) (ok : Bool) :
    ByteLog × StreamAnswer :=
  match c with
  | .xsputn data =>
    (log.offer data ok, .put (if data.count ≤ 0 then 0 else if ok then data.count else -1))
  | .overflow none => (log, .overflowed none)
  | .overflow (some ch) =>
    (log.offer (.one ch) ok, .overflowed (if ok then some ch else none))
  | .xsgetn count =>
    if count.1 ≤ 0 then (log, .got [] 0)
    else (log.skip count.1.toNat, .got (log.upTo count.1.toNat)
      (if log.upTo count.1.toNat = [] then -1 else ((log.upTo count.1.toNat).length : ℤ)))
  | .seekoff off dir => log.seekTo (log.target off dir)
  | .seekpos pos => log.seekTo pos
  | .setMaxSize _ | .setDesiredSize _ | .setSizeIncrement _ | .setGrowFactor _ => (log, .set ok)

/-- A log allows an answer. -/
def Serves {Double : Type} (log : ByteLog) (c : StreamCall Double) (answer : StreamAnswer)
    (log' : ByteLog) : Prop :=
  ∃ ok, log.call c ok = (log', answer)

end ByteLog

/-- The bytes that a call has written, by its answer. -/
def writtenBy {Double : Type} (c : StreamCall Double) (answer : StreamAnswer) : List UInt8 :=
  match c, answer with
  | .xsputn data, .put count => if 0 < count then data.chars else []
  | .overflow (some ch), .overflowed (some _) => [ch]
  | _, _ => []

/-- **The log is what was written to it.** -/
theorem ByteLog.Serves.bytes_eq {Double : Type} {log log' : ByteLog} {c : StreamCall Double}
    {answer : StreamAnswer} (h : log.Serves c answer log') :
    log'.bytes = log.bytes ++ writtenBy c answer := by
  obtain ⟨ok, h⟩ := h
  cases c with
  | xsputn data =>
    cases h
    rw [offer, writtenBy]
    by_cases hcount : 0 < data.count
    · cases ok <;> simp [hcount, append, Int.not_le.mpr hcount]
    · simp [hcount, Int.not_lt.mp hcount]
  | overflow ch =>
    cases ch with
    | none =>
      cases h
      simp [writtenBy]
    | some ch =>
      cases h
      cases ok <;> simp [offer, writtenBy, append, Offer.one]
  | xsgetn count =>
    rw [call] at h
    split at h
    · cases h
      simp [writtenBy]
    · cases h
      simp [writtenBy, skip]
  | seekoff off dir =>
    rw [call, seekTo] at h
    split at h
    · cases h
      simp [writtenBy]
    · cases h
      simp [writtenBy]
  | seekpos pos =>
    rw [call, seekTo] at h
    split at h
    · cases h
      simp [writtenBy]
    · cases h
      simp [writtenBy]
  | setMaxSize | setDesiredSize | setSizeIncrement | setGrowFactor =>
    cases h
    simp [writtenBy]

theorem bytes_of_allows {Double : Type} {log log' : ByteLog} {calls : List (StreamCall Double)}
    {answers : List StreamAnswer} (h : Allows ByteLog.Serves log calls answers log') :
    log'.bytes = log.bytes ++ (List.zipWith writtenBy calls answers).flatten := by
  induction h with
  | nil log => simp
  | cons hcall hcalls ih =>
    rw [ih, hcall.bytes_eq, List.zipWith_cons_cons, List.flatten_cons, List.append_assoc]

end OlpEdgeSdk.Interface
