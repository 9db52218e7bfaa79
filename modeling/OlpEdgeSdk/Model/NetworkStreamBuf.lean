import Mathlib.Algebra.Order.Ring.Int

/-!
# The stream buffer of the network layer

Writes are appended to a storage that grows in steps; a get area over the storage is read and
positioned. The storage is a string or a vector: `reserve` gives it the capacity that is asked
for, or leaves it with a greater one, and a new one has a small capacity of its own. Pointers
into it are offsets from its beginning.

The factor of growth is a `double`. What the buffer does with it is a parameter: the comparison
`1. >= factor`, and the product with a size, converted back to a size of 64 bits.

SOURCE: NetworkStreamBuf.h, NetworkStreamBuf_inl.h
-/

set_option autoImplicit false

namespace OlpEdgeSdk.Model

class GrowFactor (Double : Type) where
  zero : Double
  oneGe : Double → Bool
  times : ℕ → Double → ℕ

namespace NetworkStreamBuf

/-- The constant `MAX_SIZE`.
SOURCE: NetworkStreamBuf.h:77 -/
def maxSizeLimit : ℕ := 2147483647

/-- The constant `MAX_INCR`.
SOURCE: NetworkStreamBuf.h:78 -/
def maxIncrLimit : ℕ := 10 * 1024 * 1024

/-- The capacity of a storage that nothing has been reserved in. -/
abbrev StartCapacity : Type := { n : ℕ // n ≤ maxSizeLimit }

/-- SOURCE: NetworkStreamBuf.h:67 -/
abbrev Streamsize : Type := { n : ℤ // n < 2 ^ 63 }

/-- The characters that a caller offers, with the `streamsize` of the call. -/
structure Offer where
  count : ℤ
  chars : List UInt8
  length_eq : chars.length = count.toNat
  count_lt : count < 2 ^ 63

/-- The offer of one character. -/
def Offer.one (ch : UInt8) : Offer := ⟨1, [ch], rfl, by decide⟩

@[simp] theorem Offer.count_one (ch : UInt8) : (Offer.one ch).count = 1 := rfl

inductive SeekDir where
  | beg
  | cur
  | end
deriving DecidableEq, Repr

/-- The areas that a position is for. -/
structure OpenMode where
  in_ : Bool
  out : Bool
deriving DecidableEq, Repr

end NetworkStreamBuf

/-- `gOff` and `gEnd` are where the get area is read and where it ends.
SOURCE: NetworkStreamBuf.h:356-381 -/
structure NetworkStreamBuf (Double : Type) where
  maxSize : ℕ
  desiredSize : ℕ
  incr : ℕ
  growFactor : Double
  storage : List UInt8
  capacity : ℕ
  storageOff : ℤ
  storageAvl : ℤ
  gOff : ℤ
  gEnd : ℤ

namespace NetworkStreamBuf

variable {Double : Type} [GrowFactor Double]

/-- `size_type` has 64 bits. -/
def sizeType (n : ℤ) : ℕ := (n % 2 ^ 64).toNat

/-- SOURCE: NetworkStreamBuf_inl.h:243-247 -/
def storagegSync (b : NetworkStreamBuf Double) (off : ℤ) : NetworkStreamBuf Double :=
  { b with gOff := off, gEnd := b.storageOff }

/-- SOURCE: NetworkStreamBuf_inl.h:249-254 -/
def storageReserve (b : NetworkStreamBuf Double) (size : ℕ) : NetworkStreamBuf Double :=
  let capacity := if size ≠ 0 then max size b.capacity else b.capacity
  storagegSync { b with capacity := capacity, storageAvl := capacity - b.storageOff } b.gOff

/-- A new buffer, before its settings are used.
SOURCE: NetworkStreamBuf_inl.h:42-47 -/
def init (start : StartCapacity) (sizeHint maxSize incr : ℕ) (growFactor : Double) :
    NetworkStreamBuf Double :=
  storageReserve
    { maxSize := maxSize
      desiredSize := min sizeHint maxSize
      incr := incr
      growFactor := growFactor
      storage := []
      capacity := start
      storageOff := 0
      storageAvl := -1
      gOff := 0
      gEnd := 0 } 0

/-- SOURCE: NetworkStreamBuf_inl.h:49-58 -/
def ofIncrement (start : StartCapacity) (sizeHint incr maxSize : ℕ) : NetworkStreamBuf Double :=
  init start sizeHint (min maxSize maxSizeLimit) (min incr maxIncrLimit) GrowFactor.zero

/-- SOURCE: NetworkStreamBuf_inl.h:60-68 -/
def ofFactor (start : StartCapacity) (sizeHint : ℕ) (factor : Double) (maxSize : ℕ) :
    NetworkStreamBuf Double :=
  init start sizeHint (min maxSize maxSizeLimit) 0 factor

/-- SOURCE: NetworkStreamBuf_inl.h:123-128 -/
def setDesiredSize (b : NetworkStreamBuf Double) (newDesiredSize : ℕ) :
    NetworkStreamBuf Double × Bool :=
  if b.maxSize < newDesiredSize then (b, false)
  else ({ b with desiredSize := newDesiredSize }, true)

/-- SOURCE: NetworkStreamBuf_inl.h:130-136 -/
def setSizeIncrement (b : NetworkStreamBuf Double) (newIncrement : ℕ) :
    NetworkStreamBuf Double × Bool :=
  if maxIncrLimit < newIncrement then (b, false)
  else ({ b with incr := newIncrement, growFactor := GrowFactor.zero }, true)

/-- SOURCE: NetworkStreamBuf_inl.h:138-144 -/
def setGrowFactor (b : NetworkStreamBuf Double) (newFactor : Double) :
    NetworkStreamBuf Double × Bool :=
  if GrowFactor.oneGe newFactor then (b, false)
  else ({ b with growFactor := newFactor, incr := 0 }, true)

/-- SOURCE: NetworkStreamBuf_inl.h:146-151 -/
def setMaxSize (b : NetworkStreamBuf Double) (newMaxSize : ℕ) : NetworkStreamBuf Double × Bool :=
  if maxSizeLimit < newMaxSize then (b, false) else ({ b with maxSize := newMaxSize }, true)

/-- The sum, and whether it overflowed.
SOURCE: NetworkStreamBuf_inl.h:226-232 -/
def checkOverflow (cur incr : ℕ) : ℕ × Bool :=
  let result := (cur + incr) % 2 ^ 64
  (result, decide (result < cur))

/-- The product, and whether it is smaller than the factor.
SOURCE: NetworkStreamBuf_inl.h:234-240 -/
def checkOverflowFactor (cur : ℕ) (factor : Double) : ℕ × Bool :=
  let result := GrowFactor.times cur factor % 2 ^ 64
  (result, decide (result < cur))

/-- One increment or factor more than there is, or 0 if that overflows.
SOURCE: NetworkStreamBuf_inl.h:267-271 -/
def nextSize (b : NetworkStreamBuf Double) (curSize : ℕ) : ℕ :=
  let (newSize, overflow) :=
    if b.incr ≠ 0 then checkOverflow curSize b.incr else checkOverflowFactor curSize b.growFactor
  if overflow then 0 else newSize

/-- The size to reserve for at least `reqSize`.
SOURCE: NetworkStreamBuf_inl.h:272 -/
def grownSize (b : NetworkStreamBuf Double) (curSize reqSize : ℕ) : ℕ :=
  let newSize := nextSize b curSize
  if b.maxSize < newSize || newSize < reqSize then reqSize else newSize

/-- SOURCE: NetworkStreamBuf_inl.h:256-276 -/
def storageGrow (b : NetworkStreamBuf Double) (size : ℕ) (absolute : Bool) :
    Option (NetworkStreamBuf Double) :=
  let curSize := sizeType (b.storageOff + b.storageAvl)
  if absolute then
    if b.maxSize < size || size ≤ curSize then none else some (storageReserve b size)
  else
    let (reqSize, overflow) := checkOverflow curSize size
    if overflow || b.maxSize < reqSize then none
    else some (storageReserve b (grownSize b curSize reqSize))

/-- The storage grows by itself where it has to.
SOURCE: NetworkStreamBuf_inl.h:278-283, 331-339 -/
def storageAppend (b : NetworkStreamBuf Double) (chars : List UInt8) : NetworkStreamBuf Double :=
  { b with
    storage := b.storage ++ chars, capacity := max b.capacity (b.storage.length + chars.length) }

/-- SOURCE: NetworkStreamBuf_inl.h:323-326 -/
def updateGetArea (b : NetworkStreamBuf Double) (off : ℤ) : NetworkStreamBuf Double :=
  { b with gOff := off, gEnd := b.storageOff }

/-- The first write makes room for the desired size, if it is smaller.
SOURCE: NetworkStreamBuf_inl.h:158-163 -/
def growDesired (b : NetworkStreamBuf Double) (count : ℤ) : Option (NetworkStreamBuf Double) :=
  if b.storageOff = 0 ∧ sizeType b.storageAvl < b.desiredSize ∧
      sizeType count < b.desiredSize then
    storageGrow b b.desiredSize true
  else some b

/-- SOURCE: NetworkStreamBuf_inl.h:164-166 -/
def growCount (b : NetworkStreamBuf Double) (count : ℤ) : Option (NetworkStreamBuf Double) :=
  if b.storageAvl < count then storageGrow b (sizeType (count - b.storageAvl)) false else some b

/-- What the call returns is the count, or -1 for `eof`.
SOURCE: NetworkStreamBuf_inl.h:155-172 -/
def xsputn (b : NetworkStreamBuf Double) (data : Offer) : NetworkStreamBuf Double × ℤ :=
  if data.count ≤ 0 then (b, 0)
  else
    match growDesired b data.count with
    | none => (b, -1)
    | some b' =>
      match growCount b' data.count with
      | none => (b', -1)
      | some b' =>
        let b' := storageAppend b' data.chars
        let b' := { b' with
          storageAvl := b'.storageAvl - data.count, storageOff := b'.storageOff + data.count }
        (updateGetArea b' b'.gOff, data.count)

/-- The character, or none for `eof`.
SOURCE: NetworkStreamBuf_inl.h:174-183 -/
def overflow (b : NetworkStreamBuf Double) (ch : Option UInt8) :
    NetworkStreamBuf Double × Option UInt8 :=
  match ch with
  | none => (b, none)
  | some ch =>
    let (b, written) := xsputn b (.one ch)
    (b, if written = 1 then some ch else none)

/-- What is copied to the buffer of the caller, and what the call returns.
SOURCE: NetworkStreamBuf_inl.h:187-196 -/
def xsgetn (b : NetworkStreamBuf Double) (count : Streamsize) :
    NetworkStreamBuf Double × List UInt8 × ℤ :=
  if count.1 ≤ 0 then (b, [], 0)
  else
    let count := min (sizeType count) (sizeType (b.gEnd - b.gOff))
    if count = 0 then (b, [], -1)
    else ({ b with gOff := b.gOff + count }, (b.storage.drop b.gOff.toNat).take count, count)

/-- SOURCE: NetworkStreamBuf_inl.h:288-294 -/
def seekpOffset (b : NetworkStreamBuf Double) (off : ℤ) : SeekDir → ℤ
  | .beg => off
  | .cur => b.storageOff + off
  | .end => b.storageOff + b.storageAvl + off

/-- SOURCE: NetworkStreamBuf_inl.h:314-320 -/
def seekgOffset (b : NetworkStreamBuf Double) (off : ℤ) : SeekDir → ℤ
  | .beg => off
  | .cur => b.gOff + off
  | .end => b.storageOff + off

/-- SOURCE: NetworkStreamBuf_inl.h:200-217 -/
def seekoff (b : NetworkStreamBuf Double) (off : ℤ) (dir : SeekDir) (which : OpenMode) :
    NetworkStreamBuf Double × ℤ :=
  if which.out then
    let newOff := seekpOffset b off dir
    (b, if newOff = b.storageOff then newOff else -1)
  else if which.in_ then
    let newOff := seekgOffset b off dir
    if 0 ≤ newOff ∧ newOff ≤ b.storageOff then (updateGetArea b newOff, newOff) else (b, -1)
  else (b, -1)

/-- SOURCE: NetworkStreamBuf_inl.h:219-223 -/
def seekpos (b : NetworkStreamBuf Double) (pos : ℤ) (which : OpenMode) :
    NetworkStreamBuf Double × ℤ :=
  seekoff b pos .beg which

end NetworkStreamBuf

end OlpEdgeSdk.Model
