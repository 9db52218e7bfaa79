import OlpEdgeSdk.Interface.ByteLog

/-!
# The stream buffer is a log of bytes

Whatever its settings are and however they are changed, the buffer holds what was written to it,
and reads from the position that it is at. Its size is limited by the maximum or by the capacity
there already is. The desired size stands in the way of a first write if the maximum has been
lowered below it: then the storage cannot be made that large, and the write is refused although
it would fit.
-/

set_option autoImplicit false

namespace OlpEdgeSdk.Analysis.StreamBuf

open OlpEdgeSdk.Base OlpEdgeSdk.Interface OlpEdgeSdk.Model NetworkStreamBuf

variable {Double : Type} {b : NetworkStreamBuf Double} {log : ByteLog}

/-- The buffer has the bytes of a log and its position, in a storage with room for them. -/
structure Represents (b : NetworkStreamBuf Double) (log : ByteLog) : Prop where
  storage_eq : b.storage = log.bytes
  storageOff_eq : b.storageOff = log.bytes.length
  capacity_eq : b.storageOff + b.storageAvl = b.capacity
  gOff_eq : b.gOff = log.pos
  gEnd_eq : b.gEnd = log.bytes.length
  length_le : log.bytes.length ≤ b.capacity
  capacity_le : b.capacity ≤ maxSizeLimit
  maxSize_le : b.maxSize ≤ maxSizeLimit

/-- A first write finds a desired size that the capacity does not reach and the maximum does not
allow. -/
def HeldBack (b : NetworkStreamBuf Double) (data : Offer) : Prop :=
  b.storageOff = 0 ∧ b.capacity < b.desiredSize ∧ data.count < b.desiredSize ∧
    b.maxSize < b.desiredSize

instance decidableHeldBack (b : NetworkStreamBuf Double) (data : Offer) :
    Decidable (HeldBack b data) :=
  inferInstanceAs (Decidable (_ ∧ _ ∧ _ ∧ _))

theorem sizeType_of_lt {n : ℤ} (hlow : 0 ≤ n) (hhigh : n < 2 ^ 64) : sizeType n = n.toNat := by
  rw [sizeType, Int.emod_eq_of_lt hlow hhigh]

/-! ## Growing -/

theorem Represents.reserve (h : Represents b log) (size : ℕ) (hsize : size ≤ maxSizeLimit) :
    Represents (storageReserve b size) log ∧
      (storageReserve b size).capacity = max size b.capacity := by
  have hcapacity : (if size ≠ 0 then max size b.capacity else b.capacity) =
      max size b.capacity := by
    split
    · rfl
    · omega
  have hlength := h.length_le
  have hle := h.capacity_le
  have hoff := h.storageOff_eq
  simp only [storageReserve, hcapacity, storagegSync, and_true]
  refine ⟨h.storage_eq, hoff, ?_, h.gOff_eq, hoff, ?_, ?_, h.maxSize_le⟩
  · simp only
    omega
  · simp only
    omega
  · simp only
    omega

theorem Represents.curSize_eq (h : Represents b log) :
    sizeType (b.storageOff + b.storageAvl) = b.capacity := by
  have hle := h.capacity_le
  rw [maxSizeLimit] at hle
  rw [h.capacity_eq, sizeType_of_lt (by omega) (by omega), Int.toNat_natCast]

theorem Represents.wantsDesired_iff (h : Represents b log) {data : Offer}
    (hcount : 0 < data.count) :
    (b.storageOff = 0 ∧ sizeType b.storageAvl < b.desiredSize ∧
      sizeType data.count < b.desiredSize) ↔
      b.storageOff = 0 ∧ b.capacity < b.desiredSize ∧ data.count < b.desiredSize := by
  have hle := h.capacity_le
  have hcapacity := h.capacity_eq
  have hlt := data.count_lt
  rw [maxSizeLimit] at hle
  refine and_congr_right fun hoff => ?_
  rw [sizeType_of_lt (by omega) (by omega), sizeType_of_lt (by omega) (by omega)]
  omega

/-- What a write does once there is room. -/
theorem Represents.append (h : Represents b log) {data : Offer} (hcount : 0 < data.count)
    (hroom : b.storageOff + data.count ≤ b.capacity) :
    Represents (updateGetArea { storageAppend b data.chars with
      storageAvl := b.storageAvl - data.count, storageOff := b.storageOff + data.count } b.gOff)
      (log.append data.chars) := by
  have hcapacity := h.capacity_eq
  have hoff := h.storageOff_eq
  have hlength : (data.chars.length : ℤ) = data.count := by
    rw [data.length_eq]
    omega
  have hkept : max b.capacity (b.storage.length + data.chars.length) = b.capacity := by
    rw [h.storage_eq]
    omega
  have hmore : (b.storageOff + data.count : ℤ) = (log.bytes ++ data.chars).length := by
    rw [List.length_append]
    omega
  refine ⟨?_, hmore, ?_, h.gOff_eq, hmore, ?_, ?_, h.maxSize_le⟩
  · simp only [updateGetArea, storageAppend, ByteLog.append, h.storage_eq]
  · simp only [updateGetArea, storageAppend, hkept]
    omega
  · simp only [updateGetArea, storageAppend, hkept, ByteLog.append]
    omega
  · simp only [updateGetArea, storageAppend, hkept]
    exact h.capacity_le

variable [GrowFactor Double]

theorem growDesired_of_heldBack (h : Represents b log) {data : Offer} (hcount : 0 < data.count)
    (hheld : HeldBack b data) : growDesired b data.count = none := by
  obtain ⟨hoff, hcapacity, hlt, hmax⟩ := hheld
  rw [growDesired, if_pos ((h.wantsDesired_iff hcount).mpr ⟨hoff, hcapacity, hlt⟩)]
  simp [storageGrow, hmax]

/-- **Making room for the desired size** succeeds if the maximum allows it. -/
theorem growDesired_of_not_heldBack (h : Represents b log) {data : Offer}
    (hcount : 0 < data.count) (hheld : ¬ HeldBack b data) :
    ∃ b', growDesired b data.count = some b' ∧ Represents b' log ∧ b'.maxSize = b.maxSize ∧
      b.capacity ≤ b'.capacity ∧ b'.capacity ≤ max b.maxSize b.capacity := by
  have hmax := h.maxSize_le
  by_cases hfirst : b.storageOff = 0 ∧ b.capacity < b.desiredSize ∧ data.count < b.desiredSize
  · have hallowed : ¬ b.maxSize < b.desiredSize :=
      fun hlow => hheld ⟨hfirst.1, hfirst.2.1, hfirst.2.2, hlow⟩
    have hmore : ¬ b.desiredSize ≤ b.capacity := not_le.mpr hfirst.2.1
    obtain ⟨hreserve, hreserved⟩ := h.reserve b.desiredSize (by omega)
    rw [growDesired, if_pos ((h.wantsDesired_iff hcount).mpr hfirst)]
    simp only [storageGrow, h.curSize_eq, hallowed, hmore, decide_false, Bool.or_false, if_true,
      Bool.false_eq_true, if_false]
    exact ⟨_, rfl, hreserve, rfl, by omega, by omega⟩
  · rw [growDesired, if_neg fun hwants => hfirst ((h.wantsDesired_iff hcount).mp hwants)]
    exact ⟨b, rfl, h, rfl, le_rfl, le_max_right _ _⟩

/-- The size that is reserved is as large as required and no larger than allowed. -/
theorem grownSize_bounds (b : NetworkStreamBuf Double) (curSize : ℕ) {reqSize : ℕ}
    (hreq : reqSize ≤ b.maxSize) :
    reqSize ≤ grownSize b curSize reqSize ∧ grownSize b curSize reqSize ≤ b.maxSize := by
  simp only [grownSize]
  split
  · exact ⟨le_rfl, hreq⟩
  · next hsize =>
    rw [Bool.or_eq_true, decide_eq_true_eq, decide_eq_true_eq] at hsize
    omega

/-- **Making room for the characters** fails exactly if the maximum does not allow them and they
do not fit as it is. -/
theorem growCount_of_le (h : Represents b log) {data : Offer} (hcount : 0 < data.count)
    (hroom : b.storageOff + data.count ≤ max b.maxSize b.capacity) :
    ∃ b', growCount b data.count = some b' ∧ Represents b' log ∧
      b.storageOff + data.count ≤ b'.capacity := by
  have hcapacity := h.capacity_eq
  have hle := h.capacity_le
  have hlength := h.length_le
  have hoff := h.storageOff_eq
  have hmax := h.maxSize_le
  have hlt := data.count_lt
  rw [maxSizeLimit] at hle hmax
  rw [growCount]
  by_cases hshort : b.storageAvl < data.count
  · have hsize : sizeType (data.count - b.storageAvl) = (data.count - b.storageAvl).toNat :=
      sizeType_of_lt (by omega) (by omega)
    have hreq : (b.capacity + (data.count - b.storageAvl).toNat) % 2 ^ 64 =
        (b.storageOff + data.count).toNat := by
      omega
    have hallowed : (b.storageOff + data.count).toNat ≤ b.maxSize := by omega
    have hcarry : ¬ (b.storageOff + data.count).toNat < b.capacity := by omega
    obtain ⟨hlow, hhigh⟩ := grownSize_bounds b b.capacity hallowed
    obtain ⟨hreserve, hreserved⟩ :=
      h.reserve (grownSize b b.capacity (b.storageOff + data.count).toNat)
        (by rw [maxSizeLimit]; omega)
    simp only [if_pos hshort, storageGrow, Bool.false_eq_true, if_false, h.curSize_eq, hsize,
      checkOverflow, hreq, hcarry, not_lt.mpr hallowed, decide_false, Bool.or_false]
    exact ⟨_, rfl, hreserve, by omega⟩
  · rw [if_neg hshort]
    exact ⟨b, rfl, h, by omega⟩

theorem growCount_of_lt (h : Represents b log) {data : Offer} (hcount : 0 < data.count)
    (hroom : max b.maxSize b.capacity < b.storageOff + data.count) :
    growCount b data.count = none := by
  have hcapacity := h.capacity_eq
  have hle := h.capacity_le
  have hlength := h.length_le
  have hoff := h.storageOff_eq
  have hlt := data.count_lt
  rw [maxSizeLimit] at hle
  have hsize : sizeType (data.count - b.storageAvl) = (data.count - b.storageAvl).toNat :=
    sizeType_of_lt (by omega) (by omega)
  have hreq : (b.capacity + (data.count - b.storageAvl).toNat) % 2 ^ 64 =
      (b.storageOff + data.count).toNat := by
    omega
  have hrefused : b.maxSize < (b.storageOff + data.count).toNat := by omega
  rw [growCount, if_pos (by omega)]
  simp only [storageGrow, Bool.false_eq_true, if_false, h.curSize_eq, hsize, checkOverflow, hreq,
    hrefused, decide_true, Bool.or_true, if_true]

/-! ## Writing -/

/-- A write is taken if there is room for it and the desired size does not stand in its way. -/
def Taken (b : NetworkStreamBuf Double) (data : Offer) : Prop :=
  ¬ HeldBack b data ∧ b.storageOff + data.count ≤ max b.maxSize b.capacity

instance decidableTaken (b : NetworkStreamBuf Double) (data : Offer) : Decidable (Taken b data) :=
  inferInstanceAs (Decidable (_ ∧ _))

/-- **A write** appends the characters that it offers, or fails and leaves the bytes and the
position alone. -/
theorem xsputn_spec (h : Represents b log) (data : Offer) (hcount : 0 < data.count) :
    (xsputn b data).2 = (if Taken b data then data.count else -1) ∧
      Represents (xsputn b data).1 (log.offer data (decide (Taken b data))) := by
  rw [xsputn, if_neg (by omega), ByteLog.offer]
  by_cases hheld : HeldBack b data
  · have hrefused : ¬ Taken b data := fun htaken => htaken.1 hheld
    simp only [growDesired_of_heldBack h hcount hheld, hrefused, decide_false,
      Bool.false_eq_true, and_false, if_false, true_and]
    exact h
  · obtain ⟨b₁, hgrown, h₁, hmax, hmore, hless⟩ := growDesired_of_not_heldBack h hcount hheld
    have hoff : b₁.storageOff = b.storageOff := by rw [h₁.storageOff_eq, h.storageOff_eq]
    rw [hgrown]
    by_cases hroom : b.storageOff + data.count ≤ max b.maxSize b.capacity
    · have htaken : Taken b data := ⟨hheld, hroom⟩
      obtain ⟨b₂, hgrown₂, h₂, hfits⟩ := growCount_of_le h₁ hcount (by omega)
      have hoff₂ : b₂.storageOff = b.storageOff := by rw [h₂.storageOff_eq, h.storageOff_eq]
      simp only [hgrown₂, htaken, decide_true, hcount, and_true, if_true, true_and]
      exact h₂.append hcount (by omega)
    · have hrefused : ¬ Taken b data := fun htaken => hroom htaken.2
      simp only [growCount_of_lt h₁ hcount (by omega), hrefused, decide_false,
        Bool.false_eq_true, and_false, if_false, true_and]
      exact h₁

theorem overflow_spec (h : Represents b log) (ch : UInt8) :
    (overflow b (some ch)).2 = (if Taken b (.one ch) then some ch else none) ∧
      Represents (overflow b (some ch)).1 (log.offer (.one ch) (decide (Taken b (.one ch)))) := by
  obtain ⟨hwritten, hrepresents⟩ := xsputn_spec h (.one ch) (by simp)
  refine ⟨?_, hrepresents⟩
  simp only [overflow, hwritten, Offer.count_one]
  by_cases htaken : Taken b (.one ch)
  · simp only [htaken, if_true]
  · simp only [htaken, if_false]
    rfl

/-! ## Reading and positioning -/

omit [GrowFactor Double] in
theorem xsgetn_spec (h : Represents b log) {count : Streamsize} (hcount : 0 < count.1) :
    (xsgetn b count).2 = (log.upTo count.1.toNat,
        if log.upTo count.1.toNat = [] then -1 else ((log.upTo count.1.toNat).length : ℤ)) ∧
      Represents (xsgetn b count).1 (log.skip count.1.toNat) := by
  obtain ⟨count, hlt⟩ := count
  have hpos := log.pos_le
  have hlength := h.length_le
  have hle := h.capacity_le
  have hgOff := h.gOff_eq
  have hgEnd := h.gEnd_eq
  simp only at hcount
  rw [maxSizeLimit] at hle
  have htaken : (log.upTo count.toNat).length =
      min (sizeType count) (sizeType (b.gEnd - b.gOff)) := by
    rw [ByteLog.upTo, List.length_take, List.length_drop, sizeType_of_lt (by omega) (by omega),
      sizeType_of_lt (by omega) (by omega)]
    omega
  have hbytes : (b.storage.drop b.gOff.toNat).take (log.upTo count.toNat).length =
      log.upTo count.toNat := by
    rw [h.storage_eq, hgOff, Int.toNat_natCast, ByteLog.upTo, List.length_take,
      ← List.take_eq_take_min]
  rw [xsgetn, if_neg (by simp only; omega)]
  simp only [← htaken]
  by_cases hnone : log.upTo count.toNat = []
  · have hskip : log.skip count.toNat = log := by
      simp [ByteLog.skip, hnone]
    rw [hskip, hnone, List.length_nil, if_pos rfl, if_pos rfl]
    exact ⟨rfl, h⟩
  · have hsome : ¬ (log.upTo count.toNat).length = 0 := fun hzero =>
      hnone (List.length_eq_zero_iff.mp hzero)
    rw [if_neg hsome, if_neg hnone, hbytes]
    refine ⟨rfl, h.storage_eq, h.storageOff_eq, h.capacity_eq, ?_, hgEnd, hlength, h.capacity_le,
      h.maxSize_le⟩
    simp only [ByteLog.skip, hgOff, Int.natCast_add]

omit [GrowFactor Double] in
theorem seekoff_spec (h : Represents b log) (off : ℤ) (dir : SeekDir) :
    StreamAnswer.position (seekoff b off dir ⟨true, false⟩).2 =
        (log.seekTo (log.target off dir)).2 ∧
      Represents (seekoff b off dir ⟨true, false⟩).1 (log.seekTo (log.target off dir)).1 := by
  have htarget : seekgOffset b off dir = log.target off dir := by
    cases dir with
    | beg => rfl
    | cur => rw [seekgOffset, ByteLog.target, h.gOff_eq]
    | «end» => rw [seekgOffset, ByteLog.target, h.storageOff_eq]
  have hoff := h.storageOff_eq
  simp only [seekoff, Bool.false_eq_true, if_false, if_true, htarget, hoff, ByteLog.seekTo]
  by_cases hinside : 0 ≤ log.target off dir ∧ log.target off dir ≤ log.bytes.length
  · simp only [hinside, and_self, if_true, dif_pos, true_and]
    refine ⟨h.storage_eq, hoff, h.capacity_eq, ?_, hoff, h.length_le, h.capacity_le, h.maxSize_le⟩
    exact (Int.toNat_of_nonneg hinside.1).symm
  · simp only [hinside, if_false, dif_neg, not_false_eq_true, true_and]
    exact h

/-! ## Runs -/

/-- **Every call** is answered as a log answers it. -/
theorem represents_call (b : NetworkStreamBuf Double) (log : ByteLog) (c : StreamCall Double)
    (h : Represents b log) :
    ∃ log', log.Serves c (callStream b c).2 log' ∧ Represents (callStream b c).1 log' := by
  cases c with
  | xsputn data =>
    by_cases hcount : 0 < data.count
    · obtain ⟨hwritten, hrepresents⟩ := xsputn_spec h _ hcount
      refine ⟨_, ⟨decide (Taken b data), ?_⟩, hrepresents⟩
      simp only [callStream, ByteLog.call, hwritten, if_neg (Int.not_le.mpr hcount),
        decide_eq_true_eq]
    · refine ⟨log, ⟨false, ?_⟩, ?_⟩
      · simp [callStream, ByteLog.call, ByteLog.offer, xsputn, Int.not_lt.mp hcount]
      · rw [callStream, xsputn, if_pos (Int.not_lt.mp hcount)]
        exact h
  | overflow ch =>
    cases ch with
    | none => exact ⟨log, ⟨false, rfl⟩, h⟩
    | some ch =>
      obtain ⟨hwritten, hrepresents⟩ := overflow_spec h ch
      refine ⟨_, ⟨decide (Taken b (.one ch)), ?_⟩, hrepresents⟩
      simp only [callStream, ByteLog.call, hwritten, decide_eq_true_eq]
  | xsgetn count =>
    by_cases hcount : 0 < count.1
    · obtain ⟨hread, hrepresents⟩ := xsgetn_spec h hcount
      refine ⟨_, ⟨false, ?_⟩, hrepresents⟩
      simp only [callStream, ByteLog.call, hread, if_neg (Int.not_le.mpr hcount)]
    · refine ⟨log, ⟨false, ?_⟩, ?_⟩
      · simp [callStream, ByteLog.call, xsgetn, Int.not_lt.mp hcount]
      · rw [callStream, xsgetn, if_pos (Int.not_lt.mp hcount)]
        exact h
  | seekoff off dir =>
    obtain ⟨hposition, hrepresents⟩ := seekoff_spec h off dir
    exact ⟨_, ⟨false, Prod.ext rfl hposition.symm⟩, hrepresents⟩
  | seekpos pos =>
    obtain ⟨hposition, hrepresents⟩ := seekoff_spec h pos .beg
    exact ⟨_, ⟨false, Prod.ext rfl hposition.symm⟩, hrepresents⟩
  | setMaxSize n =>
    refine ⟨log, ⟨_, rfl⟩, ?_⟩
    simp only [callStream, setMaxSize]
    split
    · exact h
    · next hallowed => exact { h with maxSize_le := Nat.not_lt.mp hallowed }
  | setDesiredSize n =>
    refine ⟨log, ⟨_, rfl⟩, ?_⟩
    simp only [callStream, setDesiredSize]
    split
    · exact h
    · exact { h with }
  | setSizeIncrement n =>
    refine ⟨log, ⟨_, rfl⟩, ?_⟩
    simp only [callStream, setSizeIncrement]
    split
    · exact h
    · exact { h with }
  | setGrowFactor f =>
    refine ⟨log, ⟨_, rfl⟩, ?_⟩
    simp only [callStream, setGrowFactor]
    split
    · exact h
    · exact { h with }

/-- A buffer that one of the constructors has made. -/
inductive Constructed : NetworkStreamBuf Double → Prop where
  | ofIncrement (start : StartCapacity) (sizeHint incr maxSize : ℕ) :
      Constructed (ofIncrement start sizeHint incr maxSize)
  | ofFactor (start : StartCapacity) (sizeHint : ℕ) (factor : Double) (maxSize : ℕ) :
      Constructed (ofFactor start sizeHint factor maxSize)

omit [GrowFactor Double] in
theorem represents_init (start : StartCapacity) (sizeHint incr : ℕ) (growFactor : Double)
    {maxSize : ℕ} (hmax : maxSize ≤ maxSizeLimit) :
    Represents (init start sizeHint maxSize incr growFactor) .empty where
  storage_eq := rfl
  storageOff_eq := rfl
  capacity_eq := by simp [init, storageReserve, storagegSync]
  gOff_eq := rfl
  gEnd_eq := rfl
  length_le := Nat.zero_le _
  capacity_le := start.2
  maxSize_le := hmax

theorem Constructed.represents (h : Constructed b) : Represents b .empty := by
  cases h with
  | ofIncrement start sizeHint incr maxSize =>
    exact represents_init start sizeHint _ _ (Nat.min_le_right _ _)
  | ofFactor start sizeHint factor maxSize =>
    exact represents_init start sizeHint _ _ (Nat.min_le_right _ _)

/-- A write succeeds exactly if the maximum or the capacity allows it, and leaves the bytes and
the position of the reader alone if it fails. -/
def WritesExactly (b : NetworkStreamBuf Double) (c : StreamCall Double) : Prop :=
  ∀ data ∈ c.offer, 0 < data.count →
    ((callStream b c).2.Wrote ↔ b.storageOff + data.count ≤ max b.maxSize b.capacity) ∧
    (¬ (callStream b c).2.Wrote →
      (callStream b c).1.storage = b.storage ∧ (callStream b c).1.gOff = b.gOff)

/-- A first write that there is room for does not find a desired size that is more than it needs
and has, and more than the maximum. -/
def NotHeldBack (b : NetworkStreamBuf Double) (c : StreamCall Double) : Prop :=
  ∀ data ∈ c.offer, 0 < data.count →
    b.storageOff + data.count ≤ max b.maxSize b.capacity → ¬ HeldBack b data

instance decidableNotHeldBack (b : NetworkStreamBuf Double) (c : StreamCall Double) :
    Decidable (NotHeldBack b c) :=
  inferInstanceAs (Decidable (∀ data ∈ c.offer, 0 < data.count →
    b.storageOff + data.count ≤ max b.maxSize b.capacity → ¬ HeldBack b data))

theorem wrote_iff_taken (h : Represents b log) {c : StreamCall Double} {data : Offer}
    (hoffer : c.offer = some data) (hcount : 0 < data.count) :
    ((callStream b c).2.Wrote ↔ Taken b data) ∧
      Represents (callStream b c).1 (log.offer data (decide (Taken b data))) := by
  cases c with
  | xsputn data' =>
    cases hoffer
    obtain ⟨hwritten, hrepresents⟩ := xsputn_spec h _ hcount
    refine ⟨?_, hrepresents⟩
    rw [callStream, StreamAnswer.Wrote, hwritten]
    by_cases htaken : Taken b data
    · simp [htaken, hcount]
    · simp [htaken]
  | overflow ch =>
    cases ch with
    | none => cases hoffer
    | some ch =>
      cases hoffer
      obtain ⟨hwritten, hrepresents⟩ := overflow_spec h ch
      refine ⟨?_, hrepresents⟩
      rw [callStream, StreamAnswer.Wrote, hwritten]
      by_cases htaken : Taken b (.one ch)
      · simp [htaken]
      · simp [htaken]
  | xsgetn | seekoff | seekpos | setMaxSize | setDesiredSize | setSizeIncrement
  | setGrowFactor => cases hoffer

theorem writesExactly_iff (h : Represents b log) (c : StreamCall Double) :
    WritesExactly b c ↔ NotHeldBack b c := by
  refine forall₃_congr fun data hoffer hcount => ?_
  obtain ⟨hwrote, hrepresents⟩ := wrote_iff_taken h hoffer hcount
  rw [hwrote, Taken]
  constructor
  · exact fun hexact hroom => (hexact.1.mpr hroom).1
  · intro hfree
    refine ⟨⟨And.right, fun hroom => ⟨hfree hroom, hroom⟩⟩, fun hrefused => ?_⟩
    have hkept : log.offer data (decide (Taken b data)) = log := by
      rw [ByteLog.offer, if_neg]
      rintro ⟨-, htaken⟩
      exact hrefused (of_decide_eq_true htaken)
    rw [hkept] at hrepresents
    exact ⟨hrepresents.storage_eq.trans h.storage_eq.symm,
      hrepresents.gOff_eq.trans h.gOff_eq.symm⟩

/-- **The stream buffer is a byte log.** After construction with any arguments and any list of
calls: the offset and the room that is left make up the capacity, the answers are those of a log
whose bytes are what was written, in order, and reads are from its position; and every write
succeeds exactly if the maximum or the capacity allows it, if and only if no first write that
there is room for finds the desired size above the maximum.
SOURCE: NetworkStreamBuf_inl.h:42-68, 123-222, 226-284 -/
theorem streamBuf_byteLog (h : Constructed b) (calls : List (StreamCall Double)) :
    (∃ log, Allows ByteLog.Serves .empty calls (answersOf callStream b calls).2 log ∧
      Represents (answersOf callStream b calls).1 log ∧
      (answersOf callStream b calls).1.storage =
        (List.zipWith writtenBy calls (answersOf callStream b calls).2).flatten) ∧
    (Along (fun b c => some (callStream b c).1) WritesExactly b calls ↔
      Along (fun b c => some (callStream b c).1) NotHeldBack b calls) := by
  constructor
  · obtain ⟨log, hallows, hrepresents⟩ := allows_of_simulation represents_call h.represents calls
    refine ⟨log, hallows, hrepresents, ?_⟩
    rw [hrepresents.storage_eq, bytes_of_allows hallows]
    rfl
  · have hkept : ∀ (b : NetworkStreamBuf Double) (c : StreamCall Double)
        (b' : NetworkStreamBuf Double), (∃ log, Represents b log) → True →
        some (callStream b c).1 = some b' → ∃ log, Represents b' log := by
      rintro b c _ ⟨log, hlog⟩ - ⟨⟩
      obtain ⟨log', -, hlog'⟩ := represents_call b log c hlog
      exact ⟨log', hlog'⟩
    exact along_congr (R := fun _ _ => True) (fun b => ∃ log, Represents b log) hkept
      (fun b c ⟨_, hlog⟩ => writesExactly_iff hlog c) ⟨_, h.represents⟩
      (along_of_forall (fun _ _ => trivial) _ _)

/-- A factor in hundredths; the product is rounded down. -/
structure Percent where
  value : ℕ

instance percentFactor : GrowFactor Percent where
  zero := ⟨0⟩
  oneGe factor := decide (factor.value ≤ 100)
  times n factor := n * factor.value / 100

def fiveBytes : Offer := ⟨5, [1, 2, 3, 4, 5], rfl, by decide⟩

/-- A buffer that grows by one half, into which five bytes are written twice. -/
theorem streamBuf_byteLog_two_writes :
    let b : NetworkStreamBuf Percent := ofFactor ⟨0, by decide⟩ 4 ⟨200⟩ 20
    let calls : List (StreamCall Percent) := [.setGrowFactor ⟨150⟩, .xsputn fiveBytes,
      .xsputn fiveBytes, .seekpos 3, .xsgetn ⟨4, by decide⟩]
    (answersOf callStream b calls).1.storage = [1, 2, 3, 4, 5, 1, 2, 3, 4, 5] ∧
      (answersOf callStream b calls).1.gOff = 7 ∧
      Along (fun b c => some (callStream b c).1) WritesExactly b calls := by
  intro b calls
  refine ⟨by decide, by decide +kernel, ?_⟩
  exact (streamBuf_byteLog (.ofFactor _ _ _ _) calls).2.mpr (by decide)

/-- The maximum is lowered below the desired size, and then no short write succeeds. -/
theorem write_held_back :
    let b : NetworkStreamBuf Percent := ofIncrement ⟨15, by decide⟩ 100 10 1000
    let calls : List (StreamCall Percent) := [.setMaxSize 50, .xsputn fiveBytes]
    (answersOf callStream b calls).1.storage = [] ∧
      ¬ Along (fun b c => some (callStream b c).1) WritesExactly b calls := by
  intro b calls
  refine ⟨by decide, fun halong => ?_⟩
  have hwrite := (halong.2 _ rfl).1 fiveBytes rfl (by decide)
  have hrefused : ¬ (callStream (callStream b (.setMaxSize 50)).1 (.xsputn fiveBytes)).2.Wrote := by
    decide
  exact hrefused (hwrite.1.mpr (by decide))

end OlpEdgeSdk.Analysis.StreamBuf
