import HvGin.Packet
import HvGin.Lib.Act
import HvGin.Lib.FrameQueue

/-!
# The device mapping: two rings in one shared file

`UioHvDevice` is the ring geometry the constructor computes: a control page and a
data area for each direction, one behind the other in one mapping. The mapping is
a store of bytes that the host, the driver and every thread of the program share.
An index in a control block is read and written as four bytes of it.

`readArray` and `writeArray` are the accessor's bulk copies with the range checks
of the runtime.

## Main definitions

* `UioHvDevice`, `RingOffsets.create` — the geometry, and the constructor's arithmetic.
* `controlBlock`, `outgoing`, `incoming` — the ring control blocks in a mapping.
* `getAvailableSizeInformation`, `getMaximumPushSize` — the space computations.
* `readableSize`, `writableSize` — their values for indices inside the ring.
-/
namespace HvGin

open Lib

/-- The bytes of the mapping `txrx_rings`. -/
abbrev Mapping := ℕ → UInt8

/-! ## Geometry -/

/-- The ring geometry of a device: the size of a control page, which holds the 68
bytes of a control block, and of a data area. The last field says that the offsets
the constructor adds up in `int` do not wrap. -/
structure UioHvDevice where
  controlMaximumSize : ℕ
  dataMaximumSize : ℕ
  control_fits : 68 ≤ controlMaximumSize
  data_pos : 0 < dataMaximumSize
  data_aligned : 8 ∣ dataMaximumSize
  offsets_fit : 2 * controlMaximumSize + dataMaximumSize < 2 ^ 31

namespace UioHvDevice

def outgoingControlOffset (_ : UioHvDevice) : ℕ := 0

variable (dev : UioHvDevice)

def ringBufferSize : ℕ := dev.controlMaximumSize + dev.dataMaximumSize
def outgoingDataOffset : ℕ := dev.controlMaximumSize
def incomingControlOffset : ℕ := dev.ringBufferSize
def incomingDataOffset : ℕ := dev.ringBufferSize + dev.controlMaximumSize
/-- The capacity of the accessor, the size of the mapping. -/
def capacity : ℕ := 2 * dev.ringBufferSize

/-- The incoming ring follows the outgoing data area. -/
theorem incomingControlOffset_eq :
    dev.incomingControlOffset = dev.outgoingDataOffset + dev.dataMaximumSize := rfl

/-- The incoming data area ends at the capacity. -/
theorem incomingDataOffset_add : dev.incomingDataOffset + dev.dataMaximumSize = dev.capacity := by
  simp only [incomingDataOffset, capacity, ringBufferSize]
  omega

/-- A run of bytes up to a whole data area beyond the outgoing one is still in the mapping. -/
theorem outgoingDataOffset_add_lt :
    dev.outgoingDataOffset + 2 * dev.dataMaximumSize < dev.capacity := by
  have hpage := dev.control_fits
  simp only [outgoingDataOffset, capacity, ringBufferSize]
  omega

theorem capacity_lt : dev.capacity < 2 ^ 32 := by
  have hfit := dev.offsets_fit
  simp only [capacity, ringBufferSize]
  omega

/-- The rings the driver allocates by default: two megabytes each, with a page of four
kilobytes in front of the data. -/
def defaultRings : UioHvDevice where
  controlMaximumSize := 4096
  dataMaximumSize := 2093056
  control_fits := by norm_num
  data_pos := by norm_num
  data_aligned := by norm_num
  offsets_fit := by norm_num

end UioHvDevice

/-- The offsets as the constructor's `int` fields hold them. -/
structure RingOffsets where
  ringBufferSize : ℤ
  controlMaximumSize : ℤ
  dataMaximumSize : ℤ
  outgoingControlOffset : ℤ
  outgoingDataOffset : ℤ
  incomingControlOffset : ℤ
  incomingDataOffset : ℤ
  deriving DecidableEq

/-- The arithmetic of the constructor, from the page size and `MapItem.Size`. -/
def RingOffsets.create (pageSize mapSize : ℤ) : Except Exn RingOffsets := do
  let ringBufferSize ← Convert.toInt32 (mapSize.tdiv 2)
  let controlMaximumSize := pageSize
  let outgoingControlOffset := 0
  let incomingControlOffset := add32 outgoingControlOffset ringBufferSize
  pure {
    ringBufferSize
    controlMaximumSize
    dataMaximumSize := sub32 ringBufferSize controlMaximumSize
    outgoingControlOffset
    outgoingDataOffset := add32 outgoingControlOffset controlMaximumSize
    incomingControlOffset
    incomingDataOffset := add32 incomingControlOffset controlMaximumSize }

/-- The constructor computes the geometry of the device from its mapping. -/
theorem RingOffsets.create_eq (dev : UioHvDevice) :
    RingOffsets.create dev.controlMaximumSize dev.capacity = .ok {
      ringBufferSize := dev.ringBufferSize
      controlMaximumSize := dev.controlMaximumSize
      dataMaximumSize := dev.dataMaximumSize
      outgoingControlOffset := dev.outgoingControlOffset
      outgoingDataOffset := dev.outgoingDataOffset
      incomingControlOffset := dev.incomingControlOffset
      incomingDataOffset := dev.incomingDataOffset } := by
  have hfit := dev.offsets_fit
  have hhalf : (dev.capacity : ℤ).tdiv 2 = (dev.ringBufferSize : ℕ) := by
    rw [UioHvDevice.capacity, Int.tdiv_eq_ediv_of_nonneg (by omega)]
    omega
  have hring : dev.ringBufferSize = dev.controlMaximumSize + dev.dataMaximumSize := rfl
  rw [create, hhalf, Convert.toInt32_natCast (by omega)]
  simp only [ok_bind, pure_eq_ok]
  rw [add32_eq (by omega) (by omega), add32_eq (by omega) (by omega), sub32_eq (by omega) (by omega),
    add32_eq (by omega) (by omega)]
  simp only [UioHvDevice.outgoingControlOffset, UioHvDevice.outgoingDataOffset,
    UioHvDevice.incomingControlOffset, UioHvDevice.incomingDataOffset, hring]
  congr 2 <;> omega

/-! ## Words in the mapping -/

def readUInt32 (m : Mapping) (p : ℕ) : UInt32 := .ofNat (ofLE (slice m p 4))
def writeUInt32 (p : ℕ) (v : UInt32) (m : Mapping) : Mapping := blit m p (toLE 4 v.toNat)

@[simp] theorem readUInt32_writeUInt32 (m : Mapping) (p : ℕ) (v : UInt32) :
    readUInt32 (writeUInt32 p v m) p = v := by
  have hslice : slice (blit m p (toLE 4 v.toNat)) p 4 = toLE 4 v.toNat := by
    simpa using slice_blit_self m p (toLE 4 v.toNat)
  rw [readUInt32, writeUInt32, hslice, ofLE_toLE_of_lt (by simpa using v.toNat_lt)]
  simp

theorem readUInt32_blit {m : Mapping} {p q : ℕ} {xs : List UInt8}
    (h : q + 4 ≤ p ∨ p + xs.length ≤ q) : readUInt32 (blit m p xs) q = readUInt32 m q := by
  rw [readUInt32, slice_blit_of_disjoint h, readUInt32]

theorem readUInt32_writeUInt32_of_ne {m : Mapping} {p q : ℕ} {v : UInt32}
    (h : q + 4 ≤ p ∨ p + 4 ≤ q) : readUInt32 (writeUInt32 p v m) q = readUInt32 m q :=
  readUInt32_blit (by simpa using h)

theorem readUInt32_congr {m m' : Mapping} {p : ℕ} (h : ∀ i, i < 4 → m' (p + i) = m (p + i)) :
    readUInt32 m' p = readUInt32 m p := by
  rw [readUInt32, slice_congr h, readUInt32]

/-- A word is written on its four bytes only. -/
theorem writeUInt32_apply {m : Mapping} {p a : ℕ} {v : UInt32} (h : a < p ∨ p + 4 ≤ a) :
    writeUInt32 p v m a = m a := by
  rcases h with h | h
  · exact blit_of_lt h
  · exact blit_of_ge (by simpa using h)

/-! ## Ring control blocks -/

/-- `RingControlBlock`, as far as the modelled code reads it. -/
structure RingControlBlock where
  In : UInt32
  Out : UInt32
  InterruptMask : UInt32
  deriving DecidableEq, Repr

/-- The control block at an offset: sequential `uint` fields. -/
def controlBlock (m : Mapping) (offset : ℕ) : RingControlBlock where
  In := readUInt32 m offset
  Out := readUInt32 m (offset + 4)
  InterruptMask := readUInt32 m (offset + 8)

/-- The control blocks of the two rings. -/
def outgoing (dev : UioHvDevice) (m : Mapping) : RingControlBlock :=
  controlBlock m dev.outgoingControlOffset
def incoming (dev : UioHvDevice) (m : Mapping) : RingControlBlock :=
  controlBlock m dev.incomingControlOffset

/-- The data areas of the two rings, addressed by ring offset. -/
def outgoingData (dev : UioHvDevice) (m : Mapping) : ℕ → UInt8 := fun i =>
  m (dev.outgoingDataOffset + i)
def incomingData (dev : UioHvDevice) (m : Mapping) : ℕ → UInt8 := fun i =>
  m (dev.incomingDataOffset + i)

/-- `GetRingControlBlock`. -/
def getRingControlBlock (dev : UioHvDevice) (accessorOffset : ℕ) :
    Act Mapping Exn RingControlBlock := do
  Act.throwIf (accessorOffset ≠ dev.outgoingControlOffset ∧
    accessorOffset ≠ dev.incomingControlOffset) .argument
  Act.reads fun m => .ok (controlBlock m accessorOffset)

theorem run_getRingControlBlock_outgoing (dev : UioHvDevice) (m : Mapping) :
    (getRingControlBlock dev dev.outgoingControlOffset).run m = (.ok (outgoing dev m), m) :=
  Act.run_throwIf_neg (by simp)

theorem run_getRingControlBlock_incoming (dev : UioHvDevice) (m : Mapping) :
    (getRingControlBlock dev dev.incomingControlOffset).run m = (.ok (incoming dev m), m) :=
  Act.run_throwIf_neg (by simp)

/-- A control block depends on its own bytes only. -/
theorem controlBlock_congr {m m' : Mapping} {offset : ℕ}
    (h : ∀ i, i < 12 → m' (offset + i) = m (offset + i)) :
    controlBlock m' offset = controlBlock m offset := by
  have hIn : readUInt32 m' offset = readUInt32 m offset :=
    readUInt32_congr fun i hi => h i (by omega)
  have hOut : readUInt32 m' (offset + 4) = readUInt32 m (offset + 4) :=
    readUInt32_congr fun i hi => by simpa [Nat.add_assoc] using h (4 + i) (by omega)
  have hMask : readUInt32 m' (offset + 8) = readUInt32 m (offset + 8) :=
    readUInt32_congr fun i hi => by simpa [Nat.add_assoc] using h (8 + i) (by omega)
  rw [controlBlock, hIn, hOut, hMask, controlBlock]

/-! ## Space computations -/

/-- `GetAvailableSizeInformation`: readable and writable size. -/
def getAvailableSizeInformation (dev : UioHvDevice) (cb : RingControlBlock) :
    Except Exn (ℤ × ℤ) :=
  if cb.Out ≤ cb.In then do
    let readableSize ← Convert.toInt32 (cb.In - cb.Out).toNat
    pure (readableSize, sub32 dev.dataMaximumSize readableSize)
  else do
    let writableSize ← Convert.toInt32 (cb.Out - cb.In).toNat
    pure (sub32 dev.dataMaximumSize writableSize, writableSize)

/-- The readable size for indices up to the size of the data area. -/
def readableSize (dev : UioHvDevice) (cb : RingControlBlock) : ℕ :=
  if cb.Out.toNat ≤ cb.In.toNat then cb.In.toNat - cb.Out.toNat
  else dev.dataMaximumSize - (cb.Out.toNat - cb.In.toNat)

/-- The writable size for indices up to the size of the data area. -/
def writableSize (dev : UioHvDevice) (cb : RingControlBlock) : ℕ :=
  if cb.Out.toNat ≤ cb.In.toNat then dev.dataMaximumSize - (cb.In.toNat - cb.Out.toNat)
  else cb.Out.toNat - cb.In.toNat

theorem getAvailableSizeInformation_eq {dev : UioHvDevice} {cb : RingControlBlock}
    (hIn : cb.In.toNat ≤ dev.dataMaximumSize) (hOut : cb.Out.toNat ≤ dev.dataMaximumSize) :
    getAvailableSizeInformation dev cb =
      .ok ((readableSize dev cb : ℤ), (writableSize dev cb : ℤ)) := by
  have hfit := dev.offsets_fit
  simp only [getAvailableSizeInformation, readableSize, writableSize]
  by_cases h : cb.Out.toNat ≤ cb.In.toNat
  · rw [if_pos (UInt32.le_iff_toNat_le.mpr h), if_pos h, if_pos h,
      UInt32.toNat_sub_of_le _ _ (UInt32.le_iff_toNat_le.mpr h),
      Convert.toInt32_natCast (by omega)]
    simp only [ok_bind, pure_eq_ok]
    rw [sub32_eq (by omega) (by omega)]
    congr 2
    omega
  · have hle : cb.In ≤ cb.Out := UInt32.le_iff_toNat_le.mpr (by omega)
    rw [if_neg (fun hc => h (UInt32.le_iff_toNat_le.mp hc)), if_neg h, if_neg h,
      UInt32.toNat_sub_of_le _ _ hle, Convert.toInt32_natCast (by omega)]
    simp only [ok_bind, pure_eq_ok]
    rw [sub32_eq (by omega) (by omega)]
    congr 2
    omega

theorem writableSize_le {dev : UioHvDevice} {cb : RingControlBlock}
    (hOut : cb.Out.toNat ≤ dev.dataMaximumSize) : writableSize dev cb ≤ dev.dataMaximumSize := by
  simp only [writableSize]
  split <;> omega

/-- The index behind `size` bytes from `offset` on, as both operations come to compute
it: past the end of the data area it starts over, but an end exactly there stays. -/
def advance (D offset size : ℕ) : ℕ := if D < offset + size then offset + size - D else offset + size

theorem advance_le {D offset size : ℕ} (ho : offset ≤ D) (hs : size ≤ D) :
    advance D offset size ≤ D := by
  simp only [advance]
  split <;> omega

theorem advance_mod (D offset size : ℕ) :
    advance D offset size % D = (offset + size) % D := by
  simp only [advance]
  split
  · rw [← Nat.mod_eq_sub_mod (by omega)]
  · rfl

/-- The index is inside the data area, and the sum modulo its size, unless the bytes
end exactly at the end of the data area. -/
theorem advance_eq_mod_iff {D offset size : ℕ} (ho : offset < D) (hs : size ≤ D) :
    advance D offset size < D ∧ advance D offset size = (offset + size) % D ↔
      offset + size ≠ D := by
  simp only [advance]
  rcases Nat.lt_trichotomy (offset + size) D with h | h | h
  · rw [if_neg (by omega), Nat.mod_eq_of_lt h]
    omega
  · rw [if_neg (by omega)]
    omega
  · rw [if_pos h, Nat.mod_eq_sub_mod (by omega), Nat.mod_eq_of_lt (by omega)]
    omega

theorem advance_lt_iff {D offset size : ℕ} (ho : offset < D) (hs : size ≤ D) :
    advance D offset size < D ↔ offset + size ≠ D := by
  simp only [advance]
  split <;> omega

/-- `GetMaximumPushSize`. The remainder is C#'s, truncated toward zero. -/
def getMaximumPushSize (dev : UioHvDevice) : Act Mapping Exn ℤ := do
  let cb ← getRingControlBlock dev dev.outgoingControlOffset
  let (_, availableSize) ← Act.lift (getAvailableSizeInformation dev cb)
  let availableSize := sub32 availableSize (pipePacketHeaderSize + 8 : ℕ)
  let availableSize := sub32 availableSize (availableSize.tmod 8)
  pure (if availableSize < 0 then 0 else min availableSize 16384)

/-- `GetMaximumPushSize` for indices up to the size of the data area. -/
def maximumPushSize (dev : UioHvDevice) (cb : RingControlBlock) : ℕ :=
  min ((writableSize dev cb - 32) / 8 * 8) 16384

/-- Clearing the remainder rounds down to a multiple of `8`, and a negative size up. -/
private theorem sub_tmod_eight (w : ℕ) :
    (if (w : ℤ) - 32 - ((w : ℤ) - 32).tmod 8 < 0 then 0
      else min ((w : ℤ) - 32 - ((w : ℤ) - 32).tmod 8) 16384) =
      (min ((w - 32) / 8 * 8) 16384 : ℕ) := by
  by_cases h : w < 32
  · have hrem : ((w : ℤ) - 32).tmod 8 = -(((32 - w : ℕ) : ℤ) % 8) := by
      rw [show (w : ℤ) - 32 = -((32 - w : ℕ) : ℤ) by omega, Int.neg_tmod,
        Int.tmod_eq_emod_of_nonneg (by omega)]
    rw [hrem]
    split_ifs <;> omega
  · rw [Int.tmod_eq_emod_of_nonneg (by omega), if_neg (by omega)]
    omega

theorem run_getMaximumPushSize {dev : UioHvDevice} {m : Mapping}
    (hIn : (outgoing dev m).In.toNat ≤ dev.dataMaximumSize)
    (hOut : (outgoing dev m).Out.toNat ≤ dev.dataMaximumSize) :
    (getMaximumPushSize dev).run m = (.ok (maximumPushSize dev (outgoing dev m) : ℕ), m) := by
  have hfit := dev.offsets_fit
  have hw := writableSize_le hOut
  have hheader : ((pipePacketHeaderSize + 8 : ℕ) : ℤ) = 32 := rfl
  rw [getMaximumPushSize, Act.run_bind_ok (run_getRingControlBlock_outgoing dev m),
    Act.run_lift_ok (getAvailableSizeInformation_eq hIn hOut)]
  have hlt := Int.tmod_lt_of_pos ((writableSize dev (outgoing dev m) : ℤ) - 32) (b := 8)
    (by norm_num)
  have hgt := Int.lt_tmod_of_pos ((writableSize dev (outgoing dev m) : ℤ) - 32) (b := 8)
    (by norm_num)
  have hsub : sub32 (writableSize dev (outgoing dev m)) 32 =
      (writableSize dev (outgoing dev m) : ℤ) - 32 := sub32_eq (by omega) (by omega)
  simp only [Act.run_pure, hheader, hsub]
  rw [sub32_eq (by omega) (by omega), sub_tmod_eight, maximumPushSize]

/-! ## Bulk copies -/

/-- `Accessor.ReadArray`: fills the array from `offset` on with `count` bytes, fewer
where the mapping ends first. -/
def readArray (dev : UioHvDevice) (m : Mapping) (position : ℤ) (array : List UInt8)
    (offset count : ℤ) : Except Exn (List UInt8) :=
  if offset < 0 ∨ count < 0 then .error .argumentOutOfRange
  else if array.length - offset < count then .error .argument
  else if position < 0 ∨ (dev.capacity : ℤ) ≤ position then .error .argumentOutOfRange
  else
    let n := min count.toNat (dev.capacity - position.toNat)
    .ok (array.take offset.toNat ++ slice m position.toNat n ++ array.drop (offset.toNat + n))

/-- `Accessor.WriteArray`: writes nothing unless the whole range fits the mapping. -/
def writeArray (dev : UioHvDevice) (position : ℤ) (array : List UInt8) (offset count : ℤ) :
    Act Mapping Exn PUnit := do
  Act.throwIf (offset < 0 ∨ count < 0) .argumentOutOfRange
  Act.throwIf (array.length - offset < count) .argument
  Act.throwIf (position < 0 ∨ (dev.capacity : ℤ) ≤ position) .argumentOutOfRange
  Act.throwIf ((dev.capacity : ℤ) < position + count) .argument
  Act.modify fun m => blit m position.toNat ((array.drop offset.toNat).take count.toNat)

theorem run_writeArray (dev : UioHvDevice) (array : List UInt8) (position offset count : ℕ)
    (hcount : offset + count ≤ array.length) (hpos : position < dev.capacity)
    (hend : position + count ≤ dev.capacity) (m : Mapping) :
    (writeArray dev position array offset count).run m =
      (.ok ⟨⟩, blit m position ((array.drop offset).take count)) := by
  simp only [writeArray]
  rw [Act.run_throwIf_neg (by omega), Act.run_throwIf_neg (by omega),
    Act.run_throwIf_neg (by omega), Act.run_throwIf_neg (by omega)]
  simp

/-! ## The interrupt mask -/

/-- The driver's half of `InterruptControl`: the incoming `InterruptMask` becomes
`!irq_state`. -/
def interruptControl (dev : UioHvDevice) (enable : Bool) (m : Mapping) : Mapping :=
  writeUInt32 (dev.incomingControlOffset + 8) (if enable then 0 else 1) m

/-- `SignalHost`. -/
def signalHost (dev : UioHvDevice) (m : Mapping) : Mapping := interruptControl dev true m

section

variable {dev : UioHvDevice} {m : Mapping} {enable : Bool}

@[simp] theorem incoming_interruptControl :
    incoming dev (interruptControl dev enable m) =
      { incoming dev m with InterruptMask := if enable then 0 else 1 } := by
  simp only [incoming, controlBlock, interruptControl, readUInt32_writeUInt32,
    RingControlBlock.mk.injEq, and_true]
  exact ⟨readUInt32_writeUInt32_of_ne (Or.inl (by omega)),
    readUInt32_writeUInt32_of_ne (Or.inl (by omega))⟩

@[simp] theorem incomingData_interruptControl :
    incomingData dev (interruptControl dev enable m) = incomingData dev m := by
  have hpage := dev.control_fits
  have hdata : dev.incomingDataOffset = dev.incomingControlOffset + dev.controlMaximumSize := rfl
  funext i
  exact writeUInt32_apply (Or.inr (by omega))

/-- The mask is not in the outgoing ring. -/
theorem interruptControl_apply {a : ℕ} (h : a < dev.incomingControlOffset) :
    interruptControl dev enable m a = m a := writeUInt32_apply (Or.inl (by omega))

@[simp] theorem outgoing_interruptControl :
    outgoing dev (interruptControl dev enable m) = outgoing dev m := by
  have hpage := dev.control_fits
  refine controlBlock_congr fun i hi => interruptControl_apply ?_
  unfold UioHvDevice.outgoingControlOffset UioHvDevice.incomingControlOffset
    UioHvDevice.ringBufferSize
  omega

end

end HvGin
