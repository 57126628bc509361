import HvGin.Push
import HvGin.Pop

/-!
# The conforming host

The host is the consumer of the outgoing ring and the producer of the incoming
one. It computes with indices modulo the size of the data area: it reads a packet
of the outgoing ring and moves `Out` past it, or it writes a packet of the
incoming ring and moves `In` past it.

`OutgoingRing` and `IncomingRing` say which packets a mapping holds in a ring. The
lemmas give, for each operation of either side, the packets it leaves; where a
ring's packets end is then nobody's concern but the index arithmetic's.

## Main definitions

* `hostTake`, `hostPut` — the steps of the host.
* `readableContents` — what the host still has to read.
* `OutgoingRing`, `IncomingRing` — the packets in the rings of a mapping.
-/
namespace HvGin

open Lib

/-! ## The consumer of the outgoing ring -/

section

variable (dev : UioHvDevice) (m : Mapping)

/-- The number of bytes the host sees in the outgoing ring. -/
def hostReadableSize : ℕ :=
  distance dev.dataMaximumSize (outgoing dev m).In.toNat (outgoing dev m).Out.toNat

def hostReadable : List UInt8 :=
  window (outgoingData dev m) dev.dataMaximumSize (outgoing dev m).Out.toNat
    (hostReadableSize dev m)

/-- The contents still readable between `Out` and `In`. -/
def readableContents : List (List UInt8) := readContents (hostReadable dev m)

/-- The store of the outgoing `Out`. -/
def takeStore (finalOffset : UInt32) : Mapping :=
  writeUInt32 (dev.outgoingControlOffset + 4) finalOffset m

/-- `Out` moved past a packet of a size. -/
def takePast (size : ℕ) : Mapping :=
  takeStore dev m (.ofNat (((outgoing dev m).Out.toNat + size) % dev.dataMaximumSize))

/-- The host takes the packet at `Out`: its content and the mapping behind it. The ring
is empty where `In = Out`. -/
def hostTake : Option (List UInt8 × Mapping) :=
  if (outgoing dev m).In = (outgoing dev m).Out then none
  else
    let packet := frontPacket (hostReadable dev m)
    if hostReadableSize dev m < packet.2 then none
    else some (packet.1, takePast dev m packet.2)

/-! ## The producer of the incoming ring -/

/-- The free space the host sees in the incoming ring. -/
def hostFreeSize : ℕ :=
  dev.dataMaximumSize -
    distance dev.dataMaximumSize (incoming dev m).In.toNat (incoming dev m).Out.toNat

/-- The mapping with bytes written to the incoming data area at an index. -/
def putData (In : ℕ) (bytes : List UInt8) : Mapping := fun a =>
  if dev.incomingDataOffset ≤ a then
    place (incomingData dev m) dev.dataMaximumSize In bytes (a - dev.incomingDataOffset)
  else m a

/-- The contents of the complete packets readable in the incoming ring. -/
def incomingContents : List (List UInt8) := readContents (availableBytes dev m)

/-- The host writes a packet, if more than its size is free. -/
def hostPut (p : PipePacket) : Option Mapping :=
  if p.size < hostFreeSize dev m then
    some (writeUInt32 dev.incomingControlOffset
      (.ofNat (((incoming dev m).In.toNat + p.size) % dev.dataMaximumSize))
      (putData dev m (incoming dev m).In.toNat p.image))
  else none

end

variable {dev : UioHvDevice} {m m' : Mapping} {v : UInt32} {p : PipePacket} {ps : List PipePacket}
  {content : List UInt8}

@[simp] theorem outgoing_takeStore :
    outgoing dev (takeStore dev m v) = { outgoing dev m with Out := v } := by
  simp only [outgoing, controlBlock, takeStore, readUInt32_writeUInt32, RingControlBlock.mk.injEq,
    true_and]
  exact ⟨readUInt32_writeUInt32_of_ne (Or.inl le_rfl), readUInt32_writeUInt32_of_ne (Or.inr le_rfl)⟩

/-- Taking writes the word `Out` only. -/
theorem takeStore_apply {a : ℕ} (h : 8 ≤ a) : takeStore dev m v a = m a :=
  writeUInt32_apply (Or.inr h)

@[simp] theorem outgoingData_takeStore :
    outgoingData dev (takeStore dev m v) = outgoingData dev m := by
  have hpage := dev.control_fits
  funext i
  refine takeStore_apply ?_
  simp only [UioHvDevice.outgoingDataOffset]
  omega

@[simp] theorem incoming_takeStore : incoming dev (takeStore dev m v) = incoming dev m := by
  have hpage := dev.control_fits
  refine controlBlock_congr fun i _ => takeStore_apply ?_
  simp only [UioHvDevice.incomingControlOffset, UioHvDevice.ringBufferSize]
  omega

@[simp] theorem out_takePast (size : ℕ) : (outgoing dev (takePast dev m size)).Out.toNat =
    ((outgoing dev m).Out.toNat + size) % dev.dataMaximumSize := by
  have hfit := dev.offsets_fit
  have hlt := Nat.mod_lt ((outgoing dev m).Out.toNat + size) dev.data_pos
  rw [takePast, outgoing_takeStore, toNat_ofNat32 (by omega)]

@[simp] theorem in_takePast (size : ℕ) :
    (outgoing dev (takePast dev m size)).In = (outgoing dev m).In := by
  rw [takePast, outgoing_takeStore]

/-- A take moves `Out` and changes nothing else. -/
theorem takePast_of_hostTake (h : hostTake dev m = some (content, m')) :
    ∃ size, m' = takePast dev m size := by
  rw [hostTake] at h
  simp only at h
  split_ifs at h
  obtain ⟨_, rfl⟩ := Prod.mk.inj (Option.some.inj h)
  exact ⟨_, rfl⟩

/-- The effect of a put: the packet stands at `In`, `In` has moved past it, and the rest
of the mapping is as it was. -/
structure PutEffect (dev : UioHvDevice) (m m' : Mapping) (p : PipePacket) : Prop where
  placed : Placed (incomingData dev m) (incomingData dev m') dev.dataMaximumSize
    (incoming dev m).In.toNat p.image
  in_eq : (incoming dev m').In.toNat =
    ((incoming dev m).In.toNat + p.size) % dev.dataMaximumSize
  frame : ∀ a, a < dev.incomingControlOffset ∨
    dev.incomingControlOffset + 4 ≤ a ∧ a < dev.incomingDataOffset → m' a = m a

theorem putEffect_of_hostPut (h : hostPut dev m p = some m') :
    p.size < hostFreeSize dev m ∧ PutEffect dev m m' p := by
  have hpage := dev.control_fits
  have hfit := dev.offsets_fit
  have hdata : dev.incomingDataOffset = dev.incomingControlOffset + dev.controlMaximumSize := rfl
  unfold hostPut at h
  split_ifs at h with hroom
  cases h
  refine ⟨hroom, ?_, ?_, ?_⟩
  · have hword : incomingData dev (writeUInt32 dev.incomingControlOffset
        (.ofNat (((incoming dev m).In.toNat + p.size) % dev.dataMaximumSize))
        (putData dev m (incoming dev m).In.toNat p.image)) =
        place (incomingData dev m) dev.dataMaximumSize (incoming dev m).In.toNat p.image := by
      funext i
      rw [incomingData, writeUInt32_apply (Or.inr (by omega)), putData, if_pos (by omega),
        Nat.add_sub_cancel_left]
    rw [hword]
    refine placed_place ?_
    rw [p.length_image]
    unfold hostFreeSize at hroom
    omega
  · have hlt := Nat.mod_lt ((incoming dev m).In.toNat + p.size) dev.data_pos
    change (readUInt32 _ dev.incomingControlOffset).toNat = _
    rw [readUInt32_writeUInt32, toNat_ofNat32 (by omega)]
  · intro a ha
    rw [writeUInt32_apply (by omega), putData, if_neg (by omega)]

namespace PutEffect

theorem out_eq (H : PutEffect dev m m' p) : (incoming dev m').Out = (incoming dev m).Out := by
  have hpage := dev.control_fits
  have hdata : dev.incomingDataOffset = dev.incomingControlOffset + dev.controlMaximumSize := rfl
  exact readUInt32_congr fun i _ => H.frame _ (Or.inr (by omega))

/-- The outgoing ring is untouched. -/
theorem outgoing_eq (H : PutEffect dev m m' p) : outgoing dev m' = outgoing dev m := by
  have hpage := dev.control_fits
  refine controlBlock_congr fun i _ => H.frame _ (Or.inl ?_)
  unfold UioHvDevice.outgoingControlOffset UioHvDevice.incomingControlOffset
    UioHvDevice.ringBufferSize
  omega

end PutEffect

/-- The bytes a list of packets takes. -/
def usedSize (ps : List PipePacket) : ℕ := used (ps.map PipePacket.image)

@[simp] theorem usedSize_nil : usedSize [] = 0 := rfl
@[simp] theorem usedSize_cons (p : PipePacket) (ps : List PipePacket) :
    usedSize (p :: ps) = p.size + usedSize ps := by simp [usedSize]
@[simp] theorem usedSize_append (ps qs : List PipePacket) :
    usedSize (ps ++ qs) = usedSize ps + usedSize qs := by simp [usedSize]

/-! ## The packets in the outgoing ring -/

/-- The outgoing ring of a mapping holds these packets, front first. The guest may leave
`In` at the very end of the data area; the host keeps `Out` inside it. -/
structure OutgoingRing (dev : UioHvDevice) (m : Mapping) (ps : List PipePacket) : Prop where
  in_le : (outgoing dev m).In.toNat ≤ dev.dataMaximumSize
  out_lt : (outgoing dev m).Out.toNat < dev.dataMaximumSize
  ring : Ring (outgoingData dev m) dev.dataMaximumSize (outgoing dev m).In.toNat
    (outgoing dev m).Out.toNat (ps.map PipePacket.image)


namespace OutgoingRing

theorem empty (hIn : (outgoing dev m).In = 0) (hOut : (outgoing dev m).Out = 0) :
    OutgoingRing dev m [] where
  in_le := by simp [hIn]
  out_lt := by simpa [hOut] using dev.data_pos
  ring := .empty dev.data_pos (by rw [hIn, hOut])

theorem used_lt (H : OutgoingRing dev m ps) : usedSize ps < dev.dataMaximumSize := H.ring.used_lt

theorem hostReadableSize_eq (H : OutgoingRing dev m ps) :
    hostReadableSize dev m = usedSize ps := H.ring.distance_eq

theorem index_cases (H : OutgoingRing dev m ps) :
    (outgoing dev m).In.toNat = (outgoing dev m).Out.toNat + usedSize ps ∨
      (outgoing dev m).In.toNat + dev.dataMaximumSize = (outgoing dev m).Out.toNat + usedSize ps ∨
      (outgoing dev m).In.toNat =
        (outgoing dev m).Out.toNat + usedSize ps + dev.dataMaximumSize :=
  H.ring.index_cases H.in_le H.out_lt.le

/-- The writable size is what the packets leave, except with `In` at the end of the data
area and `Out` at its start, where it is `0`. -/
theorem writableSize_eq (H : OutgoingRing dev m ps) :
    writableSize dev (outgoing dev m) =
      if (outgoing dev m).In.toNat = dev.dataMaximumSize ∧ (outgoing dev m).Out.toNat = 0 then 0
      else dev.dataMaximumSize - usedSize ps := by
  have hIn := H.in_le
  have hOut := H.out_lt
  have hlt := H.used_lt
  have hcases := H.index_cases
  simp only [writableSize]
  split <;> split <;> omega

theorem writableSize_of_pos (H : OutgoingRing dev m ps) (hpos : 0 < usedSize ps) :
    writableSize dev (outgoing dev m) = dev.dataMaximumSize - usedSize ps := by
  have hlt := H.used_lt
  have hcases := H.index_cases
  rw [H.writableSize_eq, if_neg (by omega)]

theorem writableSize_le (H : OutgoingRing dev m ps) :
    writableSize dev (outgoing dev m) ≤ dev.dataMaximumSize - usedSize ps := by
  rw [H.writableSize_eq]
  split <;> omega

/-- What the host reads are the contents of the packets. -/
theorem readableContents_eq (H : OutgoingRing dev m ps) :
    readableContents dev m = ps.map PipePacket.content := by
  rw [readableContents, hostReadable, hostReadableSize, H.ring.window_distance, readContents_images]

/-- A push that leaves a byte free adds its packet at the back. -/
theorem push (H : OutgoingRing dev m ps) (E : PushEffect dev m m' p)
    (hroom : usedSize ps + p.size < dev.dataMaximumSize) : OutgoingRing dev m' (ps ++ [p]) where
  in_le := by
    rw [E.in_eq]
    exact advance_le H.in_le (by omega)
  out_lt := by
    rw [E.out_eq]
    exact H.out_lt
  ring := by
    rw [List.map_append, E.out_eq]
    refine H.ring.enqueue E.placed (by rwa [p.length_image]) ?_
    rw [E.in_eq, advance_mod, p.length_image]

/-- A push that leaves no byte free makes the ring look empty. -/
theorem push_full (H : OutgoingRing dev m ps) (E : PushEffect dev m m' p)
    (hroom : usedSize ps + p.size = dev.dataMaximumSize) : OutgoingRing dev m' [] where
  in_le := by
    rw [E.in_eq]
    exact advance_le H.in_le (by omega)
  out_lt := by
    rw [E.out_eq]
    exact H.out_lt
  ring := by
    refine .empty dev.data_pos ?_
    rw [E.in_eq, E.out_eq, advance_mod, Nat.add_mod, H.ring.in_mod, ← Nat.add_mod, Nat.add_assoc]
    change (_ + (usedSize ps + _)) % _ = _
    rw [hroom, Nat.add_mod_right]

/-- Unmasking the interrupt does not touch the outgoing ring. -/
theorem signalHost (H : OutgoingRing dev m ps) : OutgoingRing dev (signalHost dev m) ps where
  in_le := by
    rw [HvGin.signalHost, outgoing_interruptControl]
    exact H.in_le
  out_lt := by
    rw [HvGin.signalHost, outgoing_interruptControl]
    exact H.out_lt
  ring := by
    rw [HvGin.signalHost, outgoing_interruptControl]
    refine H.ring.congr fun a ha => interruptControl_apply ?_
    unfold UioHvDevice.outgoingDataOffset UioHvDevice.incomingControlOffset
      UioHvDevice.ringBufferSize
    omega

/-- With packets in the ring the host takes the first one. -/
theorem take (H : OutgoingRing dev m (p :: ps)) :
    hostTake dev m = some (p.content, takePast dev m p.size) := by
  have hread := H.hostReadableSize_eq
  rw [usedSize_cons] at hread
  have hfront : hostReadable dev m = p.image ++ (ps.map PipePacket.image).flatten := by
    rw [hostReadable, hostReadableSize, H.ring.window_distance, List.map_cons, List.flatten_cons]
  have hsize := p.size_ge
  have hne : (outgoing dev m).In ≠ (outgoing dev m).Out := by
    intro h
    have hzero : hostReadableSize dev m = 0 := by
      rw [hostReadableSize, h]
      exact distance_eq dev.data_pos rfl
    omega
  rw [hostTake, if_neg hne, hfront, frontPacket_image]
  simp only
  rw [if_neg (by omega)]

/-- `Out` past the first packet drops it. -/
theorem takePast (H : OutgoingRing dev m (p :: ps)) :
    OutgoingRing dev (takePast dev m p.size) ps where
  in_le := by
    rw [in_takePast]
    exact H.in_le
  out_lt := by
    rw [out_takePast]
    exact Nat.mod_lt _ dev.data_pos
  ring := by
    rw [in_takePast, out_takePast, HvGin.takePast, outgoingData_takeStore]
    refine H.ring.dequeue ?_
    rw [Nat.mod_mod, p.length_image]

/-- From an empty ring the host takes nothing. -/
theorem take_nil (H : OutgoingRing dev m []) : hostTake dev m = none := by
  have hread := H.hostReadableSize_eq
  have hsize : 8 ≤ (frontPacket (hostReadable dev m)).2 := Nat.le_add_left _ _
  rw [usedSize_nil] at hread
  rw [hostTake]
  split
  · rfl
  · exact if_pos (by omega)

/-- A step of the host takes the first packet. -/
theorem of_hostTake (H : OutgoingRing dev m ps) (h : hostTake dev m = some (content, m')) :
    ∃ p ps', ps = p :: ps' ∧ content = p.content ∧ OutgoingRing dev m' ps' := by
  cases ps with
  | nil => rw [H.take_nil] at h; cases h
  | cons p ps =>
      rw [H.take] at h
      cases h
      exact ⟨p, ps, rfl, rfl, H.takePast⟩

end OutgoingRing

/-! ## The packets in the incoming ring -/

/-- The incoming ring of a mapping holds these packets, front first. The guest may leave
`Out` at the very end of the data area; the host keeps `In` inside it. -/
structure IncomingRing (dev : UioHvDevice) (m : Mapping) (ps : List PipePacket) : Prop where
  in_lt : (incoming dev m).In.toNat < dev.dataMaximumSize
  out_le : (incoming dev m).Out.toNat ≤ dev.dataMaximumSize
  ring : Ring (incomingData dev m) dev.dataMaximumSize (incoming dev m).In.toNat
    (incoming dev m).Out.toNat (ps.map PipePacket.image)

namespace IncomingRing

theorem empty (hIn : (incoming dev m).In = 0) (hOut : (incoming dev m).Out = 0) :
    IncomingRing dev m [] where
  in_lt := by simpa [hIn] using dev.data_pos
  out_le := by simp [hOut]
  ring := .empty dev.data_pos (by rw [hIn, hOut])

theorem used_lt (H : IncomingRing dev m ps) : usedSize ps < dev.dataMaximumSize := H.ring.used_lt

theorem hostFreeSize_eq (H : IncomingRing dev m ps) :
    hostFreeSize dev m = dev.dataMaximumSize - usedSize ps := by
  rw [hostFreeSize, H.ring.distance_eq, usedSize]

theorem index_cases (H : IncomingRing dev m ps) :
    (incoming dev m).In.toNat = (incoming dev m).Out.toNat + usedSize ps ∨
      (incoming dev m).In.toNat + dev.dataMaximumSize =
        (incoming dev m).Out.toNat + usedSize ps := by
  have hIn := H.in_lt
  have hcases := H.ring.index_cases hIn.le H.out_le
  rw [← usedSize] at hcases
  omega

/-- The readable size is what the packets take. -/
theorem readableSize_eq (H : IncomingRing dev m ps) :
    readableSize dev (incoming dev m) = usedSize ps := by
  have hIn := H.in_lt
  have hOut := H.out_le
  have hlt := H.used_lt
  have hcases := H.index_cases
  simp only [readableSize]
  split <;> omega

/-- The bytes a pop sees are the packets. -/
theorem availableBytes_eq (H : IncomingRing dev m ps) :
    availableBytes dev m = (ps.map PipePacket.image).flatten := by
  have hwindow := H.ring.holds
  rwa [Holds, ← usedSize, ← H.readableSize_eq] at hwindow

theorem incomingContents_eq (H : IncomingRing dev m ps) :
    incomingContents dev m = ps.map PipePacket.content := by
  rw [incomingContents, H.availableBytes_eq, readContents_images]

/-- The interrupt mask is not in the ring. -/
theorem interruptControl {enable : Bool} (H : IncomingRing dev m ps) :
    IncomingRing dev (interruptControl dev enable m) ps where
  in_lt := by
    rw [incoming_interruptControl]
    exact H.in_lt
  out_le := by
    rw [incoming_interruptControl]
    exact H.out_le
  ring := by
    rw [incoming_interruptControl, incomingData_interruptControl]
    exact H.ring

/-- The ring is empty exactly when all of it is free. -/
theorem hostFreeSize_eq_iff (H : IncomingRing dev m ps) :
    hostFreeSize dev m = dev.dataMaximumSize ↔ ps = [] := by
  have hlt := H.used_lt
  rw [H.hostFreeSize_eq]
  cases ps with
  | nil => simp
  | cons p ps =>
      have hsize := p.size_ge
      rw [usedSize_cons] at hlt ⊢
      simp only [reduceCtorEq, iff_false]
      omega

/-- A packet is put where it leaves a byte free. -/
theorem exists_put (H : IncomingRing dev m ps)
    (hroom : usedSize ps + p.size < dev.dataMaximumSize) : ∃ m', hostPut dev m p = some m' := by
  have hfree := H.hostFreeSize_eq
  exact ⟨_, if_pos (by omega)⟩

/-- A put adds its packet at the back. -/
theorem put (H : IncomingRing dev m ps) (h : hostPut dev m p = some m') :
    IncomingRing dev m' (ps ++ [p]) := by
  obtain ⟨hroom, E⟩ := putEffect_of_hostPut h
  have hlt := H.used_lt
  rw [H.hostFreeSize_eq] at hroom
  refine ⟨?_, ?_, ?_⟩
  · rw [E.in_eq]
    exact Nat.mod_lt _ dev.data_pos
  · rw [E.out_eq]
    exact H.out_le
  · rw [List.map_append, E.out_eq]
    refine H.ring.enqueue E.placed ?_ ?_
    · rw [p.length_image, ← usedSize]
      omega
    · rw [E.in_eq, Nat.mod_mod, p.length_image]

/-- With nothing in the ring a pop finds nothing. -/
theorem pop_nil (H : IncomingRing dev m []) : popCopy dev (incoming dev m) m = .ok none :=
  popCopy_none H.in_lt.le H.out_le (by rw [H.readableSize_eq, usedSize_nil]; omega)

/-- From inside the data area a pop consumes the first packet. -/
theorem pop (H : IncomingRing dev m (p :: ps))
    (hOut : (incoming dev m).Out.toNat < dev.dataMaximumSize) :
    Consumes dev m p.content
      (.ofNat (advance dev.dataMaximumSize (incoming dev m).Out.toNat p.size)) := by
  have hbytes : availableBytes dev m = p.image ++ (ps.map PipePacket.image).flatten := by
    rw [H.availableBytes_eq, List.map_cons, List.flatten_cons]
  exact consumes_of_image H.in_lt.le hOut hbytes

/-- The store of that pop drops the packet. -/
theorem popStore (H : IncomingRing dev m (p :: ps)) :
    IncomingRing dev (popStore dev (.ofNat (advance dev.dataMaximumSize
      (incoming dev m).Out.toNat p.size)) m) ps := by
  have hfit := dev.offsets_fit
  have hlt := H.used_lt
  rw [usedSize_cons] at hlt
  have hadvance := advance_le H.out_le (by omega : p.size ≤ dev.dataMaximumSize)
  refine ⟨?_, ?_, ?_⟩
  · rw [incoming_popStore]
    exact H.in_lt
  · rw [incoming_popStore, toNat_ofNat32 (by omega)]
    exact hadvance
  · rw [incoming_popStore, incomingData_popStore, toNat_ofNat32 (by omega)]
    refine H.ring.dequeue ?_
    rw [advance_mod, p.length_image]

/-- From the very end of the data area a pop with a packet in the ring throws. -/
theorem pop_end (H : IncomingRing dev m (p :: ps))
    (hOut : (incoming dev m).Out.toNat = dev.dataMaximumSize) :
    popCopy dev (incoming dev m) m = .error .argumentOutOfRange := by
  have hIn := H.in_lt
  have hcases := H.index_cases
  have hsize := p.size_ge
  rw [usedSize_cons] at hcases
  exact popCopy_end hIn hOut (by omega)

end IncomingRing

end HvGin
