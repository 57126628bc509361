import HvGin.Containment

/-!
# Rotation of the incoming ring

A pop that finds `Out` above `In` reads in two pieces and wraps the index it stores; one that
finds it below does neither. Turning the ring, indices and bytes alike, takes a state from
one path to the other. The outcome is the same and the stored index turns with the ring,
whatever the bytes are.
-/
namespace HvGin

open Lib

/-- `m'` has the incoming ring of `m`, turned by `k`. -/
structure Rotated (dev : UioHvDevice) (k : ℕ) (m m' : Mapping) : Prop where
  in_eq : (incoming dev m').In.toNat = ((incoming dev m).In.toNat + k) % dev.dataMaximumSize
  out_eq : (incoming dev m').Out.toNat = ((incoming dev m).Out.toNat + k) % dev.dataMaximumSize
  data_eq : ∀ j < dev.dataMaximumSize,
    incomingData dev m' ((j + k) % dev.dataMaximumSize) = incomingData dev m j

/-- Two runs of `PopPipePacket` with the same outcome: both return the same bytes and store
nothing, both throw the same exception and store nothing, or both return the same content and
store indices that differ by `k`. -/
inductive SameOutcome (dev : UioHvDevice) (k : ℕ) (m m' : Mapping) : Prop
  | returned (content : List UInt8) (h : (popPipePacket dev).run m = (.ok content, m))
      (h' : (popPipePacket dev).run m' = (.ok content, m'))
  | threw (e : Exn) (h : (popPipePacket dev).run m = (.error e, m))
      (h' : (popPipePacket dev).run m' = (.error e, m'))
  | stored (content : List UInt8) (v v' : UInt32)
      (h : (popPipePacket dev).run m = (.ok content, popStore dev v m))
      (h' : (popPipePacket dev).run m' = (.ok content, popStore dev v' m'))
      (hv : v'.toNat % dev.dataMaximumSize = (v.toNat + k) % dev.dataMaximumSize)

section

variable {dev : UioHvDevice} {m m' : Mapping} {k : ℕ} {cb : RingControlBlock}

/-- Reading on from `Out` for the readable size comes to `In`. -/
theorem readableSize_mod (hIn : cb.In.toNat < dev.dataMaximumSize)
    (hOut : cb.Out.toNat < dev.dataMaximumSize) :
    (cb.Out.toNat + readableSize dev cb) % dev.dataMaximumSize = cb.In.toNat := by
  simp only [readableSize]
  split
  · rw [Nat.add_sub_cancel' ‹_›, Nat.mod_eq_of_lt hIn]
  · rw [show cb.Out.toNat + (dev.dataMaximumSize - (cb.Out.toNat - cb.In.toNat)) =
      cb.In.toNat + dev.dataMaximumSize by omega, Nat.add_mod_right, Nat.mod_eq_of_lt hIn]

/-- For indices inside the data area the readable size is the distance between them. -/
theorem readableSize_eq_distance (hIn : cb.In.toNat < dev.dataMaximumSize)
    (hOut : cb.Out.toNat < dev.dataMaximumSize) :
    readableSize dev cb = distance dev.dataMaximumSize cb.In.toNat cb.Out.toNat := by
  have hlt : readableSize dev cb < dev.dataMaximumSize := by
    simp only [readableSize]
    split <;> omega
  exact (distance_eq hlt (by rw [readableSize_mod hIn hOut, Nat.mod_eq_of_lt hIn])).symm

namespace Rotated

variable (H : Rotated dev k m m')
include H

/-- The turned ring has its indices inside the data area as well. -/
theorem in_lt : (incoming dev m').In.toNat < dev.dataMaximumSize := by
  rw [H.in_eq]
  exact Nat.mod_lt _ dev.data_pos

theorem out_lt : (incoming dev m').Out.toNat < dev.dataMaximumSize := by
  rw [H.out_eq]
  exact Nat.mod_lt _ dev.data_pos

theorem readableSize_eq (hIn : (incoming dev m).In.toNat < dev.dataMaximumSize)
    (hOut : (incoming dev m).Out.toNat < dev.dataMaximumSize) :
    readableSize dev (incoming dev m') = readableSize dev (incoming dev m) := by
  rw [readableSize_eq_distance H.in_lt H.out_lt, readableSize_eq_distance hIn hOut, H.in_eq, H.out_eq,
    distance_rotate dev.data_pos]

/-- A pop sees the same bytes in the turned ring. -/
theorem readableBytes_eq (hIn : (incoming dev m).In.toNat < dev.dataMaximumSize)
    (hOut : (incoming dev m).Out.toNat < dev.dataMaximumSize) :
    readableBytes dev (incoming dev m') m' = readableBytes dev (incoming dev m) m := by
  rw [readableBytes, readableBytes, H.readableSize_eq hIn hOut, H.out_eq,
    window_rotate dev.data_pos H.data_eq]

end Rotated

end

/-- **Rotation.** From indices inside the data area and whatever bytes in it, a pop has the
same outcome in the ring and in the ring turned by any number of bytes. -/
theorem sameOutcome_of_rotated (dev : UioHvDevice) (m m' : Mapping) (k : ℕ)
    (hIn : (incoming dev m).In.toNat < dev.dataMaximumSize)
    (hOut : (incoming dev m).Out.toNat < dev.dataMaximumSize) (H : Rotated dev k m m') :
    SameOutcome dev k m m' := by
  have hfit := dev.offsets_fit
  have hread := readableSize_le hIn.le
  have hcopy := popCopy_eq (m := m) hIn.le hOut
  have hcopy' := popCopy_eq (m := m') H.in_lt.le H.out_lt
  rw [H.readableSize_eq hIn hOut, H.readableBytes_eq hIn hOut] at hcopy'
  by_cases hshort : readableSize dev (incoming dev m) < 24
  · rw [if_pos hshort] at hcopy hcopy'
    exact .returned [] (run_popPipePacket_none hcopy) (run_popPipePacket_none hcopy')
  rw [if_neg hshort] at hcopy hcopy'
  cases hdecode : decodePacket (readableBytes dev (incoming dev m) m) with
  | error e =>
      rw [hdecode, error_bind] at hcopy hcopy'
      exact .threw e (run_popPipePacket_error hcopy) (run_popPipePacket_error hcopy')
  | ok r =>
      obtain ⟨content, size⟩ := r
      have hdecoded := decoded_of_decodePacket hdecode
      have hlength := hdecoded.length_le
      rw [length_readableBytes] at hlength
      have hsize : size.toNat ≤ dev.dataMaximumSize := by
        have := hdecoded.size_eq
        omega
      have hadvance := advance_le hOut.le hsize
      have hadvance' := advance_le H.out_lt.le hsize
      rw [hdecode, ok_bind] at hcopy hcopy'
      refine .stored content _ _ (run_popPipePacket_consumes hcopy)
        (run_popPipePacket_consumes hcopy') ?_
      simp only
      rw [toNat_ofNat32 (by omega), toNat_ofNat32 (by omega), advance_mod, H.out_eq, Nat.mod_add_mod,
        Nat.add_mod (advance _ _ _), advance_mod, ← Nat.add_mod, Nat.add_right_comm]

/-! ## The turned ring -/

/-- The mapping with its incoming ring turned by `k`. -/
def turn (dev : UioHvDevice) (k : ℕ) (m : Mapping) : Mapping :=
  popStore dev (.ofNat (((incoming dev m).Out.toNat + k) % dev.dataMaximumSize))
    (writeUInt32 dev.incomingControlOffset
      (.ofNat (((incoming dev m).In.toNat + k) % dev.dataMaximumSize)) fun a =>
        if dev.incomingDataOffset ≤ a then incomingData dev m
          ((a - dev.incomingDataOffset + (dev.dataMaximumSize - k % dev.dataMaximumSize)) %
            dev.dataMaximumSize)
        else m a)

theorem rotated_turn (dev : UioHvDevice) (k : ℕ) (m : Mapping) :
    Rotated dev k m (turn dev k m) := by
  have hfit := dev.offsets_fit
  have hpage := dev.control_fits
  have hdata : dev.incomingDataOffset = dev.incomingControlOffset + dev.controlMaximumSize := rfl
  have hIn := Nat.mod_lt ((incoming dev m).In.toNat + k) dev.data_pos
  have hOut := Nat.mod_lt ((incoming dev m).Out.toNat + k) dev.data_pos
  refine ⟨?_, ?_, ?_⟩
  · rw [turn, incoming_popStore]
    change (readUInt32 (writeUInt32 _ _ _) _).toNat = _
    rw [readUInt32_writeUInt32, toNat_ofNat32 (by omega)]
  · rw [turn, incoming_popStore, toNat_ofNat32 (by omega)]
  · intro j hj
    have hk := Nat.mod_lt k dev.data_pos
    rw [turn, incomingData_popStore, incomingData, writeUInt32_apply (Or.inr (by omega)),
      if_pos (Nat.le_add_right _ _), Nat.add_sub_cancel_left, Nat.mod_add_mod]
    congr 1
    have hmod := Nat.div_add_mod k dev.dataMaximumSize
    rw [show j + k + (dev.dataMaximumSize - k % dev.dataMaximumSize) =
      j + dev.dataMaximumSize * (k / dev.dataMaximumSize + 1) by rw [Nat.mul_add]; omega,
      Nat.add_mul_mod_self_left, Nat.mod_eq_of_lt hj]

/-- A packet at the front of the ring, and the same packet across the end of it: both are
popped. -/
theorem sameOutcome_across_end : ∃ v v' : UInt32,
    (popPipePacket .defaultRings).run (filledMapping forgedBytes) =
      (.ok [11, 12, 13, 14, 15, 16, 17, 18], popStore .defaultRings v (filledMapping forgedBytes)) ∧
    (popPipePacket .defaultRings).run (turn .defaultRings 2093040 (filledMapping forgedBytes)) =
      (.ok [11, 12, 13, 14, 15, 16, 17, 18],
        popStore .defaultRings v' (turn .defaultRings 2093040 (filledMapping forgedBytes))) ∧
    v.toNat = 24 ∧ v'.toNat % 2093056 = 8 := by
  have hshort : forgedBytes.length < 2093056 := by decide
  obtain ⟨hIn, hOut⟩ := incoming_filledMapping hshort
  have hdecode : decodePacket forgedBytes = .ok ([11, 12, 13, 14, 15, 16, 17, 18], 24) := by
    decide +kernel
  have hpop := run_popPipePacket_consumes (consumes_filledMapping hshort (by decide) hdecode)
  have hstore : (UInt32.ofNat (advance UioHvDevice.defaultRings.dataMaximumSize 0
      (24 : ℤ).toNat)).toNat = 24 := by decide
  generalize UInt32.ofNat (advance _ _ _) = v at hpop hstore
  have hsame := sameOutcome_of_rotated .defaultRings (filledMapping forgedBytes) _ 2093040
    (by rw [hIn]; exact hshort) (by rw [hOut]; decide) (rotated_turn _ _ _)
  have hstored (w : UInt32) : (incoming .defaultRings
      (popStore .defaultRings w (filledMapping forgedBytes))).Out = w := by
    rw [incoming_popStore]
  cases hsame with
  | returned content h h' =>
      have hmapping := (Prod.mk.inj (hpop.symm.trans h)).2
      have hv := hstored v
      rw [hmapping, hOut] at hv
      rw [← hv] at hstore
      cases hstore
  | threw e h h' => cases (Prod.mk.inj (hpop.symm.trans h)).1
  | stored content w w' h h' hw =>
      obtain ⟨hcontent, hmapping⟩ := Prod.mk.inj (hpop.symm.trans h)
      obtain rfl := Except.ok.inj hcontent
      obtain rfl : v = w := by rw [← hstored v, hmapping, hstored]
      refine ⟨v, w', hpop, h', hstore, ?_⟩
      rw [hstore] at hw
      exact hw

end HvGin
