import HvGin.PushFrame
import Mathlib.Order.Bounds.Basic

/-!
# A push writes a whole packet or nothing

Whatever the control block holds, a push that throws has left the mapping as it was.
The conversions, the alignment, the space check and the check of the first copy all come
before the first byte is written, and `storeIn_of_firstWrite` shows that behind the first
copy nothing throws any more. A push that returns has written a packet whose length
fields are exact.

## Main definitions

* `DeclaresExactly` — the sizes a packet states are those of its content.
-/
namespace HvGin

open Lib

/-- The image of a packet with `n` bytes of content states its sizes without a loss: the
descriptor the headers and the content rounded up to eight, the pipe header `n`. -/
structure DeclaresExactly (image : List UInt8) (n : ℕ) : Prop where
  length_least : IsLeast {k | 8 ∣ k ∧ 24 + n ≤ k} (PacketDescriptor.ofBytes image).length
  dataSize_eq : (PipeHeader.ofBytes (image.drop 16)).rawDataSize.toNat = n
  size_eq : image.length = (PacketDescriptor.ofBytes image).length + 8

theorem isLeast_alignUp8 (n : ℕ) : IsLeast {k | 8 ∣ k ∧ n ≤ k} (alignUp8 n) := by
  refine ⟨⟨dvd_alignUp8 n, le_alignUp8 n⟩, ?_⟩
  intro k hk
  obtain ⟨⟨j, rfl⟩, hle⟩ := hk
  simp only [alignUp8]
  omega

theorem PipePacket.declaresExactly (p : PipePacket) : DeclaresExactly p.image p.content.length := by
  have hdescriptor := p.ofBytes_image []
  have hheader := p.ofBytes_drop_image []
  have hlength := p.length_descriptor
  rw [List.append_nil] at hdescriptor hheader
  refine ⟨?_, ?_, ?_⟩
  · rw [hdescriptor]
    have h : p.descriptor.length = alignUp8 (24 + p.content.length) := by
      unfold PipePacket.size packetSize at hlength
      omega
    rw [h]
    exact isLeast_alignUp8 _
  · rw [hheader, p.dataSize_header]
  · rw [hdescriptor, p.length_image, hlength]

/-! ## Where a push can throw -/

section

variable {dev : UioHvDevice} {m t : Mapping} {c : Bytes}

/-- A bulk copy throws before it writes, or its range is in bounds. -/
theorem writeArray_cases (dev : UioHvDevice) (position : ℤ) (array : List UInt8)
    (offset count : ℤ) (m : Mapping) :
    (∃ e, (writeArray dev position array offset count).run m = (.error e, m)) ∨
      0 ≤ count ∧ position + count ≤ dev.capacity ∧
        (writeArray dev position array offset count).run m =
          (.ok ⟨⟩, blit m position.toNat ((array.drop offset.toNat).take count.toNat)) := by
  simp only [writeArray]
  by_cases hcount : offset < 0 ∨ count < 0
  · exact .inl ⟨_, Act.run_throwIf_pos hcount⟩
  rw [Act.run_throwIf_neg hcount]
  by_cases harray : (array.length : ℤ) - offset < count
  · exact .inl ⟨_, Act.run_throwIf_pos harray⟩
  rw [Act.run_throwIf_neg harray]
  by_cases hposition : position < 0 ∨ (dev.capacity : ℤ) ≤ position
  · exact .inl ⟨_, Act.run_throwIf_pos hposition⟩
  rw [Act.run_throwIf_neg hposition]
  by_cases hend : (dev.capacity : ℤ) < position + count
  · exact .inl ⟨_, Act.run_throwIf_pos hend⟩
  rw [Act.run_throwIf_neg hend]
  exact .inr ⟨by omega, by omega, Act.run_modify _ _⟩

/-- A size that fits what the computation of the space gives is split at the end of the data
area, or not at all. From an `In` out of range the first piece has a negative size. -/
theorem pushSplit_cases {cb : RingControlBlock} {size : ℕ} {r w first second : ℤ}
    (hspace : getAvailableSizeInformation dev cb = .ok (r, w)) (hroom : (size : ℤ) ≤ w)
    (hsplit : pushSplit dev cb size = .ok (first, second)) :
    first = size ∧ second = 0 ∨
      first = dev.dataMaximumSize - cb.In.toNat ∧ first < size ∧
        second = sub32 size first ∧ size ≤ dev.dataMaximumSize := by
  have hfit := dev.offsets_fit
  unfold getAvailableSizeInformation at hspace
  unfold pushSplit at hsplit
  split at hsplit
  · next hle =>
    rw [if_pos hle] at hspace
    obtain ⟨readable, hreadable, hspace⟩ := bind_eq_ok hspace
    obtain ⟨offset, hoffset, hsplit⟩ := bind_eq_ok hsplit
    obtain ⟨rfl, _, hreadable_lt⟩ := Convert.toInt32_eq_ok hreadable
    obtain ⟨rfl, _, hoffset_lt⟩ := Convert.toInt32_eq_ok hoffset
    rw [pure_eq_ok, Except.ok.injEq, Prod.mk.injEq] at hspace
    obtain ⟨_, rfl⟩ := hspace
    rw [sub32_eq (by omega) (by omega)] at hroom hsplit
    simp only at hsplit
    split at hsplit
    · next hpiece =>
      cases hsplit
      exact .inr ⟨rfl, hpiece, rfl, by omega⟩
    · cases hsplit
      exact .inl ⟨rfl, rfl⟩
  · cases hsplit
    exact .inl ⟨rfl, rfl⟩

/-- Up to the first copy nothing is written. A push that comes there has the image of a
packet, and its split. -/
theorem preparePush_cases (dev : UioHvDevice) (m : Mapping) (c : Bytes) :
    (∃ e, (preparePush dev c).run m = (.error e, m)) ∨
      ∃ (p : PipePacket) (first second : ℤ), p.content = c.data ∧
        (preparePush dev c).run m = (.ok ⟨(outgoing dev m).In, p.image, first, second⟩, m) ∧
        (first = p.size ∧ second = 0 ∨
          first = dev.dataMaximumSize - (outgoing dev m).In.toNat ∧ first < p.size ∧
            second = sub32 p.size first ∧ p.size ≤ dev.dataMaximumSize) := by
  by_cases hlong : 524280 < 24 + c.data.length
  · exact .inl ⟨_, Act.run_lift_error (pushHeaders_overflow hlong c.length_le)⟩
  have fits := not_lt.mp hlong
  have hsize := (pushPacket c.data (outgoing dev m).In fits).add32_descriptor
  have hlen := (pushPacket c.data (outgoing dev m).In fits).length_image
  rw [size_pushPacket] at hsize hlen
  rw [preparePush, Act.run_lift_ok (pushHeaders_ok (outgoing dev m).In fits),
    Act.run_bind_ok (run_getRingControlBlock_outgoing dev m)]
  simp only [hsize]
  cases hspace : getAvailableSizeInformation dev (outgoing dev m) with
  | error e => exact .inl ⟨e, Act.run_lift_error rfl⟩
  | ok sizes =>
  obtain ⟨r, w⟩ := sizes
  rw [Act.run_lift_ok rfl]
  by_cases hfull : w < (packetSize c.data.length : ℕ)
  · exact .inl ⟨_, Act.run_throwIf_pos hfull⟩
  rw [Act.run_throwIf_neg hfull, Act.run_lift_ok (packetBytes_eq _ _ _ _)]
  cases hsplit : pushSplit dev (outgoing dev m)
    (pushPacket c.data (outgoing dev m).In fits).image.length with
  | error e => exact .inl ⟨e, Act.run_lift_error hsplit⟩
  | ok pieces =>
  obtain ⟨first, second⟩ := pieces
  refine .inr ⟨pushPacket c.data (outgoing dev m).In fits, first, second, rfl, ?_, ?_⟩
  · exact Act.run_lift_ok hsplit
  · rw [hlen] at hsplit
    rw [size_pushPacket]
    exact pushSplit_cases hspace (by omega) hsplit

variable {plan : PushPlan}

/-- Without a second piece the offset behind the first is stored. -/
theorem run_storeIn_first (hnone : plan.secondWriteSize = 0)
    (hlt : plan.In.toNat + plan.packetBytes.length < 2 ^ 32) :
    (storeIn dev plan).run t =
      (.ok ⟨⟩, pushStore dev (.ofNat (plan.In.toNat + plan.packetBytes.length)) t) := by
  rw [storeIn, if_neg (by omega), Act.run_lift_ok (Convert.toUInt32_natCast hlt), Act.run_modify]

/-- With a second piece its size is stored. -/
theorem run_storeIn_second {rest : ℕ} (hrest : plan.secondWriteSize = rest) (hpos : 0 < rest)
    (hlt : rest < 2 ^ 32) :
    (storeIn dev plan).run t = (.ok ⟨⟩, pushStore dev (.ofNat rest) t) := by
  rw [storeIn, if_pos (by omega), hrest, Act.run_lift_ok (Convert.toUInt32_natCast hlt),
    Act.run_modify]

/-- Behind a first copy that returned, the second copy and the store return. -/
theorem rest_of_firstWrite (plan : PushPlan) (t : Mapping) {size : ℕ}
    (hlen : plan.packetBytes.length = size)
    (hmax : size ≤ 524288) (hcount : 0 ≤ plan.firstWriteSize)
    (hend : (dev.outgoingDataOffset + plan.In.toNat : ℕ) + plan.firstWriteSize ≤ dev.capacity)
    (hpieces : plan.firstWriteSize = size ∧ plan.secondWriteSize = 0 ∨
      plan.firstWriteSize = dev.dataMaximumSize - plan.In.toNat ∧ plan.firstWriteSize < size ∧
        plan.secondWriteSize = sub32 size plan.firstWriteSize ∧ size ≤ dev.dataMaximumSize) :
    ∃ v, (secondWrite dev plan >>= fun _ => storeIn dev plan).run t =
      (.ok ⟨⟩, pushStore dev v
        (blit t dev.outgoingDataOffset (plan.packetBytes.drop plan.firstWriteSize.toNat))) := by
  have hfit := dev.offsets_fit
  have hcap := dev.capacity_lt
  obtain ⟨front, hfront⟩ := Int.eq_ofNat_of_zero_le hcount
  rw [hfront, Int.toNat_natCast]
  rw [hfront] at hend hpieces
  rcases hpieces with ⟨hwhole, hnone⟩ | ⟨hpiece, hlt, hrest, hle⟩
  · have hsecond : (secondWrite dev plan).run t = (.ok ⟨⟩, t) := by
      rw [secondWrite, if_neg (by omega)]
      rfl
    rw [List.drop_of_length_le (by omega), blit_nil, Act.run_bind_ok hsecond]
    exact ⟨_, run_storeIn_first hnone (by omega)⟩
  · obtain ⟨rest, rfl⟩ : ∃ rest, size = front + rest := ⟨size - front, by omega⟩
    rw [sub32_eq (by omega) (by omega)] at hrest
    have hrest' : plan.secondWriteSize = (rest : ℕ) := by omega
    rw [Act.run_bind_ok (run_secondWrite_rest hfront hrest' (by omega) hlen.symm (by omega))]
    exact ⟨_, run_storeIn_second hrest' (by omega) (by omega)⟩

end

/-- **All or nothing.** A push throws and has not changed a byte of the mapping, or it returns
and has written the image of a packet, in one piece or in two, that states the sizes of its
content exactly. -/
theorem push_atomic (dev : UioHvDevice) (m : Mapping) (c : Bytes) :
    (∃ e, (pushPipePacket dev c).run m = (.error e, m)) ∨
      ∃ front back v, (pushPipePacket dev c).run m =
          (.ok ⟨⟩, pushStore dev v (blit (blit m
            (dev.outgoingDataOffset + (outgoing dev m).In.toNat) front)
            dev.outgoingDataOffset back)) ∧
        DeclaresExactly (front ++ back) c.data.length := by
  rw [pushPipePacket_eq_stages]
  rcases preparePush_cases dev m c with
    ⟨e, hprepare⟩ | ⟨p, first, second, hcontent, hprepare, hpieces⟩
  · exact .inl ⟨e, Act.run_bind_error hprepare⟩
  rw [Act.run_bind_ok hprepare]
  rcases writeArray_cases dev (dev.outgoingDataOffset + (outgoing dev m).In.toNat : ℕ) p.image 0
    first m with ⟨e, hfirst⟩ | ⟨hcount, hend, hfirst⟩
  · exact .inl ⟨e, Act.run_bind_error hfirst⟩
  rw [Int.toNat_natCast, Int.toNat_zero, List.drop_zero] at hfirst
  obtain ⟨v, hrest⟩ := rest_of_firstWrite
    ⟨(outgoing dev m).In, p.image, first, second⟩
    (blit m (dev.outgoingDataOffset + (outgoing dev m).In.toNat) (p.image.take first.toNat))
    p.length_image p.size_le hcount hend hpieces
  refine .inr ⟨_, _, v, (Act.run_bind_ok hfirst).trans hrest, ?_⟩
  rw [List.take_append_drop, ← hcontent]
  exact p.declaresExactly

end HvGin
