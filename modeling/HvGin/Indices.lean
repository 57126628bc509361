import HvGin.Host
import HvGin.Lib.Exec

/-!
# The range of the indices

Both rings of one mapping, moved by all four operations in any order. `Advanced` says
that a step moves its index past the packet modulo the size of the data area, which
keeps it inside; `InRange` that every index is inside.

Neither operation of the guest takes a remainder. Each starts over only when the packet
passes the end of the data area, so the one packet that ends exactly there takes the
index out of range, whatever the packet is and however it came to stand there.
-/
namespace HvGin.Indices

open Lib

inductive Label
  /-- The guest pushes a content, and the push returns. -/
  | push (content : Bytes)
  /-- The guest pops, and the pop returns. -/
  | pop
  /-- The host takes a packet of the outgoing ring. -/
  | take
  /-- The host puts a packet into the incoming ring. -/
  | put (p : PipePacket)

variable (dev : UioHvDevice)

def step (m : Mapping) : Label → Option Mapping
  | .push content => ((pushPipePacket dev content).result? m).map Prod.snd
  | .pop => ((popPipePacket dev).result? m).map Prod.snd
  | .take => (hostTake dev m).map Prod.snd
  | .put p => hostPut dev m p

/-- Every index of the two rings is inside the data area. -/
structure InRange (m : Mapping) : Prop where
  outgoing_in : (outgoing dev m).In.toNat < dev.dataMaximumSize
  outgoing_out : (outgoing dev m).Out.toNat < dev.dataMaximumSize
  incoming_in : (incoming dev m).In.toNat < dev.dataMaximumSize
  incoming_out : (incoming dev m).Out.toNat < dev.dataMaximumSize

/-- The size of the packet at the incoming `Out`, by its descriptor. -/
def frontSize (m : Mapping) : ℕ := (frontDescriptor (availableBytes dev m)).length + 8

/-- What an operation of the guest is to do to its index. -/
def Advanced (m : Mapping) (l : Label) (m' : Mapping) : Prop :=
  match l with
  | .push content =>
      (outgoing dev m').In.toNat < dev.dataMaximumSize ∧
      (outgoing dev m').In.toNat =
        ((outgoing dev m).In.toNat + packetSize content.data.length) % dev.dataMaximumSize
  | .pop =>
      (incoming dev m').Out.toNat < dev.dataMaximumSize ∧
      (incoming dev m').Out.toNat =
        if poppedContent dev m = none then (incoming dev m).Out.toNat
        else ((incoming dev m).Out.toNat + frontSize dev m) % dev.dataMaximumSize
  | .take => True
  | .put _ => True

/-- The packet of the operation does not end exactly at the end of the data area. Fewer
readable bytes than the two headers are no packet for a pop. -/
def EndsElsewhere (m : Mapping) : Label → Prop
  | .push content =>
      (outgoing dev m).In.toNat + packetSize content.data.length ≠ dev.dataMaximumSize
  | .pop => 24 ≤ readableSize dev (incoming dev m) →
      (incoming dev m).Out.toNat + frontSize dev m ≠ dev.dataMaximumSize
  | .take => True
  | .put _ => True

variable {dev} {m m' : Mapping} {content : Bytes}

/-- A push step writes a packet at `In`. -/
theorem push_of_step (hrange : InRange dev m) (h : step dev m (.push content) = some m') :
    packetSize content.data.length ≤ dev.dataMaximumSize ∧
      ∃ p : PipePacket, p.size = packetSize content.data.length ∧ PushEffect dev m m' p := by
  have hIn := hrange.outgoing_in
  have hOut := hrange.outgoing_out
  obtain ⟨⟨⟨⟩, m'⟩, hrun, rfl⟩ := Option.map_eq_some_iff.mp h
  obtain ⟨fits, hroom, effect⟩ :=
    pushEffect_of_run hIn.le hOut.le (Act.result?_eq_some.mp hrun)
  exact ⟨hroom.trans (writableSize_le hOut.le), _, size_pushPacket fits, effect⟩

/-- A pop step finds nothing and changes nothing, or moves `Out` past the packet there. -/
theorem pop_of_step (hrange : InRange dev m) (h : step dev m .pop = some m') :
    (readableSize dev (incoming dev m) < 24 ∧ poppedContent dev m = none ∧ m' = m) ∨
    (24 ≤ readableSize dev (incoming dev m) ∧ poppedContent dev m ≠ none ∧
      frontSize dev m ≤ dev.dataMaximumSize ∧ ∃ v : UInt32, m' = popStore dev v m ∧
      v.toNat = advance dev.dataMaximumSize (incoming dev m).Out.toNat (frontSize dev m)) := by
  have hIn := hrange.incoming_in.le
  have hOut := hrange.incoming_out
  obtain ⟨⟨content, m'⟩, hrun, rfl⟩ := Option.map_eq_some_iff.mp h
  rcases run_popPipePacket_of_ok (Act.result?_eq_some.mp hrun) with
    ⟨v, hconsumes, rfl⟩ | ⟨hnone, rfl, rfl⟩
  · obtain ⟨size, hdecoded, hv⟩ := hconsumes.decoded hIn hOut
    have hsize : size = frontSize dev m := by exact_mod_cast hdecoded.size_eq
    have hlen := hdecoded.length_le
    rw [length_readableBytes] at hlen
    have hoffset := hdecoded.offset_ge
    have hoffset' := hdecoded.offset_le
    have hle := hlen.trans (readableSize_le hIn)
    refine Or.inr ⟨by omega, by simp [hconsumes.poppedContent_eq], hle, v, rfl, ?_⟩
    rw [hv, hsize]
  · refine Or.inl ⟨?_, poppedContent_of_none hnone, rfl⟩
    rw [popCopy_eq hIn hOut] at hnone
    by_contra hge
    rw [if_neg hge] at hnone
    obtain ⟨_, _, hnone⟩ := bind_eq_ok hnone
    cases hnone

/-- An operation of the guest that returns moves its index as it is to, if and only if
its packet does not end exactly at the end of the data area. -/
theorem advanced_iff {l : Label} (hrange : InRange dev m) (h : step dev m l = some m') :
    Advanced dev m l m' ↔ EndsElsewhere dev m l := by
  cases l with
  | push content =>
      obtain ⟨hle, p, hsize, effect⟩ := push_of_step hrange h
      rw [Advanced, effect.in_eq, hsize]
      exact advance_eq_mod_iff hrange.outgoing_in hle
  | pop =>
      rcases pop_of_step hrange h with ⟨hshort, hnone, rfl⟩ | ⟨hlong, hsome, hle, v, rfl, hv⟩
      · rw [Advanced, if_pos hnone]
        exact iff_of_true ⟨hrange.incoming_out, rfl⟩ fun h24 => by omega
      · rw [Advanced, if_neg hsome, incoming_popStore, hv,
          advance_eq_mod_iff hrange.incoming_out hle]
        exact ⟨fun hne _ => hne, fun hne => hne hlong⟩
  | take => exact Iff.rfl
  | put p => exact Iff.rfl

/-- Such a step keeps every index in range. -/
theorem inRange_step {l : Label} (hrange : InRange dev m) (hends : EndsElsewhere dev m l)
    (h : step dev m l = some m') : InRange dev m' := by
  have hfit := dev.offsets_fit
  have hadvanced := (advanced_iff hrange h).mpr hends
  cases l with
  | push content =>
      obtain ⟨_, p, _, effect⟩ := push_of_step hrange h
      refine ⟨hadvanced.1, ?_, ?_, ?_⟩
      · rw [effect.out_eq]
        exact hrange.outgoing_out
      · rw [effect.incoming_eq]
        exact hrange.incoming_in
      · rw [effect.incoming_eq]
        exact hrange.incoming_out
  | pop =>
      rcases pop_of_step hrange h with ⟨_, _, rfl⟩ | ⟨_, _, _, v, rfl, _⟩
      · exact hrange
      · refine ⟨?_, ?_, ?_, hadvanced.1⟩
        · rw [outgoing_popStore]
          exact hrange.outgoing_in
        · rw [outgoing_popStore]
          exact hrange.outgoing_out
        · rw [incoming_popStore]
          exact hrange.incoming_in
  | take =>
      obtain ⟨⟨c, m'⟩, htake, rfl⟩ := Option.map_eq_some_iff.mp h
      obtain ⟨size, rfl⟩ := takePast_of_hostTake htake
      refine ⟨?_, ?_, ?_, ?_⟩
      · rw [in_takePast]
        exact hrange.outgoing_in
      · rw [out_takePast]
        exact Nat.mod_lt _ dev.data_pos
      · rw [takePast, incoming_takeStore]
        exact hrange.incoming_in
      · rw [takePast, incoming_takeStore]
        exact hrange.incoming_out
  | put p =>
      obtain ⟨_, effect⟩ := putEffect_of_hostPut h
      refine ⟨?_, ?_, ?_, ?_⟩
      · rw [effect.outgoing_eq]
        exact hrange.outgoing_in
      · rw [effect.outgoing_eq]
        exact hrange.outgoing_out
      · rw [effect.in_eq]
        exact Nat.mod_lt _ dev.data_pos
      · rw [effect.out_eq]
        exact hrange.incoming_out

/-- Any other step takes an index out of range. -/
theorem not_inRange_step {l : Label} (hrange : InRange dev m) (hends : ¬ EndsElsewhere dev m l)
    (h : step dev m l = some m') : ¬ InRange dev m' := by
  cases l with
  | push content =>
      obtain ⟨hle, p, hsize, effect⟩ := push_of_step hrange h
      intro hrange'
      have hlt := hrange'.outgoing_in
      rw [effect.in_eq, hsize, advance_lt_iff hrange.outgoing_in hle] at hlt
      exact hends hlt
  | pop =>
      rcases pop_of_step hrange h with ⟨hshort, _, _⟩ | ⟨_, _, hle, v, rfl, hv⟩
      · exact absurd (fun h24 => by omega) hends
      · intro hrange'
        have hlt := hrange'.incoming_out
        rw [incoming_popStore, hv, advance_lt_iff hrange.incoming_out hle] at hlt
        exact hends fun _ => hlt
  | take => exact absurd trivial hends
  | put p => exact absurd trivial hends

/-- **The range of the indices.** From indices inside the data areas, an operation of the
guest that returns stores the sum modulo the size of the data area, and a run keeps all
indices inside, if and only if no packet pushed or popped ends exactly at the end of a
data area. -/
theorem inRange_iff (dev : UioHvDevice) (m : Mapping) (hrange : InRange dev m) :
    (∀ l m', step dev m l = some m' → (Advanced dev m l m' ↔ EndsElsewhere dev m l)) ∧
    ∀ ls, Always (step dev) (InRange dev) m ls ↔ Meets (step dev) (EndsElsewhere dev) m ls :=
  ⟨fun _ _ => advanced_iff hrange, fun _ =>
    always_iff_of_invariant (fun _ => id) (fun _ _ _ => inRange_step)
      (fun _ _ _ => not_inRange_step) hrange⟩

/-- Pushes that together reach the end of the data area take `In` out of range. -/
theorem not_inRange_of_fill (contents : List Bytes) (hne : contents ≠ [])
    (fits : ∀ c ∈ contents, 24 + c.data.length ≤ 524280) (hrange : InRange dev m)
    (hOut : (outgoing dev m).Out.toNat = 0)
    (hfill : (outgoing dev m).In.toNat + (contents.map fun c => packetSize c.data.length).sum =
      dev.dataMaximumSize) :
    ¬ Always (step dev) (InRange dev) m (contents.map Label.push) := by
  induction contents generalizing m with
  | nil => exact absurd rfl hne
  | cons c contents ih =>
      have hsize := packetSize_ge c.data.length
      have hfits := fits c List.mem_cons_self
      rw [List.map_cons, List.sum_cons] at hfill
      have hspace : writableSize dev (outgoing dev m) =
          dev.dataMaximumSize - (outgoing dev m).In.toNat := by
        rw [writableSize, if_pos (by omega), hOut, Nat.sub_zero]
      obtain ⟨m', hrun, effect⟩ :=
        run_pushPipePacket hrange.outgoing_in.le hrange.outgoing_out.le hfits (by omega)
      have hstep : step dev m (.push c) = some m' := by
        rw [step, Act.result?_eq_some.mpr hrun, Option.map_some]
      rintro ⟨_, H⟩
      cases contents with
      | nil =>
          have hend : ¬ EndsElsewhere dev m (.push c) := by
            rw [List.map_nil, List.sum_nil, Nat.add_zero] at hfill
            exact not_not.mpr hfill
          exact not_inRange_step hrange hend hstep (H m' hstep).here
      | cons d contents =>
          have hIn := effect.in_eq
          rw [size_pushPacket, advance, if_neg (by omega)] at hIn
          refine ih (by simp) (fun x hx => fits x (List.mem_cons_of_mem _ hx)) (H m' hstep).here ?_
            (by omega) (H m' hstep)
          rw [effect.out_eq, hOut]

/-- Four packets up to the end of the rings of the driver. -/
theorem not_inRange_of_length {big last : Bytes} (hbig : big.data.length = 524256)
    (hlast : last.data.length = 520160) :
    ¬ Always (step .defaultRings) (InRange .defaultRings) (fun _ => 0)
      [.push big, .push big, .push big, .push last] := by
  have hrange : InRange .defaultRings fun _ => 0 := ⟨by decide, by decide, by decide, by decide⟩
  refine not_inRange_of_fill [big, big, big, last] (by simp) ?_ hrange (by decide) ?_
  · simp [hbig, hlast]
  · rw [show (outgoing .defaultRings fun _ => 0).In = 0 from rfl]
    simp [hbig, hlast, packetSize, alignUp8, UioHvDevice.defaultRings]

/-- The run of four such pushes from empty rings: `In` ends at `2093056`. -/
theorem not_inRange_four_pushes :
    ¬ Always (step .defaultRings) (InRange .defaultRings) (fun _ => 0)
      [.push (.zeros 524256 (by decide)), .push (.zeros 524256 (by decide)),
        .push (.zeros 524256 (by decide)), .push (.zeros 520160 (by decide))] :=
  not_inRange_of_length (Bytes.length_zeros _ _) (Bytes.length_zeros _ _)

/-- A packet that ends elsewhere, from empty rings. -/
theorem inRange_push : Always (step .defaultRings) (InRange .defaultRings) (fun _ => 0)
    [.push (.zeros 100 (by decide)), .take] := by
  have hrange : InRange .defaultRings fun _ => 0 := ⟨by decide, by decide, by decide, by decide⟩
  refine ((inRange_iff .defaultRings _ hrange).2 _).mpr ?_
  intro m' _
  refine ⟨?_, fun _ _ => ⟨trivial, trivial⟩⟩
  change (outgoing .defaultRings fun _ => 0).In.toNat + packetSize (Bytes.zeros 100 _).data.length ≠ _
  rw [Bytes.length_zeros]
  decide

end HvGin.Indices
