import HvGin.Push
import HvGin.Pop

/-!
# A pop reads back what a push wrote

One device pushes a packet at any index of an empty ring, the other pops from the same
bytes and indices. `HandedOver` is the ring on its way: the reader finds it as the
writer left it, but for bytes that were written behind the packet. They do not matter,
and neither do the place of the packet and of the end of the data area in it.
-/
namespace HvGin

open Lib

/-- The incoming ring of `m₂` is the outgoing ring of `m₁` with `k` further bytes behind
its `In`, whatever they are. -/
structure HandedOver (dev₁ dev₂ : UioHvDevice) (k : ℕ) (m₁ m₂ : Mapping) : Prop where
  out_eq : (incoming dev₂ m₂).Out = (outgoing dev₁ m₁).Out
  in_eq : (incoming dev₂ m₂).In.toNat =
    if k = 0 then (outgoing dev₁ m₁).In.toNat
    else ((outgoing dev₁ m₁).In.toNat + k) % dev₁.dataMaximumSize
  data_eq : ∀ a < dev₁.dataMaximumSize,
    (∀ j < k, ((outgoing dev₁ m₁).In.toNat + j) % dev₁.dataMaximumSize ≠ a) →
    incomingData dev₂ m₂ a = outgoingData dev₁ m₁ a

section

variable {dev₁ dev₂ : UioHvDevice} {m m₁ m₂ : Mapping} {p : PipePacket} {k : ℕ}

/-- Indices `size + k` bytes apart have as many bytes between them. -/
theorem readableSize_of_advance {dev : UioHvDevice} {cb : RingControlBlock} {size : ℕ}
    (hOut : cb.Out.toNat < dev.dataMaximumSize) (hlt : size + k < dev.dataMaximumSize)
    (hIn : cb.In.toNat = if k = 0 then advance dev.dataMaximumSize cb.Out.toNat size
      else (advance dev.dataMaximumSize cb.Out.toNat size + k) % dev.dataMaximumSize) :
    readableSize dev cb = size + k := by
  split at hIn
  · unfold advance at hIn
    simp only [readableSize]
    split_ifs at hIn ⊢ <;> omega
  · rw [Nat.add_mod, advance_mod, ← Nat.add_mod] at hIn
    by_cases hend : cb.Out.toNat + size + k < dev.dataMaximumSize
    · rw [Nat.mod_eq_of_lt hend] at hIn
      rw [readableSize, if_pos (by omega)]
      omega
    · rw [not_lt] at hend
      rw [Nat.mod_eq_sub_mod hend, Nat.mod_eq_of_lt (by omega)] at hIn
      rw [readableSize, if_neg (by omega)]
      omega

namespace HandedOver

theorem in_le (H : HandedOver dev₁ dev₂ k m₁ m₂)
    (hIn : (outgoing dev₁ m₁).In.toNat ≤ dev₁.dataMaximumSize) :
    (incoming dev₂ m₂).In.toNat ≤ dev₁.dataMaximumSize := by
  have hpos := dev₁.data_pos
  rw [H.in_eq]
  split
  · exact hIn
  · exact (Nat.mod_lt _ hpos).le

/-- The packet is found where it was written. -/
theorem window_eq (H : HandedOver dev₁ dev₂ k m₁ m₂) (E : PushEffect dev₁ m m₁ p)
    (hlt : p.size + k < dev₁.dataMaximumSize) :
    window (incomingData dev₂ m₂) dev₁.dataMaximumSize (outgoing dev₁ m).In.toNat p.size =
      p.image := by
  have himage := E.placed.window_self
  rw [p.length_image] at himage
  rw [← himage]
  refine window_congr fun i hi => H.data_eq _ (Nat.mod_lt _ (by omega)) ?_
  intro j hj heq
  rw [E.in_eq, Nat.add_mod, advance_mod, ← Nat.add_mod, Nat.add_assoc] at heq
  have := add_mod_inj (by omega) (by omega) heq
  omega

/-- Its image is at the front of what the reader sees. -/
theorem availableBytes_eq (H : HandedOver dev₁ dev₂ k m₁ m₂) (E : PushEffect dev₁ m m₁ p)
    (hD : dev₂.dataMaximumSize = dev₁.dataMaximumSize)
    (hempty : (outgoing dev₁ m).Out = (outgoing dev₁ m).In)
    (hIn : (outgoing dev₁ m).In.toNat < dev₁.dataMaximumSize)
    (hlt : p.size + k < dev₁.dataMaximumSize) :
    ∃ rest, availableBytes dev₂ m₂ = p.image ++ rest := by
  have hOut : (incoming dev₂ m₂).Out = (outgoing dev₁ m).In := by
    rw [H.out_eq, E.out_eq, hempty]
  have hindex := H.in_eq
  rw [E.in_eq, ← hOut, ← hD] at hindex
  have hsize := readableSize_of_advance (by rw [hOut, hD]; exact hIn) (by rw [hD]; exact hlt) hindex
  rw [availableBytes, readableBytes, hsize, window_append, hOut, hD, H.window_eq E hlt]
  exact ⟨_, rfl⟩

end HandedOver

end

/-- **Round trip.** From any index of an empty ring that holds the longest packet, a push of
content that its length field describes returns. The ring it leaves, with any further bytes
behind the packet, pops as that content, and the pop stores the index behind the packet. -/
theorem pop_of_push (dev₁ dev₂ : UioHvDevice) (m : Mapping) (c : Bytes)
    (hD : dev₂.dataMaximumSize = dev₁.dataMaximumSize) (hlarge : 524288 < dev₁.dataMaximumSize)
    (hempty : (outgoing dev₁ m).Out = (outgoing dev₁ m).In)
    (hIn : (outgoing dev₁ m).In.toNat < dev₁.dataMaximumSize)
    (fits : 24 + c.data.length ≤ 524280) :
    ∃ m₁, (pushPipePacket dev₁ c).run m = (.ok ⟨⟩, m₁) ∧
      ∀ k m₂, packetSize c.data.length + k < dev₁.dataMaximumSize →
        HandedOver dev₁ dev₂ k m₁ m₂ →
        ∃ m₃, (popPipePacket dev₂).run m₂ = (.ok c.data, m₃) ∧
          (incoming dev₂ m₃).Out.toNat % dev₁.dataMaximumSize =
            ((outgoing dev₁ m).In.toNat + packetSize c.data.length) % dev₁.dataMaximumSize := by
  have hfit := dev₁.offsets_fit
  have hle := (pushPacket c.data (outgoing dev₁ m).In fits).size_le
  rw [size_pushPacket] at hle
  have hspace : writableSize dev₁ (outgoing dev₁ m) = dev₁.dataMaximumSize := by
    rw [writableSize, hempty, if_pos le_rfl, Nat.sub_self, Nat.sub_zero]
  obtain ⟨m₁, hrun, heffect⟩ :=
    run_pushPipePacket hIn.le (by rw [hempty]; exact hIn.le) fits (by omega)
  refine ⟨m₁, hrun, ?_⟩
  intro k m₂ hk hover
  have hOut : (incoming dev₂ m₂).Out = (outgoing dev₁ m).In := by
    rw [hover.out_eq, heffect.out_eq, hempty]
  have hadvance := advance_le hIn.le (by omega : packetSize c.data.length ≤ dev₁.dataMaximumSize)
  have hIn₂ := hover.in_le (by rw [heffect.in_eq]; exact hadvance)
  obtain ⟨rest, hbytes⟩ := hover.availableBytes_eq heffect hD hempty hIn hk
  have hconsumes := consumes_of_image (by omega) (by rw [hOut, hD]; exact hIn) hbytes
  refine ⟨_, run_popPipePacket_consumes hconsumes, ?_⟩
  rw [incoming_popStore, hOut, hD]
  change (UInt32.ofNat (advance _ _ (packetSize c.data.length))).toNat % _ = _
  rw [toNat_ofNat32 (by omega), advance_mod]

/-- The rings as the other side maps them: what one writes the other reads. -/
def crossed (dev : UioHvDevice) (m : Mapping) : Mapping := fun a => m (a - dev.incomingControlOffset)

theorem handedOver_crossed (dev : UioHvDevice) (m : Mapping) :
    HandedOver dev dev 0 m (crossed dev m) := by
  have hblock : incoming dev (crossed dev m) = outgoing dev m := by
    simp only [incoming, outgoing, controlBlock, readUInt32, slice, crossed, Nat.add_assoc,
      Nat.add_sub_cancel_left, UioHvDevice.outgoingControlOffset, Nat.zero_add]
  refine ⟨by rw [hblock], by rw [hblock, if_pos rfl], ?_⟩
  intro a _ _
  change m (dev.incomingControlOffset + dev.controlMaximumSize + a - dev.incomingControlOffset) = _
  rw [Nat.add_assoc, Nat.add_sub_cancel_left]
  rfl

/-- A packet pushed into the driver's rings when they are empty pops on the other side. -/
theorem pop_of_push_crossed : ∃ m₁ m₃,
    (pushPipePacket .defaultRings ⟨[1, 2, 3], by simp⟩).run (fun _ => 0) = (.ok ⟨⟩, m₁) ∧
      (popPipePacket .defaultRings).run (crossed .defaultRings m₁) = (.ok [1, 2, 3], m₃) := by
  have hIn : (outgoing .defaultRings fun _ => 0).In.toNat <
      UioHvDevice.defaultRings.dataMaximumSize := by decide
  obtain ⟨m₁, hpush, hpop⟩ := pop_of_push .defaultRings .defaultRings (fun _ => 0)
    ⟨[1, 2, 3], by simp⟩ rfl (by decide) rfl hIn (by simp)
  obtain ⟨m₃, hrun, _⟩ := hpop 0 (crossed .defaultRings m₁) (by decide)
    (handedOver_crossed .defaultRings m₁)
  exact ⟨m₁, m₃, hpush, hrun⟩

end HvGin
