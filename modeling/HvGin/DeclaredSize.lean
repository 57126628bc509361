import HvGin.Containment

/-!
# The declared size of a content

The pop converts `DataSize` to an `int` and compares the bytes behind the header with that
`int` plus the size of the header, in `int` arithmetic that wraps. The conversion rejects
the upper half of the 32-bit range. Just below it stand eight values that it lets pass and
that overflow in the addition; for these the comparison is made with a negative number.
-/
namespace HvGin

open Lib

/-- The bytes that are present behind the pipe header. -/
def presentSize (dev : UioHvDevice) (m : Mapping) : ℕ :=
  readableSize dev (incoming dev m) - (frontDataOffset dev m + pipeHeaderSize)

/-- The declared size is honoured: a content that is popped has it, and where fewer bytes
are present the pop throws and changes nothing. -/
structure SizeHonoured (dev : UioHvDevice) (m : Mapping) : Prop where
  returned : ∀ content m', (popPipePacket dev).run m = (.ok content, m') →
    poppedContent dev m = some content → content.length = frontDataSize dev m
  rejected : 24 ≤ readableSize dev (incoming dev m) → presentSize dev m < frontDataSize dev m →
    ∃ e, (popPipePacket dev).run m = (.error e, m)

/-- The packet at `Out` passes the checks that come before that of `DataSize`. -/
structure ReachesDataSize (dev : UioHvDevice) (m : Mapping) : Prop where
  headers_fit : 24 ≤ readableSize dev (incoming dev m)
  type_eq : (frontDescriptor (availableBytes dev m)).type = .dataInBand
  offset_ge : packetDescriptorSize ≤ frontDataOffset dev m
  offset_le : frontDataOffset dev m ≤ frontLength dev m
  length_le : frontLength dev m + 8 ≤ readableSize dev (incoming dev m)
  header_type : (frontHeader (availableBytes dev m)).type = .data

/-- One of the eight values that pass the conversion and overflow in the addition. -/
def Overflows (dev : UioHvDevice) (m : Mapping) : Prop :=
  2 ^ 31 - 8 ≤ frontDataSize dev m ∧ frontDataSize dev m < 2 ^ 31

section

variable {dev : UioHvDevice} {m : Mapping} {content : List UInt8} {size : ℤ}

/-- A packet that is consumed has passed the checks. -/
theorem Decoded.reaches (H : Decoded (availableBytes dev m) content size)
    (hread : 24 ≤ readableSize dev (incoming dev m)) : ReachesDataSize dev m where
  headers_fit := hread
  type_eq := H.type_eq
  offset_ge := H.offset_ge
  offset_le := H.frontDataOffset_le
  length_le := H.frontLength_le
  header_type := H.header_type

/-- A consumed content has the declared size, unless that overflows. -/
theorem Decoded.length_eq_frontDataSize (H : Decoded (availableBytes dev m) content size)
    (hIn : (incoming dev m).In.toNat ≤ dev.dataMaximumSize) (hover : ¬ Overflows dev m) :
    content.length = frontDataSize dev m := by
  have hfit := dev.offsets_fit
  have hpage := dev.control_fits
  have hlt : frontDataSize dev m < 2 ^ 31 := H.dataSize_lt
  have hheader : pipeHeaderSize = 8 := rfl
  rcases H.length_content (by omega) hIn with heq | ⟨hge, _⟩
  · exact heq
  · exact absurd ⟨by omega, hlt⟩ hover

/-- A consumed content is present. -/
theorem Decoded.length_le_presentSize (H : Decoded (availableBytes dev m) content size) :
    content.length ≤ presentSize dev m := by
  have hcontent := congrArg List.length H.content_eq_window
  rw [length_window] at hcontent
  simp only [presentSize]
  omega

/-- A size that overflows passes its check. -/
theorem ReachesDataSize.decoded (H : ReachesDataSize dev m)
    (hover : Overflows dev m) : Decoded (availableBytes dev m)
      (((frontPayload (availableBytes dev m)).drop 8).take (frontDataSize dev m))
      ((frontDescriptor (availableBytes dev m)).length + 8 : ℕ) where
  descriptor_fits := by
    have := H.headers_fit
    rw [length_readableBytes]
    omega
  type_eq := H.type_eq
  offset_ge := H.offset_ge
  offset_le := H.offset_le
  length_le := by
    rw [length_readableBytes]
    exact H.length_le
  size_eq := rfl
  header_type := H.header_type
  dataSize_lt := hover.2
  dataSize_check := by
    obtain ⟨hlo, hhi⟩ := hover
    have hheader : pipeHeaderSize = 8 := rfl
    change ¬ _ < add32 pipeHeaderSize (frontDataSize dev m)
    simp only [add32, wrap32]
    omega
  content_eq := rfl

end

/-- **The declared size.** From indices inside the data area and whatever bytes in it: a
content that is popped has the length that the header declares, and a length that is not
present is rejected without a change, if and only if the declared size is not one of the
eight below `2 ^ 31`, or the packet fails an earlier check. -/
theorem sizeHonoured_iff (dev : UioHvDevice) (m : Mapping)
    (hIn : (incoming dev m).In.toNat < dev.dataMaximumSize)
    (hOut : (incoming dev m).Out.toNat < dev.dataMaximumSize) :
    SizeHonoured dev m ↔ (ReachesDataSize dev m → ¬ Overflows dev m) := by
  have hfit := dev.offsets_fit
  have hpage := dev.control_fits
  constructor
  · intro H hreaches hover
    obtain ⟨content, hdecoded⟩ : ∃ content, Decoded (availableBytes dev m) content
      ((frontDescriptor (availableBytes dev m)).length + 8 : ℕ) := ⟨_, hreaches.decoded hover⟩
    obtain ⟨v, hconsumes⟩ : ∃ v, Consumes dev m content v := ⟨_, by
      rw [Consumes, popCopy_eq hIn.le hOut, if_neg (Nat.not_lt_of_le hreaches.headers_fit),
        ← availableBytes, hdecoded.decodePacket_eq, ok_bind]⟩
    have hlength := H.returned _ _ (run_popPipePacket_consumes hconsumes) hconsumes.poppedContent_eq
    have hpresent := hdecoded.length_le_presentSize
    have hread := readableSize_le hIn.le
    obtain ⟨hlo, _⟩ := hover
    unfold presentSize at hpresent
    omega
  · intro hcondition
    have hdecoded : ∀ content v, Consumes dev m content v → 24 ≤ readableSize dev (incoming dev m) →
        content.length = frontDataSize dev m ∧ content.length ≤ presentSize dev m := by
      intro content v hconsumes hread
      obtain ⟨size, hd, _⟩ := hconsumes.decoded hIn.le hOut
      exact ⟨hd.length_eq_frontDataSize hIn.le (hcondition (hd.reaches hread)),
        hd.length_le_presentSize⟩
    have hnone : ¬ readableSize dev (incoming dev m) < 24 ↔
        popCopy dev (incoming dev m) m ≠ .ok none := by
      rw [popCopy_eq hIn.le hOut]
      split
      · simp [*]
      · refine iff_of_true ‹_› ?_
        intro hbind
        obtain ⟨r, _, hr⟩ := bind_eq_ok hbind
        cases hr
    constructor
    · intro content m' hrun hpopped
      rcases run_popPipePacket_of_ok hrun with ⟨v, hconsumes, _⟩ | ⟨hcopy, _, _⟩
      · refine (hdecoded content v hconsumes (Nat.le_of_not_lt (hnone.mpr ?_))).1
        rw [show popCopy dev (incoming dev m) m = _ from hconsumes]
        simp
      · rw [poppedContent_of_none hcopy] at hpopped
        cases hpopped
    · intro hread hpresent
      rcases popCopy_cases dev m with ⟨content, v, hconsumes⟩ | hcopy | ⟨e, hcopy⟩
      · obtain ⟨heq, hle⟩ := hdecoded content v hconsumes hread
        omega
      · exact absurd hcopy (hnone.mp (by omega))
      · exact ⟨e, run_popPipePacket_error hcopy⟩

/-! ## A size that overflows -/

/-- A packet with four zeros for content, whose header declares `2 ^ 31 - 8` bytes. -/
def overflowBytes : List UInt8 :=
  [6, 0, 2, 0, 4, 0, 0, 0, 0, 0, 0, 0, 0, 0, 0, 0,
    1, 0, 0, 0, 0xF8, 0xFF, 0xFF, 0x7F,
    0, 0, 0, 0, 0, 0, 0, 0,
    0, 0, 0, 0, 0, 0, 0, 0]

/-- It is popped, with sixteen bytes. -/
theorem not_sizeHonoured_overflowBytes :
    ¬ SizeHonoured .defaultRings (filledMapping overflowBytes) := by
  have hshort : overflowBytes.length < 2093056 := by decide
  have hdecode : decodePacket overflowBytes = .ok (List.replicate 16 0, 40) := by decide +kernel
  have hconsumes := consumes_filledMapping hshort (by decide) hdecode
  intro H
  have hlength := H.returned _ _ (run_popPipePacket_consumes hconsumes) hconsumes.poppedContent_eq
  rw [frontDataSize, availableBytes_filledMapping hshort] at hlength
  exact absurd hlength (by decide +kernel)

/-- The size of a packet that declares what it has is honoured. -/
theorem sizeHonoured_forgedBytes : SizeHonoured .defaultRings (filledMapping forgedBytes) := by
  have hshort : forgedBytes.length < 2093056 := by decide
  obtain ⟨hIn, hOut⟩ := incoming_filledMapping hshort
  refine (sizeHonoured_iff .defaultRings (filledMapping forgedBytes) (by rw [hIn]; exact hshort)
    (by rw [hOut]; decide)).mpr fun _ hover => ?_
  rw [Overflows, frontDataSize, availableBytes_filledMapping hshort] at hover
  exact absurd hover (by decide +kernel)

end HvGin
