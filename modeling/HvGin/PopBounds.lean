import HvGin.Containment

/-!
# The bounds of a pop

`BytesToStructure` checks no length, and what it is given comes from the ring. The decode of
the descriptor rests on the test for two headers at the entry of the pop; the decode of the
pipe header rests on three comparisons of the sender's `DataOffset` and `Length`, which leave
at least eight bytes behind `DataOffset`. The two copies stay inside the incoming data area
and fill the array.
-/
namespace HvGin

open Lib

/-! ## The two decodes -/

/-- The part of `decodePacket` up to the `Skip` of `DataOffset`. -/
def checkDescriptor (availableBytes : List UInt8) : Except Exn PacketDescriptor := do
  let descriptor ← bytesToStructure packetDescriptorSize PacketDescriptor.ofBytes availableBytes
  if descriptor.type ≠ .dataInBand then .error (.exception "Unexpected PacketType") else
  if descriptor.dataOffset < packetDescriptorSize ∨
      descriptor.dataOffset > availableBytes.length ∨
      descriptor.dataOffset > descriptor.length then
    .error (.exception "Unexpected DataOffset") else
  if (availableBytes.length : ℤ) < add32 descriptor.length 8 then
    .error (.exception "Unexpected PacketSize") else
  .ok descriptor

/-- The part of `decodePacket` on the array left by the `Skip`. -/
def decodePayload (descriptor : PacketDescriptor) (payload : List UInt8) :
    Except Exn (List UInt8 × ℤ) := do
  let header ← bytesToStructure pipeHeaderSize PipeHeader.ofBytes payload
  if header.type ≠ .data then .error (.exception "Unexpected PipeMessageType") else do
  let dataSize ← header.dataSize
  let pipeDataSize ← Convert.toInt32 dataSize.toNat
  if (payload.length : ℤ) < add32 pipeHeaderSize pipeDataSize then
    .error (.exception "Unexpected DataSize") else
  .ok ((payload.drop pipeHeaderSize).take pipeDataSize.toNat, add32 descriptor.length 8)

section

variable {dev : UioHvDevice} {m : Mapping} {bytes : List UInt8} {descriptor : PacketDescriptor}
  {e : Exn}

theorem decodePacket_eq_bind : decodePacket bytes =
    checkDescriptor bytes >>= fun descriptor =>
      decodePayload descriptor (bytes.drop descriptor.dataOffset) := by
  rw [decodePacket, checkDescriptor]
  cases bytesToStructure packetDescriptorSize PacketDescriptor.ofBytes bytes with
  | error e => rfl
  | ok descriptor =>
      simp only [ok_bind]
      split_ifs <;> rfl

/-- Where the checks of the descriptor pass, eight bytes are left behind its `DataOffset`. -/
theorem le_length_payload (h : checkDescriptor bytes = .ok descriptor) :
    pipeHeaderSize ≤ (bytes.drop descriptor.dataOffset).length := by
  obtain ⟨d, _, h⟩ := bind_eq_ok h
  obtain ⟨_, h⟩ := ite_error_eq_ok h
  obtain ⟨hoffset, h⟩ := ite_error_eq_ok h
  obtain ⟨hlength, h⟩ := ite_error_eq_ok h
  cases h
  have hmax := descriptor.length_le
  rw [add32_eq (by omega) (by omega)] at hlength
  rw [List.length_drop, pipeHeaderSize]
  omega

/-- On sixteen bytes the checks of the descriptor do not read past the array. -/
theorem checkDescriptor_ne_shortStructure (h : packetDescriptorSize ≤ bytes.length) :
    checkDescriptor bytes ≠ .error .shortStructure := by
  rw [checkDescriptor, bytesToStructure_of_le h, ok_bind]
  split_ifs <;> simp

/-- On eight bytes the decode of the payload does not. -/
theorem decodePayload_ne_shortStructure {payload : List UInt8}
    (h : pipeHeaderSize ≤ payload.length) :
    decodePayload descriptor payload ≠ .error .shortStructure := by
  rw [decodePayload, bytesToStructure_of_le h, ok_bind]
  split_ifs with htype
  · simp
  rw [PipeHeader.dataSize, if_neg (by rw [not_not.mp htype]; decide), ok_bind, Convert.toInt32]
  split
  · rw [ok_bind]
    split_ifs <;> simp
  · simp

theorem decodePacket_ne_shortStructure (h : packetDescriptorSize ≤ bytes.length) :
    decodePacket bytes ≠ .error .shortStructure := by
  rw [decodePacket_eq_bind]
  cases hcheck : checkDescriptor bytes with
  | error e =>
      rw [error_bind]
      intro he
      cases he
      exact checkDescriptor_ne_shortStructure h hcheck
  | ok descriptor =>
      rw [ok_bind]
      exact decodePayload_ne_shortStructure (le_length_payload hcheck)

end

/-! ## The copies -/

/-- The two `ReadArray` calls of a pop from `cb`, of `first` bytes at `Out` and of `second`
bytes at the start of the data area, lie inside the area and fill `AvailableBytes`. -/
structure ReadsInside (dev : UioHvDevice) (cb : RingControlBlock) (m : Mapping)
    (availableSize first second : ℕ) (availableBytes : List UInt8) : Prop where
  split : popSplit dev cb availableSize = .ok ((first : ℤ), (second : ℤ))
  first_le : cb.Out.toNat + first ≤ dev.dataMaximumSize
  second_le : second ≤ dev.dataMaximumSize
  fills : first + second = availableSize
  read : readAvailable dev cb availableSize m = .ok availableBytes
  bytes_eq : availableBytes = slice m (dev.incomingDataOffset + cb.Out.toNat) first ++
    slice m dev.incomingDataOffset second
  length_eq : availableBytes.length = availableSize

/-- **The bounds of a pop.** From indices inside the data area and whatever bytes in it: a pop
that does not return at once reads inside the data area and fills its array, decodes the
descriptor from at least sixteen bytes, and where it comes to decode the pipe header, does
so from at least eight. No pop reads past its array. -/
theorem popPipePacket_inBounds (dev : UioHvDevice) (m : Mapping)
    (hIn : (incoming dev m).In.toNat < dev.dataMaximumSize)
    (hOut : (incoming dev m).Out.toNat < dev.dataMaximumSize) :
    (∃ availableSize writableSize : ℕ, getAvailableSizeInformation dev (incoming dev m) =
        .ok ((availableSize : ℤ), (writableSize : ℤ)) ∧
      (availableSize < pipePacketHeaderSize → (popPipePacket dev).run m = (.ok [], m)) ∧
      (pipePacketHeaderSize ≤ availableSize → ∃ first second availableBytes,
        ReadsInside dev (incoming dev m) m availableSize first second availableBytes ∧
        packetDescriptorSize ≤ availableBytes.length ∧
        ∀ descriptor, checkDescriptor availableBytes = .ok descriptor →
          pipeHeaderSize ≤ (availableBytes.drop descriptor.dataOffset).length)) ∧
    ∀ m', (popPipePacket dev).run m ≠ (.error .shortStructure, m') := by
  have hread := readableSize_le hIn.le
  have hheaders : pipePacketHeaderSize = 24 := rfl
  have hdescriptor : packetDescriptorSize = 16 := rfl
  refine ⟨⟨_, _, getAvailableSizeInformation_eq hIn.le hOut.le, ?_, ?_⟩,
    ?_⟩
  · intro hshort
    exact run_popPipePacket_none (popCopy_none hIn.le hOut.le hshort)
  · intro hlong
    refine ⟨_, _, _, ⟨popSplit_eq hIn.le hOut.le, by omega, by omega, by omega,
      readAvailable_pieces hIn.le hOut, rfl, ?_⟩, ?_, fun descriptor => le_length_payload⟩
    · simp only [List.length_append, length_slice]
      omega
    · simp only [List.length_append, length_slice]
      omega
  · intro m' hrun
    rcases popCopy_cases dev m with ⟨content, v, hconsumes⟩ | hcopy | ⟨e, hcopy⟩
    · rw [run_popPipePacket_consumes hconsumes] at hrun
      cases hrun
    · rw [run_popPipePacket_none hcopy] at hrun
      cases hrun
    · rw [run_popPipePacket_error hcopy] at hrun
      cases hrun
      rw [popCopy_eq hIn.le hOut] at hcopy
      split at hcopy
      · cases hcopy
      · next hlong =>
        have hlength := @length_readableBytes dev m (incoming dev m)
        cases hdecode : decodePacket (readableBytes dev (incoming dev m) m) with
        | error e =>
            rw [hdecode, error_bind] at hcopy
            cases hcopy
            exact decodePacket_ne_shortStructure (by omega) hdecode
        | ok r =>
            rw [hdecode, ok_bind] at hcopy
            cases hcopy

/-- The bytes that are popped beyond the end of their packet are read in one piece inside the
data area, and the header is decoded from what is behind the descriptor. -/
theorem popPipePacket_inBounds_forgedMapping :
    ReadsInside .defaultRings (incoming .defaultRings (filledMapping forgedBytes))
      (filledMapping forgedBytes) 32 32 0 forgedBytes ∧
    (∀ descriptor, checkDescriptor forgedBytes = .ok descriptor →
      8 ≤ (forgedBytes.drop descriptor.dataOffset).length) ∧
    ∀ m', (popPipePacket .defaultRings).run (filledMapping forgedBytes) ≠
      (.error .shortStructure, m') := by
  have hshort : forgedBytes.length < 2093056 := by decide
  have hread := readableSize_filledMapping hshort
  obtain ⟨hIn, hOut⟩ := incoming_filledMapping hshort
  have hIn' : (incoming .defaultRings (filledMapping forgedBytes)).In.toNat <
      UioHvDevice.defaultRings.dataMaximumSize := by
    rw [hIn]
    exact hshort
  have hOut' : (incoming .defaultRings (filledMapping forgedBytes)).Out.toNat <
      UioHvDevice.defaultRings.dataMaximumSize := by
    rw [hOut]
    decide
  obtain ⟨⟨available, writable, hsizes, _, hbounds⟩, hnever⟩ :=
    popPipePacket_inBounds .defaultRings (filledMapping forgedBytes) hIn' hOut'
  have havailable : available = 32 := by
    have heq := hsizes.symm.trans (getAvailableSizeInformation_eq hIn'.le hOut'.le)
    rw [hread] at heq
    exact Int.ofNat_inj.mp (Prod.mk.inj (Except.ok.inj heq)).1
  subst havailable
  obtain ⟨first, second, bytes, hreads, _, hheader⟩ := hbounds (by decide)
  obtain ⟨rfl, rfl⟩ : first = 32 ∧ second = 0 := by
    have hsplit := popSplit_eq hIn'.le hOut'.le
    rw [hread, hOut] at hsplit
    have heq := Except.ok.inj (hreads.split.symm.trans hsplit)
    exact ⟨Int.ofNat_inj.mp (Prod.mk.inj heq).1, Int.ofNat_inj.mp (Prod.mk.inj heq).2⟩
  obtain rfl : bytes = forgedBytes := by
    have hbytes := availableBytes_filledMapping hshort
    rw [availableBytes, readableBytes, hread] at hbytes
    rw [hreads.bytes_eq]
    exact hbytes
  exact ⟨hreads, hheader, hnever⟩

end HvGin
