import HvGin.Host

/-!
# Where a popped content comes from

The bytes in the ring are the sender's, and a pop trusts three lengths in them. The
payload of the packet at `Out` is what lies between its `DataOffset` and its `Length`;
the pop reads the pipe header at the start of it and the content right behind the header.

Nothing compares the end of the content with the end of the payload. The `DataSize` of
the header is held against all the readable bytes, so that the trailer of the packet, and
packets queued behind it, can be read as header or as content. `contained_iff` gives the
comparison that is missing.
-/
namespace HvGin

open Lib

variable {dev : UioHvDevice} {m m' : Mapping} {content : List UInt8}

/-- The fields that decide what the pop reads: of the descriptor at `Out`, and of the pipe
header behind it. -/
def frontDataOffset (dev : UioHvDevice) (m : Mapping) : ℕ :=
  (frontDescriptor (availableBytes dev m)).dataOffset
def frontLength (dev : UioHvDevice) (m : Mapping) : ℕ :=
  (frontDescriptor (availableBytes dev m)).length
def frontDataSize (dev : UioHvDevice) (m : Mapping) : ℕ :=
  (frontHeader (availableBytes dev m)).rawDataSize.toNat

/-- The header and the content are read from the ring at these distances from `Out`. -/
structure ReadFrom (dev : UioHvDevice) (m : Mapping) (content : List UInt8)
    (headerStart contentStart : ℕ) : Prop where
  header : frontHeader (availableBytes dev m) = .ofBytes (window (incomingData dev m)
    dev.dataMaximumSize ((incoming dev m).Out.toNat + headerStart) pipeHeaderSize)
  content : content = window (incomingData dev m) dev.dataMaximumSize
    ((incoming dev m).Out.toNat + contentStart) content.length

/-- The run of bytes lies inside the payload of the packet at `Out`. -/
def InPayload (dev : UioHvDevice) (m : Mapping) (start size : ℕ) : Prop :=
  frontDataOffset dev m ≤ start ∧ start + size ≤ frontLength dev m

/-- The header and the content lie inside the payload. -/
def Contained (dev : UioHvDevice) (m : Mapping) (content : List UInt8) : Prop :=
  InPayload dev m (frontDataOffset dev m) pipeHeaderSize ∧
    InPayload dev m (frontDataOffset dev m + pipeHeaderSize) content.length

section

variable {size : ℤ} (H : Decoded (availableBytes dev m) content size)
include H

theorem Decoded.frontDataOffset_le : frontDataOffset dev m ≤ frontLength dev m := H.offset_le

theorem Decoded.frontLength_le : frontLength dev m + 8 ≤ readableSize dev (incoming dev m) := by
  have hlength := H.length_le
  rwa [length_readableBytes] at hlength

/-- The bytes behind `DataOffset`, up to the end of the readable region. -/
theorem Decoded.frontPayload_eq : frontPayload (availableBytes dev m) =
    window (incomingData dev m) dev.dataMaximumSize
      ((incoming dev m).Out.toNat + frontDataOffset dev m)
      (readableSize dev (incoming dev m) - frontDataOffset dev m) := by
  have hoffset := H.frontDataOffset_le
  have hlength := H.frontLength_le
  exact drop_window _ _ _ _ (frontDataOffset dev m) (by omega)

/-- The content stands behind the header, as far as the readable region goes. -/
theorem Decoded.content_eq_window : content = window (incomingData dev m) dev.dataMaximumSize
    ((incoming dev m).Out.toNat + (frontDataOffset dev m + pipeHeaderSize))
    (min (frontDataSize dev m)
      (readableSize dev (incoming dev m) - frontDataOffset dev m - pipeHeaderSize)) := by
  have hoffset := H.frontDataOffset_le
  have hlength := H.frontLength_le
  have hheader : pipeHeaderSize = 8 := rfl
  have hcontent := H.content_eq
  rw [H.frontPayload_eq, drop_window _ _ _ _ _ (by omega), take_window_min,
    Nat.add_assoc] at hcontent
  exact hcontent

/-- The header is read at the start of the payload, the content right behind it. -/
theorem Decoded.readFrom :
    ReadFrom dev m content (frontDataOffset dev m) (frontDataOffset dev m + pipeHeaderSize) := by
  have hoffset := H.frontDataOffset_le
  have hlength := H.frontLength_le
  have hheader : pipeHeaderSize = 8 := rfl
  constructor
  · rw [frontHeader, ← PipeHeader.ofBytes_take, H.frontPayload_eq,
      take_window _ _ _ _ _ (by omega), hheader]
  · have hcontent := H.content_eq_window
    have hsize := congrArg List.length hcontent
    rw [length_window] at hsize
    rwa [← hsize] at hcontent

/-- The content has the length that the header says, unless that length with the header's
own overflows an `int`: the check lets it pass, and the content takes all there is. -/
theorem Decoded.length_content (hfits : dev.dataMaximumSize + 8 < 2 ^ 31)
    (hIn : (incoming dev m).In.toNat ≤ dev.dataMaximumSize) :
    content.length = frontDataSize dev m ∨ (2 ^ 31 ≤ pipeHeaderSize + frontDataSize dev m ∧
      frontDataOffset dev m + pipeHeaderSize + content.length =
        readableSize dev (incoming dev m)) := by
  have hoffset := H.frontDataOffset_le
  have hlength := H.frontLength_le
  have hread := readableSize_le hIn
  have hheader : pipeHeaderSize = 8 := rfl
  have hcheck := H.dataSize_check
  have hsize := congrArg List.length H.content_eq_window
  rw [length_window] at hsize
  rw [H.frontPayload_eq, length_window] at hcheck
  change ¬ _ < add32 pipeHeaderSize (frontDataSize dev m) at hcheck
  by_cases hlt : pipeHeaderSize + frontDataSize dev m < 2 ^ 31
  · rw [add32_eq (by omega) (by omega)] at hcheck
    exact Or.inl (by omega)
  · have hge := not_lt.mp hlt
    exact Or.inr ⟨hge, by omega⟩

/-- The content stays inside the payload exactly when the `DataSize` of the header does. -/
theorem Decoded.contained_iff_fits (hfits : dev.dataMaximumSize + 8 < 2 ^ 31)
    (hIn : (incoming dev m).In.toNat ≤ dev.dataMaximumSize) :
    Contained dev m content ↔
      frontDataOffset dev m + pipeHeaderSize + frontDataSize dev m ≤ frontLength dev m := by
  have hlength := H.frontLength_le
  have hmax : frontLength dev m ≤ 524280 := PacketDescriptor.length_le _
  simp only [Contained, InPayload]
  rcases H.length_content hfits hIn with heq | ⟨hge, heq⟩ <;> omega

end

/-- The packets of a conforming host make the comparison. -/
theorem IncomingRing.fits {p : PipePacket} {ps : List PipePacket}
    (H : IncomingRing dev m (p :: ps)) :
    frontDataOffset dev m + pipeHeaderSize + frontDataSize dev m ≤ frontLength dev m := by
  have hbytes := H.availableBytes_eq
  rw [List.map_cons, List.flatten_cons] at hbytes
  have hlength := p.length_descriptor
  have hsize := p.size_ge
  rw [frontDataOffset, frontLength, frontDataSize, hbytes, frontDescriptor_image, frontHeader_image,
    p.dataOffset_descriptor, p.dataSize_header, pipeHeaderSize]
  omega

/-- **Containment.** From indices inside the data area and whatever bytes in it: when a
pop consumes a packet, it reads the header at the packet's `DataOffset` and the content
right behind the header, and both lie inside the payload if and only if header and
`DataSize` fit in front of the packet's `Length`. When a pop throws, nothing changes. -/
theorem contained_iff (dev : UioHvDevice) (m : Mapping)
    (hIn : (incoming dev m).In.toNat < dev.dataMaximumSize)
    (hOut : (incoming dev m).Out.toNat < dev.dataMaximumSize) :
    (∀ content m', (popPipePacket dev).run m = (.ok content, m') →
      poppedContent dev m = some content →
      ReadFrom dev m content (frontDataOffset dev m) (frontDataOffset dev m + pipeHeaderSize) ∧
      (Contained dev m content ↔
        frontDataOffset dev m + pipeHeaderSize + frontDataSize dev m ≤ frontLength dev m)) ∧
    ∀ e m', (popPipePacket dev).run m = (.error e, m') → m' = m := by
  have hfit := dev.offsets_fit
  have hpage := dev.control_fits
  refine ⟨fun content m' hrun hpopped => ?_, fun e m' => run_popPipePacket_of_error⟩
  rcases run_popPipePacket_of_ok hrun with ⟨v, hconsumes, _⟩ | ⟨hnone, _, _⟩
  · obtain ⟨size, hdecoded, _⟩ := hconsumes.decoded hIn.le hOut
    exact ⟨hdecoded.readFrom, hdecoded.contained_iff_fits (by omega) hIn.le⟩
  · rw [poppedContent_of_none hnone] at hpopped
    cases hpopped

/-! ## A ring filled with given bytes -/

/-- These bytes at the front of the incoming ring of the driver, and nothing else. -/
def filledMapping (bytes : List UInt8) : Mapping :=
  writeUInt32 UioHvDevice.defaultRings.incomingControlOffset (.ofNat bytes.length)
    (blit (fun _ => 0) UioHvDevice.defaultRings.incomingDataOffset bytes)

section

variable {bytes : List UInt8}

theorem incoming_filledMapping (h : bytes.length < 2093056) :
    (incoming .defaultRings (filledMapping bytes)).In.toNat = bytes.length ∧
      (incoming .defaultRings (filledMapping bytes)).Out = 0 := by
  have hdata : UioHvDevice.defaultRings.incomingDataOffset = 2101248 := rfl
  have hcontrol : UioHvDevice.defaultRings.incomingControlOffset = 2097152 := rfl
  constructor
  · change (readUInt32 (writeUInt32 _ _ _) _).toNat = _
    rw [readUInt32_writeUInt32, toNat_ofNat32 (by omega)]
  · change readUInt32 (writeUInt32 _ _ _) _ = 0
    rw [readUInt32_writeUInt32_of_ne (Or.inr le_rfl), readUInt32_blit (Or.inl (by omega))]
    rfl

theorem readableSize_filledMapping (h : bytes.length < 2093056) :
    readableSize .defaultRings (incoming .defaultRings (filledMapping bytes)) = bytes.length := by
  obtain ⟨hIn, hOut⟩ := incoming_filledMapping h
  rw [readableSize, hIn, hOut]
  exact if_pos (Nat.zero_le _)

theorem availableBytes_filledMapping (h : bytes.length < 2093056) :
    availableBytes .defaultRings (filledMapping bytes) = bytes := by
  have hD : UioHvDevice.defaultRings.dataMaximumSize = 2093056 := rfl
  have hdata : UioHvDevice.defaultRings.incomingDataOffset = 2101248 := rfl
  have hcontrol : UioHvDevice.defaultRings.incomingControlOffset = 2097152 := rfl
  rw [availableBytes, readableBytes, readableSize_filledMapping h, (incoming_filledMapping h).2,
    window_eq_slice (by rw [hD, UInt32.toNat_zero]; omega), slice_incomingData]
  change slice (writeUInt32 _ _ _) (_ + 0) _ = _
  rw [Nat.add_zero, writeUInt32, slice_blit_of_disjoint (Or.inr (by rw [length_toLE]; omega)),
    slice_blit_self]

/-- Bytes that pass the checks are consumed. -/
theorem consumes_filledMapping {size : ℤ} (h : bytes.length < 2093056) (hge : 24 ≤ bytes.length)
    (hdecode : decodePacket bytes = .ok (content, size)) :
    Consumes .defaultRings (filledMapping bytes) content
      (.ofNat (advance UioHvDevice.defaultRings.dataMaximumSize 0 size.toNat)) := by
  have hD : UioHvDevice.defaultRings.dataMaximumSize = 2093056 := rfl
  obtain ⟨hIn, hOut⟩ := incoming_filledMapping h
  have hread := readableSize_filledMapping h
  rw [Consumes, popCopy_eq (by omega) (by rw [hOut, hD]; decide), if_neg (by omega),
    ← availableBytes, availableBytes_filledMapping h, hdecode, ok_bind, hOut]
  rfl

end

/-! ## A packet that is popped beyond its end -/

/-- A packet without payload, whose trailer reads as the header of eight bytes of content,
and eight bytes behind it. -/
def forgedBytes : List UInt8 :=
  [6, 0, 2, 0, 2, 0, 0, 0, 0, 0, 0, 0, 0, 0, 0, 0,
    1, 0, 0, 0, 8, 0, 0, 0,
    11, 12, 13, 14, 15, 16, 17, 18]

/-- These bytes in the incoming ring of the driver. -/
def forgedMapping : Mapping :=
  writeUInt32 UioHvDevice.defaultRings.incomingControlOffset 32
    (blit (fun _ => 0) UioHvDevice.defaultRings.incomingDataOffset forgedBytes)

theorem forgedMapping_eq : forgedMapping = filledMapping forgedBytes := rfl

/-- It is popped, and its content is not its own. -/
theorem not_contained_forgedMapping : ∃ content m',
    (popPipePacket .defaultRings).run forgedMapping = (.ok content, m') ∧
      poppedContent .defaultRings forgedMapping = some content ∧
      ¬ Contained .defaultRings forgedMapping content := by
  have hshort : forgedBytes.length < 2093056 := by decide
  have hdecode : decodePacket forgedBytes = .ok ([11, 12, 13, 14, 15, 16, 17, 18], 24) := by
    decide +kernel
  have hconsumes := consumes_filledMapping hshort (by decide) hdecode
  rw [forgedMapping_eq]
  refine ⟨_, _, run_popPipePacket_consumes hconsumes, hconsumes.poppedContent_eq, ?_⟩
  rintro ⟨⟨_, hheader⟩, _⟩
  rw [frontDataOffset, frontLength, availableBytes_filledMapping hshort] at hheader
  exact absurd hheader (by decide)

/-- The pop of a well-formed packet stays inside it. -/
theorem contained_zeros : ∃ m content m', (popPipePacket .defaultRings).run m = (.ok content, m') ∧
    poppedContent .defaultRings m = some content ∧ Contained .defaultRings m content := by
  have hring : IncomingRing .defaultRings (fun _ => 0) [] := .empty rfl rfl
  obtain ⟨m, hput⟩ := hring.exists_put (p := .zeros 17 (by norm_num)) (by decide)
  have hring' := hring.put hput
  have hOut : (incoming .defaultRings m).Out.toNat < UioHvDevice.defaultRings.dataMaximumSize := by
    rw [(putEffect_of_hostPut hput).2.out_eq]
    decide
  have hconsumes := hring'.pop hOut
  have hrun := run_popPipePacket_consumes hconsumes
  have hpopped := hconsumes.poppedContent_eq
  exact ⟨m, _, _, hrun, hpopped,
    ((contained_iff .defaultRings m hring'.in_lt hOut).1 _ _ hrun hpopped).2.mpr hring'.fits⟩

end HvGin
