import HvGin.Device

/-!
# `PopPipePacket`

The pop reads the whole readable region, in two pieces where it wraps, checks the
packet at its front, and stores the next `Out`. All it does before that store is
reading, so it is split here into `popCopy`, a computation on the mapping, and the
store. `popCopy_eq` replaces the two-piece copy by one circular window.

## Main definitions

* `decodePacket` — the checks on the bytes and the extraction of the content.
* `popCopy`, `popPipePacket` — the operation before the store, and the whole of it.
* `Consumes` — a pop from this mapping consumes a packet.
-/
namespace HvGin

open Lib

/-! ## The operation -/

/-- The checks on the available bytes, in the order of the source. Gives the content
and `ActualPacketSize`. The last comparison adds in `int`. -/
def decodePacket (availableBytes : List UInt8) : Except Exn (List UInt8 × ℤ) := do
  let descriptor ← bytesToStructure packetDescriptorSize PacketDescriptor.ofBytes availableBytes
  if descriptor.type ≠ .dataInBand then .error (.exception "Unexpected PacketType") else
  if descriptor.dataOffset < packetDescriptorSize ∨
      descriptor.dataOffset > availableBytes.length ∨
      descriptor.dataOffset > descriptor.length then
    .error (.exception "Unexpected DataOffset") else
  if (availableBytes.length : ℤ) < add32 descriptor.length 8 then
    .error (.exception "Unexpected PacketSize") else do
  let payload := availableBytes.drop descriptor.dataOffset
  let header ← bytesToStructure pipeHeaderSize PipeHeader.ofBytes payload
  if header.type ≠ .data then .error (.exception "Unexpected PipeMessageType") else do
  let dataSize ← header.dataSize
  let pipeDataSize ← Convert.toInt32 dataSize.toNat
  if (payload.length : ℤ) < add32 pipeHeaderSize pipeDataSize then
    .error (.exception "Unexpected DataSize") else
  .ok ((payload.drop pipeHeaderSize).take pipeDataSize.toNat, add32 descriptor.length 8)

/-- `FirstReadSize` and `SecondReadSize`. -/
def popSplit (dev : UioHvDevice) (cb : RingControlBlock) (availableSize : ℤ) :
    Except Exn (ℤ × ℤ) :=
  if cb.In < cb.Out then do
    let offset ← Convert.toInt32 cb.Out.toNat
    let fragileSize := sub32 dev.dataMaximumSize offset
    if fragileSize < availableSize then pure (fragileSize, sub32 availableSize fragileSize)
    else pure (availableSize, 0)
  else pure (availableSize, 0)

/-- The copy of the readable region into `AvailableBytes`. -/
def readAvailable (dev : UioHvDevice) (cb : RingControlBlock) (availableSize : ℤ) (m : Mapping) :
    Except Exn (List UInt8) := do
  let (firstReadSize, secondReadSize) ← popSplit dev cb availableSize
  let bytes := List.replicate availableSize.toNat 0
  let bytes ← readArray dev m (dev.incomingDataOffset + cb.Out.toNat : ℕ) bytes 0 firstReadSize
  if 0 < secondReadSize then
    readArray dev m dev.incomingDataOffset bytes firstReadSize secondReadSize
  else pure bytes

/-- `FinalOffset`. -/
def popFinalOffset (dev : UioHvDevice) (cb : RingControlBlock) (actualPacketSize : ℤ) :
    Except Exn UInt32 := do
  let finalOffset ← Convert.toUInt32 (cb.Out.toNat + actualPacketSize)
  if cb.In < cb.Out then do
    let offset ← Convert.toInt32 cb.Out.toNat
    let fragileSize := sub32 dev.dataMaximumSize offset
    if fragileSize < actualPacketSize then Convert.toUInt32 (sub32 actualPacketSize fragileSize)
    else pure finalOffset
  else pure finalOffset

/-- All of the pop between the read of the control block and the store: nothing to
consume, or the content and the offset to store. -/
def popCopy (dev : UioHvDevice) (cb : RingControlBlock) (m : Mapping) :
    Except Exn (Option (List UInt8 × UInt32)) := do
  let (availableSize, _) ← getAvailableSizeInformation dev cb
  if availableSize < pipePacketHeaderSize then .ok none else do
  let bytes ← readAvailable dev cb availableSize m
  let (content, actualPacketSize) ← decodePacket bytes
  let finalOffset ← popFinalOffset dev cb actualPacketSize
  .ok (some (content, finalOffset))

/-- The store of `Out`. -/
def popStore (dev : UioHvDevice) (finalOffset : UInt32) (m : Mapping) : Mapping :=
  writeUInt32 (dev.incomingControlOffset + 4) finalOffset m

/-- `PopPipePacket`. -/
def popPipePacket (dev : UioHvDevice) : Act Mapping Exn (List UInt8) := do
  let cb ← getRingControlBlock dev dev.incomingControlOffset
  match ← Act.reads (popCopy dev cb) with
  | none => pure []
  | some (content, finalOffset) => do
      Act.modify (popStore dev finalOffset)
      pure content

/-- The content of the packet that a pop consumes, if it consumes one. An empty result
alone does not tell: a packet may be empty. -/
def poppedContent (dev : UioHvDevice) (m : Mapping) : Option (List UInt8) :=
  match popCopy dev (incoming dev m) m with
  | .ok (some r) => some r.1
  | _ => none

/-! ## The stages -/

section

variable {dev : UioHvDevice} {m : Mapping} {content : List UInt8} {finalOffset : UInt32} {e : Exn}

/-- A pop from `m` consumes a packet: it gives `content` and stores `finalOffset`. -/
def Consumes (dev : UioHvDevice) (m : Mapping) (content : List UInt8) (finalOffset : UInt32) :
    Prop :=
  popCopy dev (incoming dev m) m = .ok (some (content, finalOffset))

theorem run_popPipePacket_consumes (h : Consumes dev m content finalOffset) :
    (popPipePacket dev).run m = (.ok content, popStore dev finalOffset m) := by
  rw [popPipePacket, Act.run_bind_ok (run_getRingControlBlock_incoming dev m),
    Act.run_bind_ok (by rw [Act.run_reads, h]), Act.run_modify_bind, Act.run_pure]

theorem run_popPipePacket_none (h : popCopy dev (incoming dev m) m = .ok none) :
    (popPipePacket dev).run m = (.ok [], m) := by
  rw [popPipePacket, Act.run_bind_ok (run_getRingControlBlock_incoming dev m),
    Act.run_bind_ok (by rw [Act.run_reads, h]), Act.run_pure]

theorem run_popPipePacket_error (h : popCopy dev (incoming dev m) m = .error e) :
    (popPipePacket dev).run m = (.error e, m) := by
  rw [popPipePacket, Act.run_bind_ok (run_getRingControlBlock_incoming dev m),
    Act.run_bind_error (by rw [Act.run_reads, h])]

/-- A pop consumes a packet, finds none, or throws; only the first stores. -/
theorem popCopy_cases (dev : UioHvDevice) (m : Mapping) :
    (∃ content finalOffset, Consumes dev m content finalOffset) ∨
      popCopy dev (incoming dev m) m = .ok none ∨
      ∃ e, popCopy dev (incoming dev m) m = .error e := by
  cases h : popCopy dev (incoming dev m) m with
  | error e => exact Or.inr (Or.inr ⟨e, rfl⟩)
  | ok r =>
      cases r with
      | none => exact Or.inr (Or.inl rfl)
      | some r => exact Or.inl ⟨r.1, r.2, h⟩

/-- A pop that throws changes nothing. -/
theorem run_popPipePacket_of_error {m' : Mapping} (h : (popPipePacket dev).run m = (.error e, m')) :
    m' = m := by
  rcases popCopy_cases dev m with ⟨content, finalOffset, hc⟩ | hcopy | ⟨e', hcopy⟩
  · rw [run_popPipePacket_consumes hc] at h
    cases h
  · rw [run_popPipePacket_none hcopy] at h
    cases h
  · rw [run_popPipePacket_error hcopy] at h
    cases h
    rfl

/-- A pop that returns has consumed a packet and stored the index behind it, or has found
none and changed nothing. -/
theorem run_popPipePacket_of_ok {m' : Mapping} (h : (popPipePacket dev).run m = (.ok content, m')) :
    (∃ finalOffset, Consumes dev m content finalOffset ∧ m' = popStore dev finalOffset m) ∨
      popCopy dev (incoming dev m) m = .ok none ∧ content = [] ∧ m' = m := by
  rcases popCopy_cases dev m with ⟨content', finalOffset, hc⟩ | hcopy | ⟨e', hcopy⟩
  · rw [run_popPipePacket_consumes hc] at h
    cases h
    exact Or.inl ⟨finalOffset, hc, rfl⟩
  · rw [run_popPipePacket_none hcopy] at h
    cases h
    exact Or.inr ⟨hcopy, rfl, rfl⟩
  · rw [run_popPipePacket_error hcopy] at h
    cases h

theorem Consumes.poppedContent_eq (h : Consumes dev m content finalOffset) :
    poppedContent dev m = some content := by
  rw [poppedContent, h]

theorem poppedContent_of_none (h : popCopy dev (incoming dev m) m = .ok none) :
    poppedContent dev m = none := by
  rw [poppedContent, h]

/-! ## The store -/

theorem popStore_apply {a : ℕ}
    (h : a < dev.incomingControlOffset + 4 ∨ dev.incomingControlOffset + 8 ≤ a) :
    popStore dev finalOffset m a = m a := writeUInt32_apply h

@[simp] theorem incoming_popStore :
    incoming dev (popStore dev finalOffset m) = { incoming dev m with Out := finalOffset } := by
  simp only [incoming, controlBlock, popStore, readUInt32_writeUInt32, RingControlBlock.mk.injEq,
    true_and]
  exact ⟨readUInt32_writeUInt32_of_ne (Or.inl le_rfl), readUInt32_writeUInt32_of_ne (Or.inr le_rfl)⟩

@[simp] theorem outgoing_popStore : outgoing dev (popStore dev finalOffset m) = outgoing dev m := by
  have hpage := dev.control_fits
  refine controlBlock_congr fun i hi => popStore_apply (Or.inl ?_)
  unfold UioHvDevice.outgoingControlOffset UioHvDevice.incomingControlOffset
    UioHvDevice.ringBufferSize
  omega

@[simp] theorem incomingData_popStore :
    incomingData dev (popStore dev finalOffset m) = incomingData dev m := by
  have hpage := dev.control_fits
  funext i
  refine popStore_apply (Or.inr ?_)
  simp only [UioHvDevice.incomingControlOffset, UioHvDevice.incomingDataOffset]
  omega

/-! ## The copy as a circular window -/

theorem readableSize_le {cb : RingControlBlock} (hIn : cb.In.toNat ≤ dev.dataMaximumSize) :
    readableSize dev cb ≤ dev.dataMaximumSize := by
  simp only [readableSize]
  split <;> omega

/-- A straight read into the front of a fresh array. -/
theorem readArray_front (m : Mapping) (position count k : ℕ)
    (hend : position + count ≤ dev.capacity)
    (hpos : position < dev.capacity) :
    readArray dev m position (List.replicate (count + k) 0) 0 count =
      .ok (slice m position count ++ List.replicate k 0) := by
  have hmin : min count (dev.capacity - position) = count := min_eq_left (by omega)
  rw [readArray, if_neg (by omega), if_neg (by simp), if_neg (by omega)]
  simp [hmin]

/-- A straight read behind what was read before. -/
theorem readArray_back (m : Mapping) (position count : ℕ) (front : List UInt8)
    (hend : position + count ≤ dev.capacity) (hpos : position < dev.capacity) :
    readArray dev m position (front ++ List.replicate count 0) front.length count =
      .ok (front ++ slice m position count) := by
  have hmin : min count (dev.capacity - position) = count := min_eq_left (by omega)
  rw [readArray, if_neg (by omega), if_neg (by simp), if_neg (by omega)]
  simp [hmin]

theorem slice_incomingData (p n : ℕ) :
    slice (incomingData dev m) p n = slice m (dev.incomingDataOffset + p) n := by
  simp [slice, incomingData, Nat.add_assoc]

/-- The first piece goes up to the end of the data area, the second takes the rest. -/
theorem popSplit_eq {cb : RingControlBlock} (hIn : cb.In.toNat ≤ dev.dataMaximumSize)
    (hOut : cb.Out.toNat ≤ dev.dataMaximumSize) :
    popSplit dev cb (readableSize dev cb : ℕ) =
      .ok ((min (readableSize dev cb) (dev.dataMaximumSize - cb.Out.toNat) : ℕ),
        (readableSize dev cb - (dev.dataMaximumSize - cb.Out.toNat) : ℕ)) := by
  have hfit := dev.offsets_fit
  have hread := readableSize_le hIn
  have hlt : cb.In < cb.Out ↔ cb.In.toNat < cb.Out.toNat := UInt32.lt_iff_toNat_lt
  have hfragile : sub32 dev.dataMaximumSize cb.Out.toNat =
      (dev.dataMaximumSize - cb.Out.toNat : ℕ) := by
    rw [sub32_eq (by omega) (by omega)]
    omega
  rw [popSplit]
  by_cases hsplit : dev.dataMaximumSize < cb.Out.toNat + readableSize dev cb
  · -- The region passes the end of the data area: two pieces.
    have hwrap : cb.In.toNat < cb.Out.toNat := by
      unfold readableSize at hsplit
      split_ifs at hsplit <;> omega
    rw [if_pos (hlt.mpr hwrap), Convert.toInt32_natCast (by omega), ok_bind, hfragile,
      if_pos (by omega), sub32_eq (by omega) (by omega), pure_eq_ok, min_eq_right (by omega)]
    congr 2
    omega
  · rw [min_eq_left (by omega), Nat.sub_eq_zero_of_le (by omega)]
    split
    · rw [Convert.toInt32_natCast (by omega), ok_bind, hfragile, if_neg (by omega), pure_eq_ok]
      rfl
    · rfl

/-- From an `Out` inside the data area the copy fetches the two pieces. -/
theorem readAvailable_pieces {cb : RingControlBlock} (hIn : cb.In.toNat ≤ dev.dataMaximumSize)
    (hOut : cb.Out.toNat < dev.dataMaximumSize) :
    readAvailable dev cb (readableSize dev cb : ℕ) m =
      .ok (slice m (dev.incomingDataOffset + cb.Out.toNat)
          (min (readableSize dev cb) (dev.dataMaximumSize - cb.Out.toNat)) ++
        slice m dev.incomingDataOffset
          (readableSize dev cb - (dev.dataMaximumSize - cb.Out.toNat))) := by
  have hcap := dev.incomingDataOffset_add
  have hread := readableSize_le hIn
  have hfirst := readArray_front m (dev.incomingDataOffset + cb.Out.toNat)
    (min (readableSize dev cb) (dev.dataMaximumSize - cb.Out.toNat))
    (readableSize dev cb - (dev.dataMaximumSize - cb.Out.toNat)) (by omega)
    (by omega : _ < dev.capacity)
  have hsecond := readArray_back m dev.incomingDataOffset
    (readableSize dev cb - (dev.dataMaximumSize - cb.Out.toNat))
    (slice m (dev.incomingDataOffset + cb.Out.toNat)
      (min (readableSize dev cb) (dev.dataMaximumSize - cb.Out.toNat)))
    (by omega) (by omega : _ < dev.capacity)
  have hsum : min (readableSize dev cb) (dev.dataMaximumSize - cb.Out.toNat) +
      (readableSize dev cb - (dev.dataMaximumSize - cb.Out.toNat)) = readableSize dev cb := by omega
  rw [hsum] at hfirst
  rw [length_slice] at hsecond
  rw [readAvailable, popSplit_eq hIn hOut.le, ok_bind]
  simp only [Int.toNat_natCast]
  rw [hfirst, ok_bind]
  split
  · exact hsecond
  · next hnone =>
    rw [show readableSize dev cb - (dev.dataMaximumSize - cb.Out.toNat) = 0 by omega]
    rfl

/-- From an `Out` inside the data area the copy is the circular window of the readable
size. -/
theorem readAvailable_eq {cb : RingControlBlock} (hIn : cb.In.toNat ≤ dev.dataMaximumSize)
    (hOut : cb.Out.toNat < dev.dataMaximumSize) :
    readAvailable dev cb (readableSize dev cb : ℕ) m =
      .ok (window (incomingData dev m) dev.dataMaximumSize cb.Out.toNat (readableSize dev cb)) := by
  have hread := readableSize_le hIn
  rw [readAvailable_pieces hIn hOut]
  by_cases hsplit : dev.dataMaximumSize < cb.Out.toNat + readableSize dev cb
  · rw [window_eq_slice_append (by omega) (by omega) (by omega), slice_incomingData,
      slice_incomingData, Nat.add_zero, min_eq_right (by omega)]
  · rw [window_eq_slice (by omega), slice_incomingData, min_eq_left (by omega),
      Nat.sub_eq_zero_of_le (by omega)]
    simp [slice]

/-- The offset a pop stores, for a packet within the readable size. -/
theorem popFinalOffset_eq {cb : RingControlBlock} {size : ℕ}
    (hIn : cb.In.toNat ≤ dev.dataMaximumSize) (hOut : cb.Out.toNat ≤ dev.dataMaximumSize)
    (hsize : size ≤ readableSize dev cb) :
    popFinalOffset dev cb size = .ok (.ofNat (advance dev.dataMaximumSize cb.Out.toNat size)) := by
  have hfit := dev.offsets_fit
  have hle : size ≤ dev.dataMaximumSize := hsize.trans (readableSize_le hIn)
  have hfragile : sub32 dev.dataMaximumSize cb.Out.toNat =
      (dev.dataMaximumSize - cb.Out.toNat : ℕ) := by
    rw [sub32_eq (by omega) (by omega)]
    omega
  rw [popFinalOffset, ← Nat.cast_add, Convert.toUInt32_natCast (by omega), ok_bind, advance]
  unfold readableSize at hsize
  by_cases h : cb.In.toNat < cb.Out.toNat
  · rw [if_pos (UInt32.lt_iff_toNat_lt.mpr h), Convert.toInt32_natCast (by omega), ok_bind, hfragile]
    by_cases hsplit : dev.dataMaximumSize < cb.Out.toNat + size
    · have hrest : sub32 size (dev.dataMaximumSize - cb.Out.toNat : ℕ) =
          (cb.Out.toNat + size - dev.dataMaximumSize : ℕ) := by
        rw [sub32_eq (by omega) (by omega)]
        omega
      rw [if_pos (by omega), if_pos hsplit, hrest, Convert.toUInt32_natCast (by omega)]
    · rw [if_neg (by omega), if_neg hsplit, pure_eq_ok]
  · rw [if_pos (by omega)] at hsize
    rw [if_neg (fun hc => h (UInt32.lt_iff_toNat_lt.mp hc)), if_neg (by omega), pure_eq_ok]

/-! ## What the checks establish -/

/-- The descriptor at the front of the available bytes, the payload behind its
`DataOffset`, and the pipe header at the front of the payload. -/
def frontDescriptor (bytes : List UInt8) : PacketDescriptor := .ofBytes bytes
def frontPayload (bytes : List UInt8) : List UInt8 := bytes.drop (frontDescriptor bytes).dataOffset
def frontHeader (bytes : List UInt8) : PipeHeader := .ofBytes (frontPayload bytes)

/-- What holds when every check has passed. -/
structure Decoded (bytes content : List UInt8) (size : ℤ) : Prop where
  descriptor_fits : 16 ≤ bytes.length
  type_eq : (frontDescriptor bytes).type = .dataInBand
  offset_ge : 16 ≤ (frontDescriptor bytes).dataOffset
  offset_le : (frontDescriptor bytes).dataOffset ≤ (frontDescriptor bytes).length
  length_le : (frontDescriptor bytes).length + 8 ≤ bytes.length
  size_eq : size = ((frontDescriptor bytes).length + 8 : ℕ)
  header_type : (frontHeader bytes).type = .data
  dataSize_lt : (frontHeader bytes).rawDataSize.toNat < 2 ^ 31
  dataSize_check : ¬ ((frontPayload bytes).length : ℤ) <
    add32 pipeHeaderSize (frontHeader bytes).rawDataSize.toNat
  content_eq : content =
    ((frontPayload bytes).drop 8).take (frontHeader bytes).rawDataSize.toNat

theorem decoded_of_decodePacket {bytes : List UInt8} {size : ℤ}
    (h : decodePacket bytes = .ok (content, size)) : Decoded bytes content size := by
  have hmax := (frontDescriptor bytes).length_le
  have hadd : add32 (frontDescriptor bytes).length 8 = ((frontDescriptor bytes).length + 8 : ℕ) := by
    rw [add32_eq (by omega) (by omega)]
    omega
  obtain ⟨descriptor, hdescriptor, h⟩ := bind_eq_ok h
  obtain ⟨hshort, hdescriptor⟩ := ite_error_eq_ok hdescriptor
  cases hdescriptor
  obtain ⟨htype, h⟩ := ite_error_eq_ok h
  obtain ⟨hoffset, h⟩ := ite_error_eq_ok h
  obtain ⟨hlength, h⟩ := ite_error_eq_ok h
  obtain ⟨header, hheader, h⟩ := bind_eq_ok h
  obtain ⟨hpayload, hheader⟩ := ite_error_eq_ok hheader
  cases hheader
  obtain ⟨hdata, h⟩ := ite_error_eq_ok h
  obtain ⟨dataSize, hdataSize, h⟩ := bind_eq_ok h
  obtain ⟨hother, hdataSize⟩ := ite_error_eq_ok hdataSize
  cases hdataSize
  obtain ⟨pipeDataSize, hconv, h⟩ := bind_eq_ok h
  have hlt : (frontHeader bytes).rawDataSize.toNat < 2 ^ 31 := by
    rw [Convert.toInt32] at hconv
    split at hconv
    · next hrange => exact Int.ofNat_lt.mp hrange.2
    · cases hconv
  change Convert.toInt32 (frontHeader bytes).rawDataSize.toNat = _ at hconv
  rw [Convert.toInt32_natCast hlt] at hconv
  cases hconv
  obtain ⟨hcheck, h⟩ := ite_error_eq_ok h
  cases h
  change ¬ ((frontDescriptor bytes).dataOffset < 16 ∨
    (frontDescriptor bytes).dataOffset > bytes.length ∨
    (frontDescriptor bytes).dataOffset > (frontDescriptor bytes).length) at hoffset
  change ¬ ((bytes.length : ℤ) < add32 (frontDescriptor bytes).length 8) at hlength
  exact {
    descriptor_fits := Nat.le_of_not_lt hshort
    type_eq := Decidable.not_not.mp htype
    offset_ge := by omega
    offset_le := by omega
    length_le := by omega
    size_eq := hadd
    header_type := Decidable.not_not.mp hdata
    dataSize_lt := hlt
    dataSize_check := hcheck
    content_eq := by rw [Int.toNat_natCast]; rfl }

/-- Bytes for which all of this holds pass the checks. -/
theorem Decoded.decodePacket_eq {bytes : List UInt8} {size : ℤ} (H : Decoded bytes content size) :
    decodePacket bytes = .ok (content, size) := by
  have hoffset := H.offset_ge
  have hoffset' := H.offset_le
  have hlength := H.length_le
  have hlt := H.dataSize_lt
  have hmax := (frontDescriptor bytes).length_le
  have hsize := add32_eq (x := (frontDescriptor bytes).length) (y := 8) (by omega) (by omega)
  have hdrop : bytes.drop (frontDescriptor bytes).dataOffset = frontPayload bytes := rfl
  have hpayload : (frontPayload bytes).length = bytes.length - (frontDescriptor bytes).dataOffset :=
    List.length_drop
  have hdescriptor : bytesToStructure packetDescriptorSize PacketDescriptor.ofBytes bytes =
      .ok (frontDescriptor bytes) := bytesToStructure_of_le H.descriptor_fits
  have hheader : bytesToStructure pipeHeaderSize PipeHeader.ofBytes (frontPayload bytes) =
      .ok (frontHeader bytes) := bytesToStructure_of_le (by rw [hpayload, pipeHeaderSize]; omega)
  have hdataSize : (frontHeader bytes).dataSize = .ok (frontHeader bytes).rawDataSize :=
    if_neg (by rw [H.header_type]; decide)
  rw [decodePacket, hdescriptor, ok_bind, if_neg (not_not.mpr H.type_eq),
    if_neg (by rw [packetDescriptorSize]; omega), if_neg (by rw [hsize]; omega)]
  simp only [hdrop]
  rw [hheader, ok_bind, if_neg (not_not.mpr H.header_type), hdataSize, ok_bind,
    Convert.toInt32_natCast hlt, ok_bind, if_neg H.dataSize_check, Int.toNat_natCast, H.content_eq,
    H.size_eq, hsize, pipeHeaderSize, Nat.cast_add, Nat.cast_ofNat]

theorem frontDescriptor_image (p : PipePacket) (rest : List UInt8) :
    frontDescriptor (p.image ++ rest) = p.descriptor := p.ofBytes_image rest

theorem frontPayload_image (p : PipePacket) (rest : List UInt8) :
    frontPayload (p.image ++ rest) = (p.image ++ rest).drop 16 := by
  rw [frontPayload, frontDescriptor_image, p.dataOffset_descriptor]

theorem frontHeader_image (p : PipePacket) (rest : List UInt8) :
    frontHeader (p.image ++ rest) = p.header := by
  rw [frontHeader, frontPayload_image, p.ofBytes_drop_image]

/-- A well-formed packet at the front passes every check. -/
theorem PipePacket.decoded (p : PipePacket) (rest : List UInt8) :
    Decoded (p.image ++ rest) p.content p.size := by
  have hfits := p.fits
  have hsize := p.size_ge
  have hlen := p.length_descriptor
  have himage : (p.image ++ rest).length = p.size + rest.length := by
    rw [List.length_append, p.length_image]
  exact {
    descriptor_fits := by omega
    type_eq := by rw [frontDescriptor_image, p.type_descriptor]
    offset_ge := by rw [frontDescriptor_image, p.dataOffset_descriptor]
    offset_le := by rw [frontDescriptor_image, p.dataOffset_descriptor]; omega
    length_le := by rw [frontDescriptor_image]; omega
    size_eq := by rw [frontDescriptor_image, hlen]
    header_type := by rw [frontHeader_image, p.type_header]
    dataSize_lt := by rw [frontHeader_image, p.dataSize_header]; omega
    dataSize_check := by
      rw [frontPayload_image, frontHeader_image, p.dataSize_header, List.length_drop, himage,
        pipeHeaderSize, add32_eq (by omega) (by omega)]
      omega
    content_eq := by
      rw [frontPayload_image, frontHeader_image, p.dataSize_header, p.content_image] }

theorem decodePacket_image (p : PipePacket) (rest : List UInt8) :
    decodePacket (p.image ++ rest) = .ok (p.content, (p.size : ℤ)) :=
  (p.decoded rest).decodePacket_eq

/-! ## The pop on indices inside the data area -/

/-- The bytes a pop sees from a control block: the readable region, from `Out` on. -/
def readableBytes (dev : UioHvDevice) (cb : RingControlBlock) (m : Mapping) : List UInt8 :=
  window (incomingData dev m) dev.dataMaximumSize cb.Out.toNat (readableSize dev cb)

/-- The bytes a pop sees that is not disturbed. -/
abbrev availableBytes (dev : UioHvDevice) (m : Mapping) : List UInt8 :=
  readableBytes dev (incoming dev m) m

section

variable {cb : RingControlBlock}

@[simp] theorem length_readableBytes : (readableBytes dev cb m).length = readableSize dev cb :=
  length_window _ _ _ _

/-- From an `Out` inside the data area a pop decodes the readable bytes. -/
theorem popCopy_eq (hIn : cb.In.toNat ≤ dev.dataMaximumSize)
    (hOut : cb.Out.toNat < dev.dataMaximumSize) :
    popCopy dev cb m =
      if readableSize dev cb < 24 then .ok none
      else decodePacket (readableBytes dev cb m) >>= fun r => .ok (some (r.1,
        .ofNat (advance dev.dataMaximumSize cb.Out.toNat r.2.toNat))) := by
  have hheaders : pipePacketHeaderSize = 24 := rfl
  rw [popCopy, getAvailableSizeInformation_eq hIn hOut.le, ok_bind]
  by_cases hshort : readableSize dev cb < 24
  · exact (if_pos (by rw [hheaders]; omega)).trans (if_pos hshort).symm
  simp only
  rw [if_neg (by omega), if_neg hshort, readAvailable_eq hIn hOut, ok_bind]
  change (decodePacket (readableBytes dev cb m) >>= _) = _
  cases hdecode : decodePacket (readableBytes dev cb m) with
  | error e => rfl
  | ok r =>
      obtain ⟨content, size⟩ := r
      have hd := decoded_of_decodePacket hdecode
      have hle := hd.length_le
      rw [length_readableBytes] at hle
      rw [ok_bind, ok_bind, hd.size_eq]
      simp only
      rw [popFinalOffset_eq hIn hOut.le hle, ok_bind, Int.toNat_natCast]

/-- Nothing, or not even the two headers, is readable: the pop finds no packet. -/
theorem popCopy_none (hIn : cb.In.toNat ≤ dev.dataMaximumSize)
    (hOut : cb.Out.toNat ≤ dev.dataMaximumSize) (h : readableSize dev cb < 24) :
    popCopy dev cb m = .ok none := by
  have hheaders : pipePacketHeaderSize = 24 := rfl
  rw [popCopy, getAvailableSizeInformation_eq hIn hOut, ok_bind]
  exact if_pos (by rw [hheaders]; omega)

/-- From an `Out` at the very end of the data area the first read has no byte to fetch
but a position at the capacity, and throws. -/
theorem popCopy_end (hIn : cb.In.toNat < dev.dataMaximumSize)
    (hOut : cb.Out.toNat = dev.dataMaximumSize) (h : 24 ≤ cb.In.toNat) :
    popCopy dev cb m = .error .argumentOutOfRange := by
  have hcap := dev.incomingDataOffset_add
  have hread : readableSize dev cb = cb.In.toNat := by
    rw [readableSize, if_neg (by omega)]
    omega
  have hpieces := popSplit_eq hIn.le hOut.le
  rw [hread, hOut, Nat.sub_self, Nat.min_zero, Nat.sub_zero] at hpieces
  have hheaders : pipePacketHeaderSize = 24 := rfl
  rw [popCopy, getAvailableSizeInformation_eq hIn.le hOut.le, ok_bind, hread]
  simp only
  rw [if_neg (by omega), readAvailable, hpieces, ok_bind]
  simp only
  rw [readArray, if_neg (by omega), if_neg (by simp), if_pos (by omega)]
  rfl

/-- A pop that comes to store has decoded the packet at the front of the readable region,
and stores the index behind it. -/
theorem decoded_of_popCopy (h : popCopy dev cb m = .ok (some (content, finalOffset)))
    (hIn : cb.In.toNat ≤ dev.dataMaximumSize) (hOut : cb.Out.toNat < dev.dataMaximumSize) :
    ∃ size : ℕ, Decoded (readableBytes dev cb m) content size ∧
      finalOffset.toNat = advance dev.dataMaximumSize cb.Out.toNat size := by
  have hfit := dev.offsets_fit
  rw [popCopy_eq hIn hOut] at h
  split at h
  · cases h
  obtain ⟨⟨c, size⟩, hdecode, h⟩ := bind_eq_ok h
  cases h
  have hd := decoded_of_decodePacket hdecode
  have hle := hd.length_le
  rw [length_readableBytes] at hle
  have hadvance := advance_le hOut.le (hle.trans (readableSize_le hIn))
  refine ⟨_, hd.size_eq ▸ hd, ?_⟩
  rw [hd.size_eq, Int.toNat_natCast]
  exact toNat_ofNat32 (by omega)

end

/-- A consuming pop has decoded the packet at the front of the available bytes. -/
theorem Consumes.decoded (h : Consumes dev m content finalOffset)
    (hIn : (incoming dev m).In.toNat ≤ dev.dataMaximumSize)
    (hOut : (incoming dev m).Out.toNat < dev.dataMaximumSize) :
    ∃ size : ℕ, Decoded (availableBytes dev m) content size ∧
      finalOffset.toNat = advance dev.dataMaximumSize (incoming dev m).Out.toNat size :=
  decoded_of_popCopy h hIn hOut

/-- A well-formed packet at the front of the readable region is consumed. -/
theorem consumes_of_image {p : PipePacket} {rest : List UInt8}
    (hIn : (incoming dev m).In.toNat ≤ dev.dataMaximumSize)
    (hOut : (incoming dev m).Out.toNat < dev.dataMaximumSize)
    (h : availableBytes dev m = p.image ++ rest) :
    Consumes dev m p.content
      (.ofNat (advance dev.dataMaximumSize (incoming dev m).Out.toNat p.size)) := by
  have hlen : readableSize dev (incoming dev m) = p.size + rest.length := by
    have := congrArg List.length h
    rwa [length_readableBytes, List.length_append, p.length_image] at this
  have hsize := p.size_ge
  rw [Consumes, popCopy_eq hIn hOut, if_neg (by omega), ← availableBytes, h, decodePacket_image,
    ok_bind, Int.toNat_natCast]

end

end HvGin
