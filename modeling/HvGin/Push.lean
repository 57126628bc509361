import HvGin.Device

/-!
# `PushPipePacket`

The push builds the packet image, checks it against the writable size, copies it
in one or two pieces and stores the next `In`. `run_pushPipePacket` describes a
push that returns by its effect: the image is placed circularly at `In`, `In`
moves, and nothing else in the mapping changes. Next to it stand the two ways the
push can throw from indices inside the ring, neither of which writes.

## Main definitions

* `pushPipePacket` — the operation, with `pushCopy` for its two copies.
* `pushPacket` — the well-formed packet a push writes.
* `PushEffect` — what a push that returns does to the mapping.
-/
namespace HvGin

open Lib

/-! ## The operation -/

/-- The descriptor of an outgoing packet with `n` bytes of content. -/
def pushDescriptor (n : ℕ) : Except Exn PacketDescriptor := do
  let descriptor := PacketDescriptor.zero.setType .dataInBand
  let descriptor ← descriptor.setDataOffset packetDescriptorSize
  let descriptor ← descriptor.setLength (add32 pipePacketHeaderSize n)
  let descriptor := descriptor.setCompletionRequested false
  pure { descriptor with transactionId := 0xFFFFFFFFFFFFFFFF }

/-- The pipe header of an outgoing packet with `n` bytes of content. -/
def pushHeader (n : ℕ) : Except Exn PipeHeader := do
  let header := PipeHeader.zero.setType .data
  let dataSize ← Convert.toUInt32 n
  header.setDataSize dataSize

/-- `Array.CopyTo`. -/
def copyTo (source target : List UInt8) (index : ℕ) : Except Exn (List UInt8) :=
  if target.length < index + source.length then .error .argument
  else .ok (target.take index ++ source ++ target.drop (index + source.length))

/-- The array `PacketBytes`: descriptor, pipe header and content from the front, and
the four bytes of `In` eight bytes before the end. -/
def packetBytes (descriptor : PacketDescriptor) (header : PipeHeader) (content : List UInt8)
    (In : UInt32) (size : ℤ) : Except Exn (List UInt8) := do
  let bytes := List.replicate size.toNat 0
  let bytes ← copyTo descriptor.toBytes bytes 0
  let bytes ← copyTo header.toBytes bytes packetDescriptorSize
  let bytes ← copyTo content bytes pipePacketHeaderSize
  copyTo (toLE 4 In.toNat) bytes (bytes.length - 8)

/-- `FirstWriteSize` and `SecondWriteSize`. -/
def pushSplit (dev : UioHvDevice) (cb : RingControlBlock) (length : ℤ) : Except Exn (ℤ × ℤ) :=
  if cb.Out ≤ cb.In then do
    let offset ← Convert.toInt32 cb.In.toNat
    let fragileSize := sub32 dev.dataMaximumSize offset
    if fragileSize < length then pure (fragileSize, sub32 length fragileSize)
    else pure (length, 0)
  else pure (length, 0)

/-- The copies of the packet into the data area; gives the offset to store. -/
def pushCopy (dev : UioHvDevice) (cb : RingControlBlock) (bytes : List UInt8) :
    Act Mapping Exn UInt32 := do
  let (firstWriteSize, secondWriteSize) ← Act.lift (pushSplit dev cb bytes.length)
  writeArray dev (dev.outgoingDataOffset + cb.In.toNat : ℕ) bytes 0 firstWriteSize
  if 0 < secondWriteSize then
    writeArray dev dev.outgoingDataOffset bytes firstWriteSize secondWriteSize
  Act.lift (Convert.toUInt32
    (if 0 < secondWriteSize then secondWriteSize else (cb.In.toNat + bytes.length : ℕ)))

/-- The two headers, which do not depend on the ring. -/
def pushHeaders (n : ℕ) : Except Exn (PacketDescriptor × PipeHeader) := do
  let descriptor ← pushDescriptor n
  let header ← pushHeader n
  pure (descriptor, header)

/-- All of the push between the read of the control block and the store; gives the
offset to store. -/
def pushWork (dev : UioHvDevice) (content : Bytes) (headers : PacketDescriptor × PipeHeader)
    (cb : RingControlBlock) : Act Mapping Exn UInt32 := do
  let size := add32 headers.1.length 8
  let (_, availableSize) ← Act.lift (getAvailableSizeInformation dev cb)
  Act.throwIf (availableSize < size) (.exception "Insufficient Space")
  let bytes ← Act.lift (packetBytes headers.1 headers.2 content.data cb.In size)
  pushCopy dev cb bytes

/-- The store of `In`. -/
def pushStore (dev : UioHvDevice) (finalOffset : UInt32) (m : Mapping) : Mapping :=
  writeUInt32 dev.outgoingControlOffset finalOffset m

/-- `PushPipePacket`. -/
def pushPipePacket (dev : UioHvDevice) (content : Bytes) : Act Mapping Exn PUnit := do
  let headers ← Act.lift (pushHeaders content.data.length)
  let cb ← getRingControlBlock dev dev.outgoingControlOffset
  let finalOffset ← pushWork dev content headers cb
  Act.modify (pushStore dev finalOffset)

/-! ## The packet a push writes -/

/-- The packet a push of `content` writes when it finds `In` in the control block: no
flags, the largest transaction id, zero padding, and a trailer that starts with `In`. -/
def pushPacket (content : List UInt8) (In : UInt32) (fits : 24 + content.length ≤ 524280) :
    PipePacket where
  content := content
  flags := 0
  transactionId := 0xFFFFFFFFFFFFFFFF
  tail := List.replicate (alignUp8 (24 + content.length) - (24 + content.length)) 0 ++
    (toLE 4 In.toNat ++ List.replicate 4 0)
  fits := fits
  length_tail := by
    have := le_alignUp8 (24 + content.length)
    simp only [List.length_append, List.length_replicate, length_toLE]
    unfold packetSize
    omega

variable {content : List UInt8} {In : UInt32}

@[simp] theorem content_pushPacket (fits : 24 + content.length ≤ 524280) :
    (pushPacket content In fits).content = content := rfl
@[simp] theorem size_pushPacket (fits : 24 + content.length ≤ 524280) :
    (pushPacket content In fits).size = packetSize content.length := rfl

/-- A packet with `n` zeros for content. -/
def PipePacket.zeros (n : ℕ) (h : 24 + n ≤ 524280) : PipePacket :=
  pushPacket (List.replicate n 0) 0 (by rwa [List.length_replicate])

theorem PipePacket.size_zeros (n : ℕ) (h : 24 + n ≤ 524280) : (zeros n h).size = packetSize n := by
  rw [zeros, size_pushPacket, List.length_replicate]

theorem packetDescriptorSize_alignedRaw8 :
    PacketDescriptor.alignedRaw8 (packetDescriptorSize : ℕ) = .ok 2 :=
  PacketDescriptor.alignedRaw8_ok (n := 16) (by norm_num)

theorem pipePacketHeaderSize_add32 {n : ℕ} (hn : n ≤ 0x7FFFFFC7) :
    add32 (pipePacketHeaderSize : ℕ) n = (24 + n : ℕ) := by
  rw [add32_eq] <;> simp only [pipePacketHeaderSize, packetDescriptorSize, pipeHeaderSize] <;>
    omega

theorem pushDescriptor_eq {n : ℕ} (fits : 24 + n ≤ 524280) :
    pushDescriptor n = .ok {
      rawType := PacketType.dataInBand.raw
      rawDataOffset8 := 2
      rawLength8 := .ofNat (alignUp8 (24 + n) / 8)
      rawFlags := 0
      transactionId := 0xFFFFFFFFFFFFFFFF } := by
  have hflags : (0 : UInt16) &&& 0xFFFE = 0 := by decide
  simp only [pushDescriptor, PacketDescriptor.setDataOffset, PacketDescriptor.setLength,
    packetDescriptorSize_alignedRaw8, pipePacketHeaderSize_add32 (n := n) (by omega),
    PacketDescriptor.alignedRaw8_ok fits, ok_bind, pure_eq_ok,
    PacketDescriptor.setCompletionRequested, PacketDescriptor.setType, PacketDescriptor.zero,
    Bool.false_eq_true, if_false, hflags]

theorem pushDescriptor_ok (In : UInt32) (fits : 24 + content.length ≤ 524280) :
    pushDescriptor content.length = .ok (pushPacket content In fits).descriptor :=
  pushDescriptor_eq fits

/-- Content that the length field cannot describe makes the conversion throw. -/
theorem pushDescriptor_overflow {n : ℕ} (h : 524280 < 24 + n) (hn : n ≤ 0x7FFFFFC7) :
    pushDescriptor n = .error .overflow := by
  simp only [pushDescriptor, PacketDescriptor.setDataOffset, PacketDescriptor.setLength,
    packetDescriptorSize_alignedRaw8, pipePacketHeaderSize_add32 hn,
    PacketDescriptor.alignedRaw8_overflow h (by omega), ok_bind, error_bind, pure_eq_ok]

theorem pushHeader_ok (In : UInt32) (fits : 24 + content.length ≤ 524280) :
    pushHeader content.length = .ok (pushPacket content In fits).header := by
  simp only [pushHeader, Convert.toUInt32_natCast (n := content.length) (by omega), ok_bind]
  rfl

theorem pushHeaders_ok (In : UInt32) (fits : 24 + content.length ≤ 524280) :
    pushHeaders content.length =
      .ok ((pushPacket content In fits).descriptor, (pushPacket content In fits).header) := by
  rw [pushHeaders, pushDescriptor_ok In fits, ok_bind, pushHeader_ok In fits, ok_bind,
    pure_eq_ok]

theorem pushHeaders_overflow {n : ℕ} (h : 524280 < 24 + n) (hn : n ≤ 0x7FFFFFC7) :
    pushHeaders n = .error .overflow := by
  rw [pushHeaders, pushDescriptor_overflow h hn, error_bind]

/-- Copying over the zeros behind what was copied before. -/
theorem copyTo_replicate (pre source : List UInt8) (index k : ℕ) (hindex : index = pre.length)
    (hk : source.length ≤ k) :
    copyTo source (pre ++ List.replicate k 0) index =
      .ok (pre ++ source ++ List.replicate (k - source.length) 0) := by
  subst hindex
  rw [copyTo, if_neg (by simp only [List.length_append, List.length_replicate]; omega),
    List.take_left' rfl, List.drop_append, List.drop_of_length_le (by omega), List.drop_replicate]
  simp

theorem packetBytes_eq (d : PacketDescriptor) (h : PipeHeader) (content : List UInt8)
    (In : UInt32) :
    packetBytes d h content In (packetSize content.length : ℕ) =
      .ok (d.toBytes ++ h.toBytes ++ content ++
        (List.replicate (alignUp8 (24 + content.length) - (24 + content.length)) 0 ++
          (toLE 4 In.toNat ++ List.replicate 4 0))) := by
  obtain ⟨pad, hpad⟩ : ∃ pad, alignUp8 (24 + content.length) = 24 + content.length + pad :=
    Nat.exists_eq_add_of_le (le_alignUp8 _)
  have hsize : packetSize content.length = 16 + (8 + (content.length + (pad + 8))) := by
    simp only [packetSize]
    omega
  have hzeros : List.replicate (8 + (content.length + (pad + 8)) - 8 - content.length) (0 : UInt8) =
      List.replicate pad 0 ++ List.replicate 8 0 := by
    rw [← List.replicate_add]
    congr 1
    omega
  have h₁ : copyTo d.toBytes (List.replicate (16 + (8 + (content.length + (pad + 8)))) 0) 0 =
      .ok (d.toBytes ++ List.replicate (8 + (content.length + (pad + 8))) 0) := by
    simpa using
      copyTo_replicate [] d.toBytes 0 (16 + (8 + (content.length + (pad + 8)))) rfl (by simp)
  have h₂ : copyTo h.toBytes (d.toBytes ++ List.replicate (8 + (content.length + (pad + 8))) 0) 16 =
      .ok (d.toBytes ++ h.toBytes ++ List.replicate (8 + (content.length + (pad + 8)) - 8) 0) := by
    simpa using
      copyTo_replicate d.toBytes h.toBytes 16 (8 + (content.length + (pad + 8))) (by simp) (by simp)
  have h₃ : copyTo content
        (d.toBytes ++ h.toBytes ++ List.replicate (8 + (content.length + (pad + 8)) - 8) 0) 24 =
      .ok (d.toBytes ++ h.toBytes ++ content ++ List.replicate pad 0 ++ List.replicate 8 0) := by
    rw [copyTo_replicate _ _ _ _ (by simp) (by omega), hzeros, ← List.append_assoc]
  have h₄ : copyTo (toLE 4 In.toNat)
        (d.toBytes ++ h.toBytes ++ content ++ List.replicate pad 0 ++ List.replicate 8 0)
        (d.toBytes ++ h.toBytes ++ content ++ List.replicate pad 0).length =
      .ok (d.toBytes ++ h.toBytes ++ content ++ List.replicate pad 0 ++ toLE 4 In.toNat ++
        List.replicate 4 0) := by
    rw [copyTo_replicate _ _ _ _ rfl (by simp), length_toLE]
  have hlast : (d.toBytes ++ h.toBytes ++ content ++ List.replicate pad 0 ++
      List.replicate 8 (0 : UInt8)).length - 8 =
      (d.toBytes ++ h.toBytes ++ content ++ List.replicate pad 0).length := by
    rw [List.length_append, List.length_replicate, Nat.add_sub_cancel]
  have hgap : alignUp8 (24 + content.length) - (24 + content.length) = pad := by omega
  simp only [packetBytes, Int.toNat_natCast, packetDescriptorSize, pipePacketHeaderSize,
    pipeHeaderSize, Nat.reduceAdd, hsize, h₁, h₂, h₃, ok_bind, hlast, h₄, hgap]
  simp only [List.append_assoc]

/-! ## The two copies -/

section

variable {dev : UioHvDevice} {cb : RingControlBlock} {bytes : List UInt8} {n : ℕ}

/-- Within the writable size a packet is split exactly where it would pass the end of
the data area. -/
theorem pushSplit_eq (hIn : cb.In.toNat ≤ dev.dataMaximumSize)
    (hOut : cb.Out.toNat ≤ dev.dataMaximumSize) (hroom : n ≤ writableSize dev cb) :
    pushSplit dev cb n = .ok (
      if dev.dataMaximumSize < cb.In.toNat + n then
        ((dev.dataMaximumSize - cb.In.toNat : ℕ), (cb.In.toNat + n - dev.dataMaximumSize : ℕ))
      else ((n : ℕ), (0 : ℕ))) := by
  have hfit := dev.offsets_fit
  unfold writableSize at hroom
  simp only [pushSplit]
  by_cases h : cb.Out.toNat ≤ cb.In.toNat
  · have hfragile : sub32 dev.dataMaximumSize cb.In.toNat =
        (dev.dataMaximumSize - cb.In.toNat : ℕ) := by
      rw [sub32_eq (by omega) (by omega)]
      omega
    rw [if_pos h] at hroom
    rw [if_pos (UInt32.le_iff_toNat_le.mpr h), Convert.toInt32_natCast (by omega), ok_bind, hfragile]
    by_cases hsplit : dev.dataMaximumSize < cb.In.toNat + n
    · rw [if_pos (by omega), if_pos hsplit, sub32_eq (by omega) (by omega), pure_eq_ok]
      congr 2
      omega
    · rw [if_neg (by omega), if_neg hsplit, pure_eq_ok]
      rfl
  · rw [if_neg h] at hroom
    rw [if_neg (fun hc => h (UInt32.le_iff_toNat_le.mp hc)), if_neg (by omega), pure_eq_ok]
    rfl

/-- The mapping after the copies. -/
def pushedData (dev : UioHvDevice) (In : ℕ) (bytes : List UInt8) (m : Mapping) : Mapping :=
  if dev.dataMaximumSize < In + bytes.length then
    blit (blit m (dev.outgoingDataOffset + In) (bytes.take (dev.dataMaximumSize - In)))
      dev.outgoingDataOffset (bytes.drop (dev.dataMaximumSize - In))
  else blit m (dev.outgoingDataOffset + In) bytes

/-- Within the writable size both copies succeed. -/
theorem run_pushCopy (hIn : cb.In.toNat ≤ dev.dataMaximumSize)
    (hOut : cb.Out.toNat ≤ dev.dataMaximumSize) (hroom : bytes.length ≤ writableSize dev cb)
    (m : Mapping) :
    (pushCopy dev cb bytes).run m =
      (.ok (.ofNat (advance dev.dataMaximumSize cb.In.toNat bytes.length)),
        pushedData dev cb.In.toNat bytes m) := by
  have hfit := dev.offsets_fit
  have hpage := dev.control_fits
  have hroom' : bytes.length ≤ dev.dataMaximumSize := hroom.trans (writableSize_le hOut)
  have hcap := dev.outgoingDataOffset_add_lt
  rw [pushCopy, Act.run_lift_ok (pushSplit_eq hIn hOut hroom), pushedData, advance]
  by_cases hsplit : dev.dataMaximumSize < cb.In.toNat + bytes.length
  · have hfirst := run_writeArray dev bytes (dev.outgoingDataOffset + cb.In.toNat) 0
      (dev.dataMaximumSize - cb.In.toNat) (by omega) (by omega) (by omega) m
    have hsecond := run_writeArray dev bytes dev.outgoingDataOffset
      (dev.dataMaximumSize - cb.In.toNat) (cb.In.toNat + bytes.length - dev.dataMaximumSize)
      (by omega) (by omega) (by omega)
    have hrest : (bytes.drop (dev.dataMaximumSize - cb.In.toNat)).take
        (cb.In.toNat + bytes.length - dev.dataMaximumSize) =
        bytes.drop (dev.dataMaximumSize - cb.In.toNat) :=
      List.take_of_length_le (by rw [List.length_drop]; omega)
    rw [Nat.cast_zero] at hfirst
    simp only [if_pos hsplit]
    rw [Act.run_bind_ok hfirst, if_pos (by omega), if_pos (by omega), Act.run_bind_ok (hsecond _),
      Act.lift, Act.run_reads, Convert.toUInt32_natCast (by omega), List.drop_zero, hrest]
  · have hwhole := run_writeArray dev bytes (dev.outgoingDataOffset + cb.In.toNat) 0 bytes.length
      (by omega) (by omega) (by omega) m
    rw [Nat.cast_zero] at hwhole
    simp only [if_neg hsplit]
    rw [Act.run_bind_ok hwhole, if_neg (by simp), if_neg (by simp)]
    change (Act.lift _).run _ = _
    rw [Act.lift, Act.run_reads, Convert.toUInt32_natCast (by omega), List.drop_zero,
      List.take_length]

/-- The copies place the packet circularly at `In`. -/
theorem placed_pushedData {In : ℕ} (hIn : In ≤ dev.dataMaximumSize)
    (hlen : bytes.length ≤ dev.dataMaximumSize) (m : Mapping) :
    Placed (outgoingData dev m) (outgoingData dev (pushedData dev In bytes m))
      dev.dataMaximumSize In bytes := by
  simp only [pushedData]
  split
  · next hwrap =>
    have hshift : outgoingData dev (blit (blit m (dev.outgoingDataOffset + In)
          (bytes.take (dev.dataMaximumSize - In))) dev.outgoingDataOffset
          (bytes.drop (dev.dataMaximumSize - In))) =
        blit (blit (outgoingData dev m) In (bytes.take (dev.dataMaximumSize - In))) 0
          (bytes.drop (dev.dataMaximumSize - In)) := by
      funext i
      have h := blit_shift (blit m (dev.outgoingDataOffset + In)
        (bytes.take (dev.dataMaximumSize - In))) dev.outgoingDataOffset 0 i
        (bytes.drop (dev.dataMaximumSize - In))
      rw [Nat.add_zero] at h
      rw [outgoingData, h]
      congr 1
      funext j
      exact blit_shift _ _ _ _ _
    rw [hshift]
    exact Placed.of_blit_blit rfl hIn hlen hwrap
  · next hstraight =>
    have hshift : outgoingData dev (blit m (dev.outgoingDataOffset + In) bytes) =
        blit (outgoingData dev m) In bytes := funext fun i => blit_shift _ _ _ _ _
    rw [hshift]
    exact Placed.of_blit (by omega)

/-- The copies stay inside the outgoing data area. -/
theorem pushedData_apply {In a : ℕ} (hIn : In ≤ dev.dataMaximumSize)
    (hlen : bytes.length ≤ dev.dataMaximumSize)
    (ha : a < dev.outgoingDataOffset ∨ dev.outgoingDataOffset + dev.dataMaximumSize ≤ a)
    (m : Mapping) : pushedData dev In bytes m a = m a := by
  have houtside : ∀ (s : Mapping) (p : ℕ) (xs : List UInt8), dev.outgoingDataOffset ≤ p →
      p + xs.length ≤ dev.outgoingDataOffset + dev.dataMaximumSize → blit s p xs a = s a := by
    intro s p xs hp hx
    rcases ha with h | h
    · exact blit_of_lt (by omega)
    · exact blit_of_ge (by omega)
  simp only [pushedData]
  split
  · next hwrap =>
    rw [houtside _ _ _ le_rfl (by rw [List.length_drop]; omega),
      houtside _ _ _ (by omega) (by rw [List.length_take]; omega)]
  · next hstraight => exact houtside _ _ _ (by omega) (by omega)

@[simp] theorem outgoing_pushedData {In : ℕ} (hIn : In ≤ dev.dataMaximumSize)
    (hlen : bytes.length ≤ dev.dataMaximumSize) (m : Mapping) :
    outgoing dev (pushedData dev In bytes m) = outgoing dev m := by
  have hpage := dev.control_fits
  have hoffset : dev.outgoingControlOffset = 0 := rfl
  have hdata : dev.outgoingDataOffset = dev.controlMaximumSize := rfl
  exact controlBlock_congr fun i hi => pushedData_apply hIn hlen (Or.inl (by omega)) m

@[simp] theorem incoming_pushedData {In : ℕ} (hIn : In ≤ dev.dataMaximumSize)
    (hlen : bytes.length ≤ dev.dataMaximumSize) (m : Mapping) :
    incoming dev (pushedData dev In bytes m) = incoming dev m := by
  have hcontrol := dev.incomingControlOffset_eq
  exact controlBlock_congr fun i hi => pushedData_apply hIn hlen (Or.inr (by omega)) m

/-! ## The store -/

theorem pushStore_apply {v : UInt32} {m : Mapping} {a : ℕ} (h : 4 ≤ a) :
    pushStore dev v m a = m a := by
  have hoffset : dev.outgoingControlOffset = 0 := rfl
  exact writeUInt32_apply (Or.inr (by omega))

@[simp] theorem outgoing_pushStore {v : UInt32} {m : Mapping} :
    outgoing dev (pushStore dev v m) = { outgoing dev m with In := v } := by
  simp only [outgoing, controlBlock, pushStore, readUInt32_writeUInt32, RingControlBlock.mk.injEq,
    true_and]
  exact ⟨readUInt32_writeUInt32_of_ne (Or.inr le_rfl),
    readUInt32_writeUInt32_of_ne (Or.inr (by omega))⟩

@[simp] theorem incoming_pushStore {v : UInt32} {m : Mapping} :
    incoming dev (pushStore dev v m) = incoming dev m := by
  have hpage := dev.control_fits
  have hcontrol := dev.incomingControlOffset_eq
  have hdata : dev.outgoingDataOffset = dev.controlMaximumSize := rfl
  exact controlBlock_congr fun i hi => pushStore_apply (by omega)

@[simp] theorem outgoingData_pushStore {v : UInt32} {m : Mapping} :
    outgoingData dev (pushStore dev v m) = outgoingData dev m := by
  have hpage := dev.control_fits
  have hdata : dev.outgoingDataOffset = dev.controlMaximumSize := rfl
  exact funext fun i => pushStore_apply (by omega)

end

/-! ## What a push does -/

/-- The effect of a push that returns: the packet stands at `In`, modulo the size of the
data area, `In` has advanced, and the rest of the mapping is as it was. -/
structure PushEffect (dev : UioHvDevice) (m m' : Mapping) (p : PipePacket) : Prop where
  placed : Placed (outgoingData dev m) (outgoingData dev m') dev.dataMaximumSize
    (outgoing dev m).In.toNat p.image
  in_eq : (outgoing dev m').In.toNat =
    advance dev.dataMaximumSize (outgoing dev m).In.toNat p.size
  frame : ∀ a, 4 ≤ a → a < dev.outgoingDataOffset ∨
    dev.outgoingDataOffset + dev.dataMaximumSize ≤ a → m' a = m a

section

variable {dev : UioHvDevice} {m m' : Mapping} {c : Bytes} {p : PipePacket}

/-- With room the packet is copied to `In`, and the offset behind it is to be stored. -/
theorem run_pushWork {cb : RingControlBlock} (hIn : cb.In.toNat ≤ dev.dataMaximumSize)
    (hOut : cb.Out.toNat ≤ dev.dataMaximumSize) (fits : 24 + c.data.length ≤ 524280)
    (hroom : packetSize c.data.length ≤ writableSize dev cb) :
    (pushWork dev c ((pushPacket c.data cb.In fits).descriptor,
        (pushPacket c.data cb.In fits).header) cb).run m =
      (.ok (.ofNat (advance dev.dataMaximumSize cb.In.toNat (packetSize c.data.length))),
        pushedData dev cb.In.toNat (pushPacket c.data cb.In fits).image m) := by
  have hsize := (pushPacket c.data cb.In fits).add32_descriptor
  have hlen := (pushPacket c.data cb.In fits).length_image
  rw [size_pushPacket] at hsize hlen
  rw [pushWork, Act.run_lift_ok (getAvailableSizeInformation_eq hIn hOut)]
  simp only [hsize]
  rw [Act.run_throwIf_neg (by omega), Act.run_lift_ok (packetBytes_eq _ _ _ _)]
  have hcopy : (pushCopy dev cb (pushPacket c.data cb.In fits).image).run m = _ :=
    run_pushCopy hIn hOut (by omega) m
  rw [hlen] at hcopy
  exact hcopy

/-- Without room the push throws before it copies. -/
theorem run_pushWork_full {cb : RingControlBlock} (hIn : cb.In.toNat ≤ dev.dataMaximumSize)
    (hOut : cb.Out.toNat ≤ dev.dataMaximumSize) (fits : 24 + c.data.length ≤ 524280)
    (hroom : writableSize dev cb < packetSize c.data.length) :
    (pushWork dev c ((pushPacket c.data cb.In fits).descriptor,
        (pushPacket c.data cb.In fits).header) cb).run m =
      (.error (.exception "Insufficient Space"), m) := by
  have hsize := (pushPacket c.data cb.In fits).add32_descriptor
  rw [size_pushPacket] at hsize
  rw [pushWork, Act.run_lift_ok (getAvailableSizeInformation_eq hIn hOut)]
  simp only [hsize]
  rw [Act.run_throwIf_pos (by omega)]

/-- A push with room returns, with its effect. -/
theorem run_pushPipePacket (hIn : (outgoing dev m).In.toNat ≤ dev.dataMaximumSize)
    (hOut : (outgoing dev m).Out.toNat ≤ dev.dataMaximumSize)
    (fits : 24 + c.data.length ≤ 524280)
    (hroom : packetSize c.data.length ≤ writableSize dev (outgoing dev m)) :
    ∃ m', (pushPipePacket dev c).run m = (.ok ⟨⟩, m') ∧
      PushEffect dev m m' (pushPacket c.data (outgoing dev m).In fits) := by
  have hfit := dev.offsets_fit
  have hlen := (pushPacket c.data (outgoing dev m).In fits).length_image
  rw [size_pushPacket] at hlen
  have hle := hroom.trans (writableSize_le hOut)
  have hadvance := advance_le hIn hle
  refine ⟨pushStore dev
    (.ofNat (advance dev.dataMaximumSize (outgoing dev m).In.toNat (packetSize c.data.length)))
    (pushedData dev (outgoing dev m).In.toNat (pushPacket c.data (outgoing dev m).In fits).image m),
    ?_, ?_, ?_, ?_⟩
  · rw [pushPipePacket, Act.run_lift_ok (pushHeaders_ok (outgoing dev m).In fits),
      Act.run_bind_ok (run_getRingControlBlock_outgoing dev m),
      Act.run_bind_ok (run_pushWork hIn hOut fits hroom), Act.run_modify]
  · rw [outgoingData_pushStore]
    exact placed_pushedData hIn (by omega) m
  · rw [outgoing_pushStore, toNat_ofNat32 (by omega), size_pushPacket]
  · intro a h4 ha
    rw [pushStore_apply h4]
    exact pushedData_apply hIn (by omega) ha m

/-- Content too long for the length field makes the push throw before it touches the
mapping. -/
theorem run_pushPipePacket_overflow (h : 524280 < 24 + c.data.length) :
    (pushPipePacket dev c).run m = (.error .overflow, m) :=
  Act.run_lift_error (pushHeaders_overflow h c.length_le)

/-- Without room the push throws and leaves the mapping alone. -/
theorem run_pushPipePacket_full (hIn : (outgoing dev m).In.toNat ≤ dev.dataMaximumSize)
    (hOut : (outgoing dev m).Out.toNat ≤ dev.dataMaximumSize)
    (fits : 24 + c.data.length ≤ 524280)
    (hroom : writableSize dev (outgoing dev m) < packetSize c.data.length) :
    (pushPipePacket dev c).run m = (.error (.exception "Insufficient Space"), m) := by
  rw [pushPipePacket, Act.run_lift_ok (pushHeaders_ok (outgoing dev m).In fits),
    Act.run_bind_ok (run_getRingControlBlock_outgoing dev m),
    Act.run_bind_error (run_pushWork_full hIn hOut fits hroom)]

/-- A push that returns had room, and had its effect. -/
theorem pushEffect_of_run (hIn : (outgoing dev m).In.toNat ≤ dev.dataMaximumSize)
    (hOut : (outgoing dev m).Out.toNat ≤ dev.dataMaximumSize)
    (h : (pushPipePacket dev c).run m = (.ok ⟨⟩, m')) :
    ∃ fits : 24 + c.data.length ≤ 524280,
      packetSize c.data.length ≤ writableSize dev (outgoing dev m) ∧
      PushEffect dev m m' (pushPacket c.data (outgoing dev m).In fits) := by
  by_cases hlong : 524280 < 24 + c.data.length
  · rw [run_pushPipePacket_overflow hlong] at h
    cases h
  have fits := not_lt.mp hlong
  by_cases hfull : writableSize dev (outgoing dev m) < packetSize c.data.length
  · rw [run_pushPipePacket_full hIn hOut fits hfull] at h
    cases h
  have hroom := not_lt.mp hfull
  obtain ⟨m'', hrun, heffect⟩ := run_pushPipePacket hIn hOut fits hroom
  rw [hrun] at h
  cases h
  exact ⟨fits, hroom, heffect⟩

namespace PushEffect

/-- The control block keeps `Out` and the interrupt mask. -/
theorem out_eq (H : PushEffect dev m m' p) : (outgoing dev m').Out = (outgoing dev m).Out := by
  have hpage := dev.control_fits
  refine readUInt32_congr fun i hi => H.frame _ (by omega) (Or.inl ?_)
  simp only [UioHvDevice.outgoingControlOffset, UioHvDevice.outgoingDataOffset]
  omega

/-- The incoming ring is untouched. -/
theorem incoming_eq (H : PushEffect dev m m' p) : incoming dev m' = incoming dev m := by
  have hpage := dev.control_fits
  refine controlBlock_congr fun i _ => H.frame _ ?_ (Or.inr ?_) <;>
    simp only [UioHvDevice.incomingControlOffset, UioHvDevice.ringBufferSize]
  · omega
  · simp only [UioHvDevice.outgoingDataOffset]
    omega

theorem incomingData_eq (H : PushEffect dev m m' p) : incomingData dev m' = incomingData dev m := by
  have hpage := dev.control_fits
  funext i
  refine H.frame _ ?_ (Or.inr ?_) <;>
    simp only [UioHvDevice.incomingDataOffset, UioHvDevice.ringBufferSize]
  · omega
  · simp only [UioHvDevice.outgoingDataOffset]
    omega

end PushEffect

end

end HvGin
