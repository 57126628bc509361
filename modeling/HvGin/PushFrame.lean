import HvGin.Push

/-!
# What a push touches, and when

`PushPipePacket` taken apart where another party can look: the computation of the
plan, the first copy, the second copy and the store of `In`. `PushCourse` is a push
in which the host may move `Out` between any two of them.

The copies only reach bytes in front of `Out`. `push_framed` states the bytes a push
leaves in the mapping, and that at no point before the store a byte the host may read
has changed.

## Main definitions

* `preparePush`, `firstWrite`, `secondWrite`, `storeIn` — the stages of the push.
* `PushCourse` — the stages with the host in between.
* `PushFrame` — the bytes a push that returns leaves in the mapping.
* `ReadableKept` — the readable region, and each part of it the host has yet to read.
-/
namespace HvGin

open Lib

/-! ## The stages -/

/-- What the push has computed before it touches the mapping. -/
structure PushPlan where
  In : UInt32
  packetBytes : List UInt8
  firstWriteSize : ℤ
  secondWriteSize : ℤ

/-- The push up to its first copy. -/
def preparePush (dev : UioHvDevice) (content : Bytes) : Act Mapping Exn PushPlan := do
  let headers ← Act.lift (pushHeaders content.data.length)
  let cb ← getRingControlBlock dev dev.outgoingControlOffset
  let size := add32 headers.1.length 8
  let (_, availableSize) ← Act.lift (getAvailableSizeInformation dev cb)
  Act.throwIf (availableSize < size) (.exception "Insufficient Space")
  let bytes ← Act.lift (packetBytes headers.1 headers.2 content.data cb.In size)
  let (firstWriteSize, secondWriteSize) ← Act.lift (pushSplit dev cb bytes.length)
  pure ⟨cb.In, bytes, firstWriteSize, secondWriteSize⟩

/-- The first copy. -/
def firstWrite (dev : UioHvDevice) (plan : PushPlan) : Act Mapping Exn PUnit :=
  writeArray dev (dev.outgoingDataOffset + plan.In.toNat : ℕ) plan.packetBytes 0 plan.firstWriteSize

/-- The second copy, if there is one. -/
def secondWrite (dev : UioHvDevice) (plan : PushPlan) : Act Mapping Exn PUnit :=
  if 0 < plan.secondWriteSize then
    writeArray dev dev.outgoingDataOffset plan.packetBytes plan.firstWriteSize plan.secondWriteSize
  else pure ⟨⟩

/-- The store of `In`. -/
def storeIn (dev : UioHvDevice) (plan : PushPlan) : Act Mapping Exn PUnit := do
  let finalOffset ← Act.lift (Convert.toUInt32
    (if 0 < plan.secondWriteSize then plan.secondWriteSize
      else (plan.In.toNat + plan.packetBytes.length : ℕ)))
  Act.modify (pushStore dev finalOffset)

/-- The stages, one behind the other, are the push. -/
theorem pushPipePacket_eq_stages (dev : UioHvDevice) (content : Bytes) :
    pushPipePacket dev content = (do
      let plan ← preparePush dev content
      firstWrite dev plan
      secondWrite dev plan
      storeIn dev plan) := by
  simp only [pushPipePacket, pushWork, pushCopy, preparePush, firstWrite, secondWrite, storeIn,
    Act.ite_bind_eq, bind_assoc, pure_bind]

/-! ## A push with the host beside it -/

/-- The host may have stored another `Out`: nothing but the four bytes of it differs. -/
def HostMoved (dev : UioHvDevice) (s t : Mapping) : Prop :=
  ∀ a, a < dev.outgoingControlOffset + 4 ∨ dev.outgoingControlOffset + 8 ≤ a → t a = s a

/-- A push from `m` to `m'`, with the mapping behind its first and its second copy. In
front of each stage the host may have moved `Out`. -/
structure PushCourse (dev : UioHvDevice) (plan : PushPlan) (m s₁ s₂ m' : Mapping) : Prop where
  first : ∃ s, HostMoved dev m s ∧ (firstWrite dev plan).run s = (.ok ⟨⟩, s₁)
  second : ∃ s, HostMoved dev s₁ s ∧ (secondWrite dev plan).run s = (.ok ⟨⟩, s₂)
  store : ∃ s, HostMoved dev s₂ s ∧ (storeIn dev plan).run s = (.ok ⟨⟩, m')

/-- The bytes of `s` between the indices of `m` are those of `m`. The `r` bytes the host
may have taken meanwhile do not count. -/
def ReadableKept (dev : UioHvDevice) (m s : Mapping) : Prop :=
  ∀ r ≤ readableSize dev (outgoing dev m),
    window (outgoingData dev s) dev.dataMaximumSize ((outgoing dev m).Out.toNat + r)
        (readableSize dev (outgoing dev m) - r) =
      window (outgoingData dev m) dev.dataMaximumSize ((outgoing dev m).Out.toNat + r)
        (readableSize dev (outgoing dev m) - r)

/-- The bytes a push of `content` writes: descriptor, pipe header, content, padding and
trailer. -/
def pushImage (content : List UInt8) (In : UInt32) : List UInt8 :=
  let descriptor : PacketDescriptor := {
    rawType := PacketType.dataInBand.raw
    rawDataOffset8 := 2
    rawLength8 := .ofNat (alignUp8 (24 + content.length) / 8)
    rawFlags := 0
    transactionId := 0xFFFFFFFFFFFFFFFF }
  let header : PipeHeader := {
    rawPacketType := PipeMessageType.data.raw
    rawDataSize := .ofNat content.length }
  let padding := List.replicate (alignUp8 (24 + content.length) - (24 + content.length)) 0
  let trailer := toLE 4 In.toNat ++ List.replicate 4 0
  descriptor.toBytes ++ header.toBytes ++ content ++ padding ++ trailer

/-- What a push that writes `bytes` leaves in the mapping. -/
structure PushFrame (dev : UioHvDevice) (m m' : Mapping) (bytes : List UInt8) : Prop where
  written : ∀ i (h : i < bytes.length),
    outgoingData dev m' (((outgoing dev m).In.toNat + i) % dev.dataMaximumSize) = bytes[i]
  kept : ∀ a < dev.dataMaximumSize,
    (∀ i < bytes.length, ((outgoing dev m).In.toNat + i) % dev.dataMaximumSize ≠ a) →
    outgoingData dev m' a = outgoingData dev m a
  outside : ∀ a, a < dev.outgoingControlOffset ∨ dev.outgoingControlOffset + 4 ≤ a →
    a < dev.outgoingDataOffset ∨ dev.outgoingDataOffset + dev.dataMaximumSize ≤ a → m' a = m a
  out_eq : (outgoing dev m').Out = (outgoing dev m).Out
  incoming_eq : incoming dev m' = incoming dev m
  incomingData_eq : incomingData dev m' = incomingData dev m
  in_mod : (outgoing dev m').In.toNat % dev.dataMaximumSize =
    ((outgoing dev m).In.toNat + bytes.length) % dev.dataMaximumSize

section

variable {dev : UioHvDevice} {m m' s t : Mapping} {In : UInt32} {bytes : List UInt8} {c : Bytes}

theorem image_pushPacket (fits : 24 + c.data.length ≤ 524280) :
    (pushPacket c.data In fits).image = pushImage c.data In := (List.append_assoc _ _ _).symm

theorem PushEffect.framed {p : PipePacket} (H : PushEffect dev m m' p) :
    PushFrame dev m m' p.image where
  written := H.placed.inside
  kept := H.placed.outside
  outside := by
    intro a h4 ha
    refine H.frame a ?_ ha
    simp only [UioHvDevice.outgoingControlOffset] at h4
    omega
  out_eq := H.out_eq
  incoming_eq := H.incoming_eq
  incomingData_eq := H.incomingData_eq
  in_mod := by rw [H.in_eq, advance_mod, p.length_image]

theorem HostMoved.refl (dev : UioHvDevice) (s : Mapping) : HostMoved dev s s := fun _ _ => rfl

theorem HostMoved.outgoingData_eq (H : HostMoved dev s t) :
    outgoingData dev t = outgoingData dev s := by
  have hpage := dev.control_fits
  have hoffset : dev.outgoingControlOffset = 0 := rfl
  have hdata : dev.outgoingDataOffset = dev.controlMaximumSize := rfl
  exact funext fun i => H _ (by omega)

/-! ### The stages of a push with room -/

/-- The bytes of the packet in front of the end of the data area. -/
def frontSize (dev : UioHvDevice) (In : UInt32) (bytes : List UInt8) : ℕ :=
  if dev.dataMaximumSize < In.toNat + bytes.length then dev.dataMaximumSize - In.toNat
  else bytes.length

/-- The plan of a push with room. -/
def pushPlan (dev : UioHvDevice) (In : UInt32) (bytes : List UInt8) : PushPlan where
  In := In
  packetBytes := bytes
  firstWriteSize := frontSize dev In bytes
  secondWriteSize := (bytes.length - frontSize dev In bytes : ℕ)

theorem frontSize_le (bytes : List UInt8) (hIn : In.toNat ≤ dev.dataMaximumSize) :
    frontSize dev In bytes ≤ bytes.length ∧
      In.toNat + frontSize dev In bytes ≤ dev.dataMaximumSize := by
  simp only [frontSize]
  split <;> omega

/-- What does not fit in front of the end starts over at the beginning. -/
theorem frontSize_add (bytes : List UInt8) (hIn : In.toNat ≤ dev.dataMaximumSize)
    (h : frontSize dev In bytes < bytes.length) :
    In.toNat + frontSize dev In bytes = dev.dataMaximumSize := by
  simp only [frontSize] at h ⊢
  split_ifs at h ⊢ <;> omega

theorem pushSplit_pushPlan {cb : RingControlBlock} (bytes : List UInt8)
    (hIn : cb.In.toNat ≤ dev.dataMaximumSize)
    (hOut : cb.Out.toNat ≤ dev.dataMaximumSize) (hroom : bytes.length ≤ writableSize dev cb) :
    pushSplit dev cb bytes.length =
      .ok ((pushPlan dev cb.In bytes).firstWriteSize,
        (pushPlan dev cb.In bytes).secondWriteSize) := by
  rw [pushSplit_eq hIn hOut hroom]
  simp only [pushPlan, frontSize]
  split
  · congr 3
    omega
  · rw [Nat.sub_self]

theorem run_preparePush (hIn : (outgoing dev m).In.toNat ≤ dev.dataMaximumSize)
    (hOut : (outgoing dev m).Out.toNat ≤ dev.dataMaximumSize)
    (fits : 24 + c.data.length ≤ 524280)
    (hroom : packetSize c.data.length ≤ writableSize dev (outgoing dev m)) :
    (preparePush dev c).run m =
      (.ok (pushPlan dev (outgoing dev m).In (pushPacket c.data (outgoing dev m).In fits).image),
        m) := by
  have hsize := (pushPacket c.data (outgoing dev m).In fits).add32_descriptor
  have hlen := (pushPacket c.data (outgoing dev m).In fits).length_image
  rw [size_pushPacket] at hsize hlen
  rw [preparePush, Act.run_lift_ok (pushHeaders_ok (outgoing dev m).In fits),
    Act.run_bind_ok (run_getRingControlBlock_outgoing dev m)]
  simp only [hsize]
  rw [Act.run_lift_ok (getAvailableSizeInformation_eq hIn hOut), Act.run_throwIf_neg (by omega),
    Act.run_lift_ok (packetBytes_eq _ _ _ _)]
  exact Act.run_lift_ok
    (pushSplit_pushPlan (pushPacket c.data (outgoing dev m).In fits).image hIn hOut (by omega))

/-- The first copy writes the front of the packet at `In`. -/
theorem run_firstWrite (hIn : In.toNat ≤ dev.dataMaximumSize) (s : Mapping) :
    (firstWrite dev (pushPlan dev In bytes)).run s =
      (.ok ⟨⟩,
        blit s (dev.outgoingDataOffset + In.toNat) (bytes.take (frontSize dev In bytes))) := by
  have hcap := dev.outgoingDataOffset_add_lt
  obtain ⟨hfront, hinside⟩ := frontSize_le bytes hIn
  have h := run_writeArray dev bytes (dev.outgoingDataOffset + In.toNat) 0 (frontSize dev In bytes)
    (by omega) (by omega) (by omega) s
  rwa [List.drop_zero] at h

/-- The second copy, of the rest of the packet. -/
theorem run_secondWrite_rest {plan : PushPlan} {front rest : ℕ}
    (hfront : plan.firstWriteSize = front) (hrest : plan.secondWriteSize = rest) (hpos : 0 < rest)
    (hlen : front + rest = plan.packetBytes.length) (hle : rest ≤ dev.dataMaximumSize) :
    (secondWrite dev plan).run t =
      (.ok ⟨⟩, blit t dev.outgoingDataOffset (plan.packetBytes.drop front)) := by
  have hcap := dev.outgoingDataOffset_add_lt
  have h := run_writeArray dev plan.packetBytes dev.outgoingDataOffset front rest (by omega)
    (by omega) (by omega) t
  rw [List.take_of_length_le (by rw [List.length_drop]; omega)] at h
  rw [secondWrite, if_pos (by omega), hfront, hrest]
  exact h

/-- The second copy writes what does not fit at the beginning of the data area. -/
theorem run_secondWrite (hlen : bytes.length ≤ dev.dataMaximumSize) (s : Mapping) :
    (secondWrite dev (pushPlan dev In bytes)).run s =
      (.ok ⟨⟩, blit s dev.outgoingDataOffset (bytes.drop (frontSize dev In bytes))) := by
  by_cases hlt : frontSize dev In bytes < bytes.length
  · exact run_secondWrite_rest rfl rfl (by omega) (Nat.add_sub_of_le hlt.le) (by omega)
  · have hge := not_lt.mp hlt
    rw [secondWrite, if_neg (by simp only [pushPlan]; omega), List.drop_of_length_le hge, blit_nil]
    rfl

/-! ### The readable region -/

/-- The bytes up to `In` and the packet behind it do not meet. -/
theorem readable_ne {cb : RingControlBlock} {i j : ℕ}
    (hOut : cb.Out.toNat ≤ dev.dataMaximumSize) (hroom : bytes.length ≤ writableSize dev cb)
    (hi : i < readableSize dev cb) (hj : j < bytes.length) :
    (cb.In.toNat + j) % dev.dataMaximumSize ≠ (cb.Out.toNat + i) % dev.dataMaximumSize := by
  intro heq
  have hsum : readableSize dev cb + bytes.length ≤ dev.dataMaximumSize := by
    unfold writableSize at hroom
    simp only [readableSize]
    split_ifs at hroom ⊢ <;> omega
  have hmod : cb.In.toNat % dev.dataMaximumSize =
      (cb.Out.toNat + readableSize dev cb) % dev.dataMaximumSize := by
    simp only [readableSize]
    split
    · congr 1
      omega
    · rw [show cb.Out.toNat + (dev.dataMaximumSize - (cb.Out.toNat - cb.In.toNat)) =
        cb.In.toNat + dev.dataMaximumSize by omega, Nat.add_mod_right]
  rw [Nat.add_mod, hmod, ← Nat.add_mod, Nat.add_assoc] at heq
  have := add_mod_inj (by omega) (by omega) heq
  omega

/-- Neither copy reaches a byte the packet does not take. -/
theorem outgoingData_firstWrite {a : ℕ} (hIn : In.toNat ≤ dev.dataMaximumSize)
    (ha : ∀ j < bytes.length, (In.toNat + j) % dev.dataMaximumSize ≠ a)
    (h : (firstWrite dev (pushPlan dev In bytes)).run s = (.ok ⟨⟩, t)) :
    outgoingData dev t a = outgoingData dev s a := by
  rw [run_firstWrite hIn] at h
  cases h
  obtain ⟨hfront, hinside⟩ := frontSize_le bytes hIn
  apply blit_of_forall_ne
  intro j hj hja
  rw [List.length_take] at hj
  refine ha j (by omega) ?_
  rw [Nat.mod_eq_of_lt (by omega)]
  omega

theorem outgoingData_secondWrite {a : ℕ} (hIn : In.toNat ≤ dev.dataMaximumSize)
    (hlen : bytes.length ≤ dev.dataMaximumSize)
    (ha : ∀ j < bytes.length, (In.toNat + j) % dev.dataMaximumSize ≠ a)
    (h : (secondWrite dev (pushPlan dev In bytes)).run s = (.ok ⟨⟩, t)) :
    outgoingData dev t a = outgoingData dev s a := by
  rw [run_secondWrite hlen] at h
  cases h
  apply blit_of_forall_ne
  intro j hj hja
  rw [List.length_drop] at hj
  have hend := frontSize_add bytes hIn (by omega)
  refine ha (frontSize dev In bytes + j) (by omega) ?_
  rw [← Nat.add_assoc, hend, Nat.add_mod_left, Nat.mod_eq_of_lt (by omega)]
  omega

/-- A mapping whose bytes off the packet are those of `m` has the readable region of `m`. -/
theorem readableKept_of_forall
    (hOut : (outgoing dev m).Out.toNat ≤ dev.dataMaximumSize)
    (hroom : bytes.length ≤ writableSize dev (outgoing dev m))
    (h : ∀ a, (∀ j < bytes.length, ((outgoing dev m).In.toNat + j) % dev.dataMaximumSize ≠ a) →
      outgoingData dev s a = outgoingData dev m a) : ReadableKept dev m s := by
  intro r hr
  refine window_congr fun i hi => h _ ?_
  intro j hj
  rw [Nat.add_assoc]
  exact readable_ne hOut hroom (by omega) hj

/-- Until the store, no course of a push changes the readable region. -/
theorem PushCourse.readableKept {s₁ s₂ : Mapping}
    (hIn : (outgoing dev m).In.toNat ≤ dev.dataMaximumSize)
    (hOut : (outgoing dev m).Out.toNat ≤ dev.dataMaximumSize)
    (hroom : bytes.length ≤ writableSize dev (outgoing dev m))
    (H : PushCourse dev (pushPlan dev (outgoing dev m).In bytes) m s₁ s₂ m') :
    ReadableKept dev m s₁ ∧ ReadableKept dev m s₂ := by
  have hlen : bytes.length ≤ dev.dataMaximumSize := hroom.trans (writableSize_le hOut)
  obtain ⟨s, hmoved, hfirst⟩ := H.first
  obtain ⟨t, hmoved', hsecond⟩ := H.second
  have hkept₁ : ∀ a, (∀ j < bytes.length,
      ((outgoing dev m).In.toNat + j) % dev.dataMaximumSize ≠ a) →
      outgoingData dev s₁ a = outgoingData dev m a := by
    intro a ha
    rw [outgoingData_firstWrite hIn ha hfirst, hmoved.outgoingData_eq]
  have hkept₂ : ∀ a, (∀ j < bytes.length,
      ((outgoing dev m).In.toNat + j) % dev.dataMaximumSize ≠ a) →
      outgoingData dev s₂ a = outgoingData dev m a := by
    intro a ha
    rw [outgoingData_secondWrite hIn hlen ha hsecond, hmoved'.outgoingData_eq, hkept₁ a ha]
  exact ⟨readableKept_of_forall hOut hroom hkept₁, readableKept_of_forall hOut hroom hkept₂⟩

/-- A push that returns went through its stages. -/
theorem exists_pushCourse (hIn : (outgoing dev m).In.toNat ≤ dev.dataMaximumSize)
    (hlen : bytes.length ≤ dev.dataMaximumSize)
    (hprepare : (preparePush dev c).run m = (.ok (pushPlan dev (outgoing dev m).In bytes), m))
    (h : (pushPipePacket dev c).run m = (.ok ⟨⟩, m')) :
    ∃ s₁ s₂, PushCourse dev (pushPlan dev (outgoing dev m).In bytes) m s₁ s₂ m' := by
  rw [pushPipePacket_eq_stages, Act.run_bind_ok hprepare, Act.run_bind_ok (run_firstWrite hIn m),
    Act.run_bind_ok (run_secondWrite hlen _)] at h
  exact ⟨_, _, ⟨m, .refl dev m, run_firstWrite hIn m⟩,
    ⟨_, .refl dev _, run_secondWrite hlen _⟩, ⟨_, .refl dev _, h⟩⟩

end

/-- A push that returns leaves the packet at `In`, modulo the size of the data area, and
the next `In`, and nothing else. Whatever the host does with `Out` meanwhile, the bytes
it may read are the old ones until the store. -/
theorem push_framed (dev : UioHvDevice) (m m' : Mapping) (c : Bytes)
    (hIn : (outgoing dev m).In.toNat ≤ dev.dataMaximumSize)
    (hOut : (outgoing dev m).Out.toNat ≤ dev.dataMaximumSize)
    (h : (pushPipePacket dev c).run m = (.ok ⟨⟩, m')) :
    PushFrame dev m m' (pushImage c.data (outgoing dev m).In) ∧
    ∃ plan, (preparePush dev c).run m = (.ok plan, m) ∧
      (∃ s₁ s₂, PushCourse dev plan m s₁ s₂ m') ∧
      ∀ s₁ s₂ t, PushCourse dev plan m s₁ s₂ t → ReadableKept dev m s₁ ∧ ReadableKept dev m s₂ := by
  obtain ⟨fits, hroom, heffect⟩ := pushEffect_of_run hIn hOut h
  have hlen : (pushPacket c.data (outgoing dev m).In fits).image.length =
      packetSize c.data.length := PipePacket.length_image _
  have hle := hroom.trans (writableSize_le hOut)
  have hprepare := run_preparePush hIn hOut fits hroom
  refine ⟨?_, _, hprepare, exists_pushCourse hIn (by omega) hprepare h, ?_⟩
  · rw [← image_pushPacket fits]
    exact heffect.framed
  · intro s₁ s₂ t H
    exact H.readableKept hIn hOut (by omega)

/-- Eight readable bytes in front of an `In` sixteen bytes before the end of the data area. -/
def nearEnd : Mapping := writeUInt32 4 2093032 (writeUInt32 0 2093040 fun _ => 0)

theorem outgoing_nearEnd : outgoing .defaultRings nearEnd = ⟨2093040, 2093032, 0⟩ := by
  have hIn : readUInt32 nearEnd 0 = 2093040 := by
    rw [nearEnd, readUInt32_writeUInt32_of_ne (by omega), readUInt32_writeUInt32]
  have hOut : readUInt32 nearEnd 4 = 2093032 := by rw [nearEnd, readUInt32_writeUInt32]
  have hMask : readUInt32 nearEnd 8 = 0 := by
    rw [nearEnd, readUInt32_writeUInt32_of_ne (by omega), readUInt32_writeUInt32_of_ne (by omega)]
    rfl
  rw [outgoing, controlBlock]
  change RingControlBlock.mk (readUInt32 nearEnd 0) (readUInt32 nearEnd 4)
    (readUInt32 nearEnd 8) = _
  rw [hIn, hOut, hMask]

/-- A push across the end of the data area. -/
theorem push_framed_nearEnd : ∃ m',
    (pushPipePacket .defaultRings ⟨[1, 2, 3], by simp⟩).run nearEnd = (.ok ⟨⟩, m') ∧
      PushFrame .defaultRings nearEnd m' (pushImage [1, 2, 3] 2093040) := by
  have hIn : (outgoing .defaultRings nearEnd).In.toNat ≤
      UioHvDevice.defaultRings.dataMaximumSize := by rw [outgoing_nearEnd]; decide
  have hOut : (outgoing .defaultRings nearEnd).Out.toNat ≤
      UioHvDevice.defaultRings.dataMaximumSize := by rw [outgoing_nearEnd]; decide
  obtain ⟨m', hrun, _⟩ := run_pushPipePacket (c := ⟨[1, 2, 3], by simp⟩) hIn hOut (by simp)
    (by rw [outgoing_nearEnd]; decide)
  refine ⟨m', hrun, ?_⟩
  have h := (push_framed .defaultRings nearEnd m' _ hIn hOut hrun).1
  rwa [outgoing_nearEnd] at h

end HvGin
