import HvGin.Push
import HvGin.Pop
import Mathlib.Logic.Relation

/-!
# The operations in steps

`PopPipePacket` and `PushPipePacket` as they run beside other threads: each reads its
control block, copies data, and stores its index, and anything may happen between two
of these. Run with nothing between, the steps are the operations (`Popper.alone`,
`Pusher.alone`).

An index of a ring does not tell how often the ring has gone round. `Shared` therefore
counts positions in the two streams of bytes: the index is the position modulo the size
of the data area. An operation stores the index behind the bytes it has moved, counted
from where the control block stood that it read, and the position goes with it.

## Main definitions

* `Shared` — the mapping, the positions of the two indices, the packets popped.
* `Popper`, `Pusher` — a call of an operation between its steps.
* `Shared.Sound`, `Popper.Fresh`, `Pusher.Fresh` — the indices are in range, and what
  a call has read is still so.
* `SharedStep` — what a step of one thread means to the others.
-/
namespace HvGin

open Lib

/-- What the threads share. -/
structure Shared where
  mapping : Mapping
  /-- The position in the incoming stream at which `Out` stands. -/
  outPosition : ℕ
  /-- The position in the outgoing stream at which `In` stands. -/
  inPosition : ℕ
  /-- The packets popped: the session that got one, and the position it was popped at. -/
  delivered : List (ℕ × ℕ)

/-- A call of `PopPipePacket` between its steps. -/
inductive Popper
  | called
  /-- The control block has been read, with `Out` at the position. -/
  | read (cb : RingControlBlock) (position : ℕ)
  /-- The data has been read; `FinalOffset`, which lies `size` bytes ahead, is next. -/
  | copied (content : List UInt8) (finalOffset : UInt32) (position size : ℕ)
  | returned (content : List UInt8)
  | threw

/-- A call of `PushPipePacket` between its steps. -/
inductive Pusher
  | called (content : Bytes)
  /-- The control block has been read, with `In` at the position. -/
  | read (content : Bytes) (headers : PacketDescriptor × PipeHeader) (cb : RingControlBlock)
      (position : ℕ)
  /-- The packet has been written; `FinalOffset`, which lies `size` bytes ahead, is next. -/
  | copied (finalOffset : UInt32) (position size : ℕ)
  | returned
  | threw

/-! ## The steps -/

section

variable (dev : UioHvDevice)

/-- The next step of a pop on behalf of a session. -/
def Popper.step (session : ℕ) (s : Shared) : Popper → Option (Popper × Shared)
  | .called => some (.read (incoming dev s.mapping) s.outPosition, s)
  | .read cb position =>
      match popCopy dev cb s.mapping with
      | .error _ => some (.threw, s)
      | .ok none => some (.returned [], s)
      | .ok (some (content, finalOffset)) => some (.copied content finalOffset position
          (distance dev.dataMaximumSize finalOffset.toNat cb.Out.toNat), s)
  | .copied content finalOffset position size => some (.returned content,
      ⟨popStore dev finalOffset s.mapping, position + size, s.inPosition,
        s.delivered ++ [(session, position)]⟩)
  | .returned _ => none
  | .threw => none

/-- The next step of a push. -/
def Pusher.step (s : Shared) : Pusher → Option (Pusher × Shared)
  | .called content => some ((Act.lift (pushHeaders content.data.length)).handle s
      (fun headers s => (.read content headers (outgoing dev s.mapping) s.inPosition, s))
      (fun _ s => (.threw, s)))
  | .read content headers cb position => some ((pushWork dev content headers cb).handle s.mapping
      (fun finalOffset m => (.copied finalOffset position
        (distance dev.dataMaximumSize finalOffset.toNat cb.In.toNat), { s with mapping := m }))
      (fun _ m => (.threw, { s with mapping := m })))
  | .copied finalOffset position size => some (.returned,
      ⟨pushStore dev finalOffset s.mapping, s.outPosition, position + size, s.delivered⟩)
  | .returned => none
  | .threw => none

/-- Where a call ends. -/
def Popper.ended : Except Exn (List UInt8) → Popper
  | .ok content => .returned content
  | .error _ => .threw

def Pusher.ended : Except Exn PUnit → Pusher
  | .ok _ => .returned
  | .error _ => .threw

end

/-! ## The steps with nothing between -/

section

variable {dev : UioHvDevice} {s : Shared} {session : ℕ} {cb : RingControlBlock} {position : ℕ}

theorem Popper.step_read_ok {content : List UInt8} {finalOffset : UInt32}
    (h : popCopy dev cb s.mapping = .ok (some (content, finalOffset))) :
    (Popper.read cb position).step dev session s = some (.copied content finalOffset position
      (distance dev.dataMaximumSize finalOffset.toNat cb.Out.toNat), s) := by
  rw [Popper.step, h]

theorem Popper.step_read_none (h : popCopy dev cb s.mapping = .ok none) :
    (Popper.read cb position).step dev session s = some (.returned [], s) := by
  rw [Popper.step, h]

theorem Popper.step_read_error {e : Exn} (h : popCopy dev cb s.mapping = .error e) :
    (Popper.read cb position).step dev session s = some (.threw, s) := by
  rw [Popper.step, h]

theorem Pusher.step_called {content : Bytes} {headers : PacketDescriptor × PipeHeader}
    (h : pushHeaders content.data.length = .ok headers) :
    (Pusher.called content).step dev s =
      some (.read content headers (outgoing dev s.mapping) s.inPosition, s) := by
  rw [Pusher.step, Act.handle_ok (by rw [Act.lift, Act.run_reads, h])]

theorem Pusher.step_called_error {content : Bytes} {e : Exn}
    (h : pushHeaders content.data.length = .error e) :
    (Pusher.called content).step dev s = some (.threw, s) := by
  rw [Pusher.step, Act.handle_error (by rw [Act.lift, Act.run_reads, h])]

theorem Pusher.step_read_ok {content : Bytes} {headers : PacketDescriptor × PipeHeader}
    {finalOffset : UInt32} {m : Mapping}
    (h : (pushWork dev content headers cb).run s.mapping = (.ok finalOffset, m)) :
    (Pusher.read content headers cb position).step dev s = some (.copied finalOffset position
      (distance dev.dataMaximumSize finalOffset.toNat cb.In.toNat), { s with mapping := m }) := by
  rw [Pusher.step, Act.handle_ok h]

theorem Pusher.step_read_error {content : Bytes} {headers : PacketDescriptor × PipeHeader}
    {e : Exn} {m : Mapping}
    (h : (pushWork dev content headers cb).run s.mapping = (.error e, m)) :
    (Pusher.read content headers cb position).step dev s =
      some (.threw, { s with mapping := m }) := by
  rw [Pusher.step, Act.handle_error h]

/-- A pop whose steps follow each other is `PopPipePacket`. -/
theorem Popper.alone {result : Except Exn (List UInt8)} {m' : Mapping}
    (h : (popPipePacket dev).run s.mapping = (result, m')) :
    ∃ t, t.mapping = m' ∧ Relation.ReflTransGen
      (fun a b : Popper × Shared => a.1.step dev session a.2 = some b)
      (.called, s) (.ended result, t) := by
  have hread : Relation.ReflTransGen
      (fun a b : Popper × Shared => a.1.step dev session a.2 = some b)
      (.called, s) (.read (incoming dev s.mapping) s.outPosition, s) := .single rfl
  rcases popCopy_cases dev s.mapping with ⟨content, finalOffset, hcopy⟩ | hcopy | ⟨e, hcopy⟩
  · rw [run_popPipePacket_consumes hcopy] at h
    cases h
    exact ⟨_, rfl, (hread.tail (Popper.step_read_ok hcopy)).tail (by rw [Popper.step]; rfl)⟩
  · rw [run_popPipePacket_none hcopy] at h
    cases h
    exact ⟨s, rfl, hread.tail (Popper.step_read_none hcopy)⟩
  · rw [run_popPipePacket_error hcopy] at h
    cases h
    exact ⟨s, rfl, hread.tail (Popper.step_read_error hcopy)⟩

/-- A push whose steps follow each other is `PushPipePacket`. -/
theorem Pusher.alone {content : Bytes} {result : Except Exn PUnit} {m' : Mapping}
    (h : (pushPipePacket dev content).run s.mapping = (result, m')) :
    ∃ t, t.mapping = m' ∧ Relation.ReflTransGen
      (fun a b : Pusher × Shared => a.1.step dev a.2 = some b)
      (.called content, s) (.ended result, t) := by
  rw [pushPipePacket] at h
  cases hheaders : pushHeaders content.data.length with
  | error e =>
      rw [Act.run_lift_error hheaders] at h
      cases h
      exact ⟨s, rfl, .single (Pusher.step_called_error hheaders)⟩
  | ok headers =>
      rw [Act.run_lift_ok hheaders,
        Act.run_bind_ok (run_getRingControlBlock_outgoing dev s.mapping)] at h
      have hread : Relation.ReflTransGen
          (fun a b : Pusher × Shared => a.1.step dev a.2 = some b) (.called content, s)
          (.read content headers (outgoing dev s.mapping) s.inPosition, s) :=
        .single (Pusher.step_called hheaders)
      rcases hrun : (pushWork dev content headers (outgoing dev s.mapping)).run s.mapping with
        ⟨e | finalOffset, m⟩
      · rw [Act.run_bind_error hrun] at h
        cases h
        exact ⟨{ s with mapping := m' }, rfl, hread.tail (Pusher.step_read_error hrun)⟩
      · rw [Act.run_bind_ok hrun, Act.run_modify] at h
        cases h
        exact ⟨_, rfl, (hread.tail (Pusher.step_read_ok hrun)).tail (by rw [Pusher.step]; rfl)⟩

end

/-! ## What the threads rely on -/

section

variable (dev : UioHvDevice)

/-- The indices are in range, the positions go with the indices of the guest, and the
packets popped lie behind each other in the stream, up to `Out`. -/
structure Shared.Sound (s : Shared) : Prop where
  in_lt : (incoming dev s.mapping).In.toNat < dev.dataMaximumSize
  out_le : (incoming dev s.mapping).Out.toNat ≤ dev.dataMaximumSize
  outgoing_in_le : (outgoing dev s.mapping).In.toNat ≤ dev.dataMaximumSize
  outgoing_out_lt : (outgoing dev s.mapping).Out.toNat < dev.dataMaximumSize
  outPosition_mod : s.outPosition % dev.dataMaximumSize =
    (incoming dev s.mapping).Out.toNat % dev.dataMaximumSize
  inPosition_mod : s.inPosition % dev.dataMaximumSize =
    (outgoing dev s.mapping).In.toNat % dev.dataMaximumSize
  delivered_sorted : (s.delivered.map Prod.snd).Pairwise (· < ·)
  delivered_lt : ∀ d ∈ s.delivered, d.2 < s.outPosition

/-- `t` has the same `Out` as `s`, and the same packets popped. -/
structure Shared.KeepsOut (s t : Shared) : Prop where
  out_eq : (incoming dev t.mapping).Out = (incoming dev s.mapping).Out
  outPosition_eq : t.outPosition = s.outPosition
  delivered_eq : t.delivered = s.delivered

/-- `t` has the same outgoing `In` as `s`. -/
structure Shared.KeepsIn (s t : Shared) : Prop where
  in_eq : (outgoing dev t.mapping).In = (outgoing dev s.mapping).In
  inPosition_eq : t.inPosition = s.inPosition

/-- Between the read of the control block and the store of the index. -/
def Popper.Mid : Popper → Prop
  | .read _ _ => True
  | .copied _ _ _ _ => True
  | _ => False

def Pusher.Mid : Pusher → Prop
  | .read _ _ _ _ => True
  | .copied _ _ _ => True
  | _ => False

/-- What the pop has read of `Out` is still so, and it has a packet to move it past. -/
def Popper.Fresh (s : Shared) : Popper → Prop
  | .read cb position => cb.In.toNat < dev.dataMaximumSize ∧
      cb.Out = (incoming dev s.mapping).Out ∧ position = s.outPosition
  | .copied _ finalOffset position size => finalOffset.toNat ≤ dev.dataMaximumSize ∧
      size = distance dev.dataMaximumSize finalOffset.toNat (incoming dev s.mapping).Out.toNat ∧
      0 < size ∧ position = s.outPosition
  | _ => True

/-- What the push has read of `In` is still so. -/
def Pusher.Fresh (s : Shared) : Pusher → Prop
  | .read content headers cb position => cb.Out.toNat < dev.dataMaximumSize ∧
      pushHeaders content.data.length = .ok headers ∧
      cb.In = (outgoing dev s.mapping).In ∧ position = s.inPosition
  | .copied finalOffset position size => finalOffset.toNat ≤ dev.dataMaximumSize ∧
      size = distance dev.dataMaximumSize finalOffset.toNat (outgoing dev s.mapping).In.toNat ∧
      position = s.inPosition
  | _ => True

/-- A step of the shared state: it moves `Out` only if `pops`, the outgoing `In` only if
`pushes`, and neither backwards. -/
structure SharedStep (pops pushes : Prop) (s t : Shared) : Prop where
  sound : t.Sound dev
  keepsOut : ¬ pops → s.KeepsOut dev t
  keepsIn : ¬ pushes → s.KeepsIn dev t
  out_forward : s.outPosition ≤ t.outPosition
  in_forward : s.inPosition ≤ t.inPosition

end

section

variable {dev : UioHvDevice} {s t : Shared} {pops pushes : Prop}

theorem SharedStep.refl (hs : s.Sound dev) : SharedStep dev pops pushes s s :=
  ⟨hs, fun _ => ⟨rfl, rfl, rfl⟩, fun _ => ⟨rfl, rfl⟩, le_rfl, le_rfl⟩

/-- A change of the mapping that keeps the guest's indices and leaves the host's in
range. -/
theorem SharedStep.of_mapping {m : Mapping} (hs : s.Sound dev)
    (hout : (incoming dev m).Out = (incoming dev s.mapping).Out)
    (hin : (outgoing dev m).In = (outgoing dev s.mapping).In)
    (hin_lt : (incoming dev m).In.toNat < dev.dataMaximumSize)
    (hout_lt : (outgoing dev m).Out.toNat < dev.dataMaximumSize) :
    SharedStep dev pops pushes s { s with mapping := m } where
  sound := {
    in_lt := hin_lt
    out_le := by rw [hout]; exact hs.out_le
    outgoing_in_le := by rw [hin]; exact hs.outgoing_in_le
    outgoing_out_lt := hout_lt
    outPosition_mod := by rw [hout]; exact hs.outPosition_mod
    inPosition_mod := by rw [hin]; exact hs.inPosition_mod
    delivered_sorted := hs.delivered_sorted
    delivered_lt := hs.delivered_lt }
  keepsOut := fun _ => ⟨hout, rfl, rfl⟩
  keepsIn := fun _ => ⟨hin, rfl⟩
  out_forward := le_rfl
  in_forward := le_rfl

theorem SharedStep.interruptControl {enable : Bool} (hs : s.Sound dev) :
    SharedStep dev pops pushes s { s with mapping := interruptControl dev enable s.mapping } :=
  .of_mapping hs (by rw [incoming_interruptControl]) (by rw [outgoing_interruptControl])
    (by rw [incoming_interruptControl]; exact hs.in_lt)
    (by rw [outgoing_interruptControl]; exact hs.outgoing_out_lt)

/-- What a pop relies on survives the steps of others, unless it is between its read and
its store and they move `Out`. -/
theorem Popper.Fresh.of_step {p : Popper} (H : p.Fresh dev s) (h : SharedStep dev pops pushes s t)
    (hmid : p.Mid → ¬ pops) : p.Fresh dev t := by
  cases p with
  | read cb position =>
      have hkeeps := h.keepsOut (hmid trivial)
      exact ⟨H.1, H.2.1.trans hkeeps.out_eq.symm, H.2.2.trans hkeeps.outPosition_eq.symm⟩
  | copied content finalOffset position size =>
      have hkeeps := h.keepsOut (hmid trivial)
      obtain ⟨hle, hsize, hpos, hposition⟩ := H
      exact ⟨hle, by rw [hkeeps.out_eq]; exact hsize, hpos,
        hposition.trans hkeeps.outPosition_eq.symm⟩
  | _ => trivial

theorem Pusher.Fresh.of_step {p : Pusher} (H : p.Fresh dev s) (h : SharedStep dev pops pushes s t)
    (hmid : p.Mid → ¬ pushes) : p.Fresh dev t := by
  cases p with
  | read content headers cb position =>
      have hkeeps := h.keepsIn (hmid trivial)
      obtain ⟨hlt, hheaders, hin, hposition⟩ := H
      exact ⟨hlt, hheaders, hin.trans hkeeps.in_eq.symm,
        hposition.trans hkeeps.inPosition_eq.symm⟩
  | copied finalOffset position size =>
      have hkeeps := h.keepsIn (hmid trivial)
      obtain ⟨hle, hsize, hposition⟩ := H
      exact ⟨hle, by rw [hkeeps.in_eq]; exact hsize, hposition.trans hkeeps.inPosition_eq.symm⟩
  | _ => trivial

/-! ## The steps keep it -/

/-- A consuming pop moves `Out` by the size of its packet, which is less than the ring. -/
theorem distance_of_popCopy {cb : RingControlBlock} {m : Mapping} {content : List UInt8}
    {finalOffset : UInt32} (hIn : cb.In.toNat < dev.dataMaximumSize)
    (hOut : cb.Out.toNat ≤ dev.dataMaximumSize)
    (h : popCopy dev cb m = .ok (some (content, finalOffset))) :
    finalOffset.toNat ≤ dev.dataMaximumSize ∧
      0 < distance dev.dataMaximumSize finalOffset.toNat cb.Out.toNat := by
  rcases Nat.lt_or_eq_of_le hOut with hlt | hend
  · obtain ⟨size, hdecoded, hfinal⟩ := decoded_of_popCopy h hIn.le hlt
    have hlength := hdecoded.length_le
    rw [length_readableBytes] at hlength
    have hsize := hdecoded.size_eq
    have hread : readableSize dev cb < dev.dataMaximumSize := by
      simp only [readableSize]
      split <;> omega
    rw [hfinal]
    refine ⟨advance_le hOut (by omega), ?_⟩
    rw [distance_eq (r := size) (by omega) (advance_mod _ _ _)]
    omega
  · by_cases hshort : cb.In.toNat < 24
    · have hread : readableSize dev cb < 24 := by
        simp only [readableSize]
        split <;> omega
      rw [popCopy_none hIn.le hOut hread] at h
      cases h
    · have hlong := not_lt.mp hshort
      rw [popCopy_end hIn hend hlong] at h
      cases h

/-- The store of a pop that relied on what is so. -/
theorem SharedStep.popStore {finalOffset : UInt32} {session size : ℕ} (hs : s.Sound dev)
    (hle : finalOffset.toNat ≤ dev.dataMaximumSize)
    (hsize : size = distance dev.dataMaximumSize finalOffset.toNat
      (incoming dev s.mapping).Out.toNat) (hpos : 0 < size) :
    SharedStep dev True False s ⟨popStore dev finalOffset s.mapping, s.outPosition + size,
      s.inPosition, s.delivered ++ [(session, s.outPosition)]⟩ where
  sound := {
    in_lt := by rw [incoming_popStore]; exact hs.in_lt
    out_le := by rw [incoming_popStore]; exact hle
    outgoing_in_le := by rw [outgoing_popStore]; exact hs.outgoing_in_le
    outgoing_out_lt := by rw [outgoing_popStore]; exact hs.outgoing_out_lt
    outPosition_mod := by
      rw [incoming_popStore, ← add_distance_mod dev.data_pos finalOffset.toNat
        (incoming dev s.mapping).Out.toNat, ← hsize, Nat.add_mod, hs.outPosition_mod, ← Nat.add_mod]
    inPosition_mod := by rw [outgoing_popStore]; exact hs.inPosition_mod
    delivered_sorted := by
      rw [List.map_append, List.pairwise_append]
      refine ⟨hs.delivered_sorted, List.pairwise_singleton _ _, ?_⟩
      intro a ha b hb
      obtain ⟨d, hd, rfl⟩ := List.mem_map.mp ha
      rw [List.map_singleton, List.mem_singleton] at hb
      rw [hb]
      exact hs.delivered_lt d hd
    delivered_lt := by
      intro d hd
      rcases List.mem_append.mp hd with hd | hd
      · exact (hs.delivered_lt d hd).trans_le (Nat.le_add_right _ _)
      · rw [List.mem_singleton] at hd
        rw [hd]
        exact Nat.lt_add_of_pos_right hpos }
  keepsOut := fun hpops => absurd trivial hpops
  keepsIn := fun _ => ⟨by rw [outgoing_popStore], rfl⟩
  out_forward := Nat.le_add_right _ _
  in_forward := le_rfl

/-- The store of a push that relied on what is so. -/
theorem SharedStep.pushStore {finalOffset : UInt32} {size : ℕ} (hs : s.Sound dev)
    (hle : finalOffset.toNat ≤ dev.dataMaximumSize)
    (hsize : size = distance dev.dataMaximumSize finalOffset.toNat
      (outgoing dev s.mapping).In.toNat) :
    SharedStep dev False True s
      ⟨pushStore dev finalOffset s.mapping, s.outPosition, s.inPosition + size, s.delivered⟩ where
  sound := {
    in_lt := by rw [incoming_pushStore]; exact hs.in_lt
    out_le := by rw [incoming_pushStore]; exact hs.out_le
    outgoing_in_le := by rw [outgoing_pushStore]; exact hle
    outgoing_out_lt := by rw [outgoing_pushStore]; exact hs.outgoing_out_lt
    outPosition_mod := by rw [incoming_pushStore]; exact hs.outPosition_mod
    inPosition_mod := by
      rw [outgoing_pushStore, ← add_distance_mod dev.data_pos finalOffset.toNat
        (outgoing dev s.mapping).In.toNat, ← hsize, Nat.add_mod, hs.inPosition_mod, ← Nat.add_mod]
    delivered_sorted := hs.delivered_sorted
    delivered_lt := hs.delivered_lt }
  keepsOut := fun _ => ⟨by rw [incoming_pushStore], rfl, rfl⟩
  keepsIn := fun hpushes => absurd trivial hpushes
  out_forward := le_rfl
  in_forward := Nat.le_add_right _ _

/-- The copies of a push, or its exception, change neither control block; and the offset
to store is in range. -/
theorem pushWork_frame {content : Bytes} {headers : PacketDescriptor × PipeHeader}
    {cb : RingControlBlock} {m m' : Mapping} {r : Except Exn UInt32}
    (hIn : cb.In.toNat ≤ dev.dataMaximumSize) (hOut : cb.Out.toNat ≤ dev.dataMaximumSize)
    (hheaders : pushHeaders content.data.length = .ok headers)
    (h : (pushWork dev content headers cb).run m = (r, m')) :
    incoming dev m' = incoming dev m ∧ outgoing dev m' = outgoing dev m ∧
      ∀ finalOffset, r = .ok finalOffset → finalOffset.toNat ≤ dev.dataMaximumSize := by
  have hfit := dev.offsets_fit
  by_cases hlong : 524280 < 24 + content.data.length
  · rw [pushHeaders_overflow hlong content.length_le] at hheaders
    cases hheaders
  have fits := not_lt.mp hlong
  rw [pushHeaders_ok cb.In fits] at hheaders
  cases hheaders
  by_cases hfull : writableSize dev cb < packetSize content.data.length
  · rw [run_pushWork_full hIn hOut fits hfull] at h
    cases h
    exact ⟨rfl, rfl, fun _ hr => nomatch hr⟩
  · have hroom := not_lt.mp hfull
    have hle := hroom.trans (writableSize_le hOut)
    have hadvance := advance_le hIn hle
    have himage : (pushPacket content.data cb.In fits).image.length ≤ dev.dataMaximumSize := by
      rwa [PipePacket.length_image, size_pushPacket]
    rw [run_pushWork hIn hOut fits hroom] at h
    cases h
    refine ⟨incoming_pushedData hIn himage m, outgoing_pushedData hIn himage m, ?_⟩
    intro _ hr
    cases hr
    rwa [toNat_ofNat32 (by omega)]

/-- The next step of a pop moves `Out` only if it is the store, and only forward. -/
theorem Popper.sharedStep {p p' : Popper} {session : ℕ} (hs : s.Sound dev) (hp : p.Fresh dev s)
    (h : p.step dev session s = some (p', t)) :
    SharedStep dev p.Mid False s t ∧ p'.Fresh dev t := by
  cases p with
  | called =>
      rw [Popper.step] at h
      cases h
      exact ⟨.refl hs, hs.in_lt, rfl, rfl⟩
  | read cb position =>
      obtain ⟨hIn, hOut, hposition⟩ := hp
      rcases hcopy : popCopy dev cb s.mapping with e | _ | ⟨content, finalOffset⟩
      · rw [Popper.step_read_error hcopy] at h
        cases h
        exact ⟨.refl hs, trivial⟩
      · rw [Popper.step_read_none hcopy] at h
        cases h
        exact ⟨.refl hs, trivial⟩
      · rw [Popper.step_read_ok hcopy] at h
        cases h
        obtain ⟨hle, hpos⟩ := distance_of_popCopy hIn (hOut ▸ hs.out_le) hcopy
        exact ⟨.refl hs, hle, by rw [hOut], hpos, hposition⟩
  | copied content finalOffset position size =>
      obtain ⟨hle, hsize, hpos, rfl⟩ := hp
      rw [Popper.step] at h
      cases h
      exact ⟨.popStore hs hle hsize hpos, trivial⟩
  | returned content =>
      rw [Popper.step] at h
      cases h
  | threw =>
      rw [Popper.step] at h
      cases h

/-- The next step of a push moves the outgoing `In` only if it is the store, and only
forward. -/
theorem Pusher.sharedStep {p p' : Pusher} (hs : s.Sound dev) (hp : p.Fresh dev s)
    (h : p.step dev s = some (p', t)) : SharedStep dev False p.Mid s t ∧ p'.Fresh dev t := by
  cases p with
  | called content =>
      rcases hheaders : pushHeaders content.data.length with e | headers
      · rw [Pusher.step_called_error hheaders] at h
        cases h
        exact ⟨.refl hs, trivial⟩
      · rw [Pusher.step_called hheaders] at h
        cases h
        exact ⟨.refl hs, hs.outgoing_out_lt, hheaders, rfl, rfl⟩
  | read content headers cb position =>
      obtain ⟨hOut, hheaders, hIn, hposition⟩ := hp
      rcases hrun : (pushWork dev content headers cb).run s.mapping with ⟨r, m⟩
      obtain ⟨hincoming, houtgoing, hfinal⟩ :=
        pushWork_frame (hIn ▸ hs.outgoing_in_le) hOut.le hheaders hrun
      have hshared : SharedStep dev False True s { s with mapping := m } :=
        .of_mapping hs (by rw [hincoming]) (by rw [houtgoing]) (by rw [hincoming]; exact hs.in_lt)
          (by rw [houtgoing]; exact hs.outgoing_out_lt)
      cases r with
      | error e =>
          rw [Pusher.step_read_error hrun] at h
          cases h
          exact ⟨hshared, trivial⟩
      | ok finalOffset =>
          rw [Pusher.step_read_ok hrun] at h
          cases h
          exact ⟨hshared, hfinal _ rfl, by rw [hIn, houtgoing], hposition⟩
  | copied finalOffset position size =>
      obtain ⟨hle, hsize, rfl⟩ := hp
      rw [Pusher.step] at h
      cases h
      exact ⟨.pushStore hs hle hsize, trivial⟩
  | returned =>
      rw [Pusher.step] at h
      cases h
  | threw =>
      rw [Pusher.step] at h
      cases h

end

end HvGin
