import HvGin.Host
import HvGin.Lib.Exec

/-!
# The relay from TCP to VMBus

The loop asks how much it may push, takes that much from the socket, and pushes what it
took. Between the first step and the last the host may take packets, which only adds
room. `Intact` says that no push throws and that the bytes received are those pushed,
and those in hand.

The one state in which a promise is broken has `In` at the end of the data area, where
a push has left it, and `Out` at its start, where the host brings it by taking the last
packet: there the writable size is `0` although the ring is empty.
-/
namespace HvGin

open Lib

namespace Tcp2Vmbus

/-- Where the thread stands in an iteration of its loop. -/
inductive Pc
  | top
  /-- `SendBuffer` has been allocated with this size. -/
  | promised (size : ℕ)
  /-- `SendContent` has been received and is about to be pushed. -/
  | holding (content : Bytes)
  /-- The push has returned; `SignalHost` is next. -/
  | signalling
  /-- The loop has ended, with the exception of a ring operation or without. -/
  | ended (e : Option Exn)

/-- The bytes received and not yet pushed. -/
def Pc.inHand : Pc → List UInt8
  | .holding content => content.data
  | _ => []

end Tcp2Vmbus

/-- The mapping and the thread, with the bytes received from the socket and the contents
pushed so far. -/
structure Tcp2Vmbus where
  mapping : Mapping
  pc : Tcp2Vmbus.Pc
  received : List UInt8
  pushed : List (List UInt8)

namespace Tcp2Vmbus

inductive Label
  /-- `MaximumSendSize` is computed from `Available` and `GetMaximumPushSize`. -/
  | size (available : ℕ)
  /-- The socket gives `Count` bytes. -/
  | recv (content : Bytes)
  | push
  | signal
  /-- `ShouldRunning` is false, or the socket throws. -/
  | leave
  /-- The host takes a packet. -/
  | take

variable (dev : UioHvDevice)

def start (m : Mapping) : Tcp2Vmbus := ⟨m, .top, [], []⟩

/-- `Math.Min(RdpServerSocket.Available, DataChannel.GetMaximumPushSize())`; a positive
size is the size of the buffer. -/
def sizePc (m : Mapping) (available : ℕ) : Pc :=
  (getMaximumPushSize dev).handle m
    (fun maximum _ => if 0 < min (available : ℤ) maximum
      then .promised (min (available : ℤ) maximum).toNat else .top)
    (fun e _ => .ended (some e))

/-- `DataChannel.PushPipePacket(SendContent)`; an exception ends the loop. -/
def pushContent (s : Tcp2Vmbus) (content : Bytes) : Tcp2Vmbus :=
  (pushPipePacket dev content).handle s.mapping
    (fun _ m => { s with mapping := m, pc := .signalling, pushed := s.pushed ++ [content.data] })
    (fun e m => { s with mapping := m, pc := .ended (some e) })

def step (s : Tcp2Vmbus) (l : Label) : Option Tcp2Vmbus :=
  match l, s.pc with
  | .size available, .top => some { s with pc := sizePc dev s.mapping available }
  | .recv content, .promised size =>
      if content.data.length ≤ size then
        some { s with pc := .holding content, received := s.received ++ content.data }
      else none
  | .push, .holding content => some (pushContent dev s content)
  | .signal, .signalling => some { s with mapping := signalHost dev s.mapping, pc := .top }
  | .leave, .top => some { s with pc := .ended none }
  | .leave, .promised _ => some { s with pc := .ended none }
  | .take, _ => (hostTake dev s.mapping).map fun r => { s with mapping := r.2 }
  | _, _ => none

/-- No ring operation has thrown, and the bytes received are those pushed and those in
hand, in order. -/
structure Intact (s : Tcp2Vmbus) : Prop where
  running : ∀ e, s.pc ≠ .ended (some e)
  bytes : s.pushed.flatten ++ s.pc.inHand = s.received

/-- A push is not called with `In` at the end of the data area and `Out` at its start. -/
def IndicesApart (s : Tcp2Vmbus) : Label → Prop
  | .push => ¬ ((outgoing dev s.mapping).In.toNat = dev.dataMaximumSize ∧
      (outgoing dev s.mapping).Out.toNat = 0)
  | _ => True

/-- Any content of `size` bytes or less has room beside `used` bytes. -/
def Fits (used size : ℕ) : Prop :=
  size ≤ 16384 ∧ used + packetSize size ≤ dev.dataMaximumSize

/-- What the thread relies on where it stands, with `used` bytes in the ring. -/
def Promise (used : ℕ) : Pc → Prop
  | .promised size => Fits dev used size
  | .holding content => Fits dev used content.data.length
  | .ended e => e = none
  | _ => True

/-- The ring holds some packets, what was promised is still there, and the bytes are
accounted for. -/
def Inv (s : Tcp2Vmbus) : Prop :=
  ∃ ps, OutgoingRing dev s.mapping ps ∧ Promise dev (usedSize ps) s.pc ∧
    s.pushed.flatten ++ s.pc.inHand = s.received

variable {dev} {s t : Tcp2Vmbus} {l : Label} {m : Mapping} {ps : List PipePacket}

theorem Inv.intact (H : Inv dev s) : Intact s := by
  obtain ⟨ps, _, hpromise, hbytes⟩ := H
  refine ⟨fun e he => ?_, hbytes⟩
  rw [he] at hpromise
  cases hpromise

/-- Packets taken by the host only add room. -/
theorem Promise.mono {used used' : ℕ} {pc : Pc} (h : Promise dev used pc) (hle : used' ≤ used) :
    Promise dev used' pc := by
  cases pc with
  | promised size => exact ⟨h.1, (Nat.add_le_add_right hle _).trans h.2⟩
  | holding content => exact ⟨h.1, (Nat.add_le_add_right hle _).trans h.2⟩
  | _ => exact h

/-- The size computed is a promise that holds when it is computed. -/
theorem promise_sizePc (hring : OutgoingRing dev m ps) (available : ℕ) :
    Promise dev (usedSize ps) (sizePc dev m available) := by
  have hspace := hring.writableSize_le
  have hlt := hring.used_lt
  rw [sizePc, Act.handle_ok (run_getMaximumPushSize hring.in_le hring.out_lt.le)]
  split
  · next hpos =>
    have hle : packetSize (min (available : ℤ) (maximumPushSize dev (outgoing dev m) : ℕ)).toNat ≤
        maximumPushSize dev (outgoing dev m) + 32 := by
      simp only [packetSize, alignUp8, maximumPushSize]
      omega
    simp only [maximumPushSize] at hle hpos ⊢
    exact ⟨by omega, by omega⟩
  · trivial

theorem inHand_sizePc (hring : OutgoingRing dev m ps) (available : ℕ) :
    (sizePc dev m available).inHand = [] := by
  rw [sizePc, Act.handle_ok (run_getMaximumPushSize hring.in_le hring.out_lt.le)]
  split <;> rfl

/-- Room promised is room for the push, unless the indices hide it. -/
theorem room_iff {content : Bytes} (hring : OutgoingRing dev m ps)
    (hfits : Fits dev (usedSize ps) content.data.length) :
    packetSize content.data.length ≤ writableSize dev (outgoing dev m) ↔
      ¬ ((outgoing dev m).In.toNat = dev.dataMaximumSize ∧ (outgoing dev m).Out.toNat = 0) := by
  have hsize := packetSize_ge content.data.length
  have hroom := hfits.2
  rw [hring.writableSize_eq]
  split
  · next h => exact iff_of_false (by omega) (not_not.mpr h)
  · next h => exact iff_of_true (by omega) h

/-- A push that has room keeps the invariant. -/
theorem Inv.pushContent {content : Bytes} (H : Inv dev s) (hpc : s.pc = .holding content)
    (hapart : IndicesApart dev s .push) : Inv dev (pushContent dev s content) := by
  obtain ⟨ps, hring, hpromise, hbytes⟩ := H
  rw [hpc] at hpromise hbytes
  obtain ⟨hshort, hroom⟩ := hpromise
  obtain ⟨m, hrun, effect⟩ := run_pushPipePacket (c := content) hring.in_le hring.out_lt.le (by omega)
    ((room_iff hring ⟨hshort, hroom⟩).mpr hapart)
  rw [Tcp2Vmbus.pushContent, Act.handle_ok hrun]
  have hring' : ∃ ps', OutgoingRing dev m ps' := by
    rcases Nat.lt_or_eq_of_le hroom with hlt | heq
    · exact ⟨_, hring.push effect hlt⟩
    · exact ⟨[], hring.push_full effect heq⟩
  obtain ⟨ps', hring'⟩ := hring'
  exact ⟨ps', hring', trivial, by simpa [Pc.inHand] using hbytes⟩

/-- A push from the bad indices throws. -/
theorem Inv.not_pushContent {content : Bytes} (H : Inv dev s) (hpc : s.pc = .holding content)
    (hbad : ¬ IndicesApart dev s .push) : ¬ Intact (Tcp2Vmbus.pushContent dev s content) := by
  obtain ⟨ps, hring, hpromise, _⟩ := H
  rw [hpc] at hpromise
  have hshort := hpromise.1
  have hfull := (room_iff hring hpromise).not.mpr hbad
  rw [Tcp2Vmbus.pushContent, Act.handle_error (run_pushPipePacket_full hring.in_le hring.out_lt.le
    (by omega) (Nat.lt_of_not_le hfull))]
  rintro ⟨hrunning, _⟩
  exact hrunning _ rfl

theorem step_push : step dev s .push = some t ↔
    ∃ content, s.pc = .holding content ∧ t = Tcp2Vmbus.pushContent dev s content := by
  cases hpc : s.pc <;> simp [step, hpc, eq_comm]

/-- A step that meets the condition keeps the invariant. -/
theorem Inv.step (H : Inv dev s) (hapart : IndicesApart dev s l) (h : step dev s l = some t) :
    Inv dev t := by
  obtain ⟨ps, hring, hpromise, hbytes⟩ := H
  cases l with
  | push =>
      obtain ⟨content, hpc, rfl⟩ := step_push.mp h
      exact Inv.pushContent ⟨ps, hring, hpromise, hbytes⟩ hpc hapart
  | take =>
      obtain ⟨⟨c, m⟩, htake, rfl⟩ : ∃ r, hostTake dev s.mapping = some r ∧
          { s with mapping := r.2 } = t := by
        cases hpc : s.pc <;> simpa [Tcp2Vmbus.step, hpc] using h
      obtain ⟨p, ps', rfl, _, hring'⟩ := hring.of_hostTake htake
      exact ⟨ps', hring', hpromise.mono (by simp), hbytes⟩
  | size available =>
      cases hpc : s.pc <;> simp [Tcp2Vmbus.step, hpc] at h
      subst h
      rw [hpc] at hbytes
      exact ⟨ps, hring, promise_sizePc hring available, by rwa [inHand_sizePc hring]⟩
  | recv content =>
      cases hpc : s.pc <;> simp [Tcp2Vmbus.step, hpc] at h
      obtain ⟨hle, rfl⟩ := h
      rw [hpc] at hbytes hpromise
      have hmono := packetSize_mono hle
      refine ⟨ps, hring, ⟨hle.trans hpromise.1, ?_⟩, by simpa [Pc.inHand] using hbytes⟩
      exact (Nat.add_le_add_left hmono _).trans hpromise.2
  | signal =>
      cases hpc : s.pc <;> simp [Tcp2Vmbus.step, hpc] at h
      subst h
      rw [hpc] at hbytes
      exact ⟨ps, hring.signalHost, trivial, hbytes⟩
  | leave =>
      cases hpc : s.pc <;> simp [Tcp2Vmbus.step, hpc] at h <;> subst h <;> rw [hpc] at hbytes <;>
        exact ⟨ps, hring, rfl, hbytes⟩

/-- A step that does not meet it breaks the relay. -/
theorem Inv.not_intact (H : Inv dev s) (hbad : ¬ IndicesApart dev s l)
    (h : Tcp2Vmbus.step dev s l = some t) : ¬ Intact t := by
  cases l with
  | push =>
      obtain ⟨content, hpc, rfl⟩ := step_push.mp h
      exact H.not_pushContent hpc hbad
  | _ => exact absurd trivial hbad

/-- **The relay from TCP.** From empty indices, in a run no ring operation throws and the
bytes received are always those pushed and those in hand, if and only if no push of the
run meets `In` at the end of the data area and `Out` at its start. -/
theorem intact_iff_indicesApart (dev : UioHvDevice) (m : Mapping) (hIn : (outgoing dev m).In = 0)
    (hOut : (outgoing dev m).Out = 0) (ls : List Label) :
    Always (step dev) Intact (start m) ls ↔ Meets (step dev) (IndicesApart dev) (start m) ls :=
  always_iff_of_invariant (fun _ => Inv.intact) (fun _ _ _ => Inv.step)
    (fun _ _ _ => Inv.not_intact) ⟨[], .empty hIn hOut, trivial, rfl⟩

/-! ## A run that loses a promise -/

/-- One iteration of the loop. -/
def iteration (content : Bytes) : List Label :=
  [.size content.data.length, .recv content] ++ [.push, .signal]

/-- Some iterations whose packets the host takes at once; an iteration whose packet it
takes only after the next size has been promised. -/
def lateTake (content : Bytes) (rounds : ℕ) : List Label :=
  (List.replicate rounds (iteration content ++ [.take])).flatten ++ iteration content ++
    ([.size content.data.length, .recv content] ++ [.take, .push])

variable {content : Bytes}

/-- The packet of the longest buffer. -/
theorem packetSize_le {n : ℕ} (h : n ≤ 16384) : packetSize n ≤ 16416 := by
  simp only [packetSize, alignUp8]
  omega

/-- With room for their packet the bytes that are available are promised. -/
theorem sizePc_of_room {n : ℕ} (hring : OutgoingRing dev m ps) (hpos : 0 < n) (hshort : n ≤ 16384)
    (hspace : packetSize n ≤ writableSize dev (outgoing dev m)) :
    sizePc dev m n = .promised n := by
  have hmax : n ≤ maximumPushSize dev (outgoing dev m) := by
    simp only [packetSize, alignUp8] at hspace
    simp only [maximumPushSize]
    omega
  rw [sizePc, Act.handle_ok (run_getMaximumPushSize hring.in_le hring.out_lt.le),
    if_pos (by omega)]
  congr 1
  omega

/-- And received. -/
theorem exec_size_recv (content : Bytes) (hpc : s.pc = .top) (hring : OutgoingRing dev s.mapping ps)
    (hpos : 0 < content.data.length) (hshort : content.data.length ≤ 16384)
    (hspace : packetSize content.data.length ≤ writableSize dev (outgoing dev s.mapping)) :
    exec (Tcp2Vmbus.step dev) s [.size content.data.length, .recv content] =
      some { s with pc := .holding content, received := s.received ++ content.data } := by
  have hsize := sizePc_of_room hring hpos hshort hspace
  rw [exec_cons (t := { s with pc := .promised content.data.length })
    (by simp [Tcp2Vmbus.step, hpc, hsize]), exec_cons (by simp [Tcp2Vmbus.step]; rfl), exec_nil]

/-- An iteration with room for its packet pushes what it received. -/
theorem exec_iteration (content : Bytes) (hpc : s.pc = .top) (hring : OutgoingRing dev s.mapping ps)
    (hpos : 0 < content.data.length) (hshort : content.data.length ≤ 16384)
    (hspace : packetSize content.data.length ≤ writableSize dev (outgoing dev s.mapping))
    (hroom : usedSize ps + packetSize content.data.length < dev.dataMaximumSize) :
    ∃ t p, exec (Tcp2Vmbus.step dev) s (iteration content) = some t ∧ t.pc = .top ∧
      t.received = s.received ++ content.data ∧ t.pushed = s.pushed ++ [content.data] ∧
      OutgoingRing dev t.mapping (ps ++ [p]) ∧ p.content = content.data ∧
      p.size = packetSize content.data.length ∧
      (outgoing dev t.mapping).Out = (outgoing dev s.mapping).Out ∧
      (outgoing dev t.mapping).In.toNat = advance dev.dataMaximumSize
        (outgoing dev s.mapping).In.toNat (packetSize content.data.length) := by
  obtain ⟨m, hrun, effect⟩ := run_pushPipePacket (c := content) hring.in_le hring.out_lt.le
    (by omega) hspace
  have hring' := hring.push effect hroom
  have hreceived := exec_size_recv content hpc hring hpos hshort hspace
  have hpush : Tcp2Vmbus.step dev
      { s with pc := .holding content, received := s.received ++ content.data } .push =
      some ⟨m, .signalling, s.received ++ content.data, s.pushed ++ [content.data]⟩ := by
    rw [step_push.mpr ⟨content, rfl, rfl⟩, Tcp2Vmbus.pushContent, Act.handle_ok hrun]
  refine ⟨⟨signalHost dev m, .top, s.received ++ content.data, s.pushed ++ [content.data]⟩,
    pushPacket content.data (outgoing dev s.mapping).In (by omega), ?_, rfl, rfl, rfl,
    hring'.signalHost, rfl, rfl, ?_, ?_⟩
  · rw [iteration, exec_append _ hreceived, exec_cons hpush]
    rfl
  · rw [signalHost, outgoing_interruptControl, effect.out_eq]
  · rw [signalHost, outgoing_interruptControl, effect.in_eq, size_pushPacket]

/-- The host takes a packet wherever the thread stands. -/
theorem step_take {p : PipePacket} (hring : OutgoingRing dev s.mapping (p :: ps)) :
    Tcp2Vmbus.step dev s .take = some { s with mapping := takePast dev s.mapping p.size } := by
  cases hpc : s.pc <;> simp [Tcp2Vmbus.step, hpc, hring.take]

/-- An empty ring with both indices at an offset, and the thread at the top of its loop. -/
structure EmptyAt (dev : UioHvDevice) (s : Tcp2Vmbus) (offset : ℕ) : Prop where
  top : s.pc = .top
  ring : OutgoingRing dev s.mapping []
  in_eq : (outgoing dev s.mapping).In.toNat = offset
  out_eq : (outgoing dev s.mapping).Out.toNat = offset

theorem EmptyAt.writableSize_eq {offset : ℕ} (H : EmptyAt dev s offset) :
    writableSize dev (outgoing dev s.mapping) = dev.dataMaximumSize := by
  rw [writableSize, H.in_eq, H.out_eq, if_pos le_rfl, Nat.sub_self, Nat.sub_zero]

/-- An iteration whose packet the host takes moves both indices. -/
theorem EmptyAt.exec_round {offset : ℕ} (H : EmptyAt dev s offset)
    (hpos : 0 < content.data.length) (hshort : content.data.length ≤ 16384)
    (hend : offset + packetSize content.data.length < dev.dataMaximumSize) :
    ∃ t, exec (Tcp2Vmbus.step dev) s (iteration content ++ [.take]) = some t ∧
      EmptyAt dev t (offset + packetSize content.data.length) := by
  have hfit := dev.offsets_fit
  obtain ⟨t, p, hexec, hpc, _, _, hring, _, hsize, hout, hin⟩ :=
    exec_iteration content H.top H.ring hpos hshort (by rw [H.writableSize_eq]; omega)
      (by rw [usedSize_nil]; omega)
  rw [List.nil_append] at hring
  rw [H.in_eq, advance, if_neg (by omega)] at hin
  have hround := exec_append [.take] hexec
  rw [exec_cons (step_take hring), exec_nil] at hround
  refine ⟨_, hround, hpc, hring.takePast, ?_, ?_⟩
  · rw [in_takePast, hin]
  · rw [out_takePast, hout, H.out_eq, hsize, Nat.mod_eq_of_lt hend]

theorem EmptyAt.exec_rounds {offset : ℕ} (H : EmptyAt dev s offset)
    (hpos : 0 < content.data.length) (hshort : content.data.length ≤ 16384) (rounds : ℕ)
    (hend : offset + rounds * packetSize content.data.length < dev.dataMaximumSize) :
    ∃ t, exec (Tcp2Vmbus.step dev) s
        (List.replicate rounds (iteration content ++ [.take])).flatten = some t ∧
      EmptyAt dev t (offset + rounds * packetSize content.data.length) := by
  induction rounds generalizing s offset with
  | zero => exact ⟨s, rfl, by rwa [Nat.zero_mul, Nat.add_zero]⟩
  | succ rounds ih =>
      rw [Nat.succ_mul] at hend ⊢
      obtain ⟨u, hu, hempty⟩ := H.exec_round hpos hshort (by omega)
      obtain ⟨t, ht, hempty'⟩ := ih hempty (by omega)
      refine ⟨t, ?_, ?_⟩
      · rw [List.replicate_succ, List.flatten_cons, exec_append _ hu, ht]
      · rwa [show offset + (rounds * packetSize content.data.length +
          packetSize content.data.length) = offset + packetSize content.data.length +
          rounds * packetSize content.data.length by omega]

/-- Packets that together reach the end of the data area, the last one taken late: the
relay breaks. -/
theorem not_intact_lateTake {rounds : ℕ} (H : EmptyAt dev s 0) (hpos : 0 < content.data.length)
    (hshort : content.data.length ≤ 16384) (hlarge : 32832 < dev.dataMaximumSize)
    (hend : (rounds + 1) * packetSize content.data.length = dev.dataMaximumSize) :
    ¬ Always (Tcp2Vmbus.step dev) Intact s (lateTake content rounds) := by
  have hsize := packetSize_ge content.data.length
  have hfits := packetSize_le hshort
  rw [Nat.succ_mul] at hend
  -- The rounds bring both indices to one packet before the end of the data area.
  obtain ⟨u, hrounds, hempty⟩ := H.exec_rounds hpos hshort rounds (by omega)
  obtain ⟨v, p, hiteration, hpc, _, _, hring, _, hp, hout, hin⟩ :=
    exec_iteration content hempty.top hempty.ring hpos hshort
      (by rw [hempty.writableSize_eq]; omega) (by rw [usedSize_nil]; omega)
  rw [List.nil_append] at hring
  rw [hempty.in_eq, Nat.zero_add, advance, if_neg (by omega), hend] at hin
  rw [← UInt32.toNat_inj, hempty.out_eq, Nat.zero_add] at hout
  have hroom := hring.writableSize_of_pos (by simp; omega)
  rw [usedSize_cons, usedSize_nil] at hroom
  have hreceived := exec_size_recv content hpc hring hpos hshort (by omega)
  have htaken := hring.takePast
  have hspace := htaken.writableSize_eq
  rw [if_pos ⟨by rw [in_takePast, hin],
    by rw [out_takePast, hout, hp, hend, Nat.mod_self]⟩] at hspace
  have hexec : exec (Tcp2Vmbus.step dev) s (lateTake content rounds) = some
      (Tcp2Vmbus.pushContent dev ⟨takePast dev v.mapping p.size, .holding content,
        v.received ++ content.data, v.pushed⟩ content) := by
    rw [lateTake, List.append_assoc, exec_append _ hrounds, exec_append _ hiteration,
      exec_append _ hreceived, exec_cons (step_take (s := ⟨v.mapping, .holding content, _, _⟩) hring),
      exec_cons (step_push.mpr ⟨content, rfl, rfl⟩), exec_nil]
  intro hintact
  refine (hintact.exec hexec).running (.exception "Insufficient Space") ?_
  rw [Tcp2Vmbus.pushContent, Act.handle_error (run_pushPipePacket_full htaken.in_le htaken.out_lt.le
    (by omega) (by rw [hspace]; omega))]

/-- In the rings of the driver, packets of 16352 bytes. -/
theorem not_intact_of_length (hlength : content.data.length = 16320) :
    ¬ Always (Tcp2Vmbus.step .defaultRings) Intact (start fun _ => 0) (lateTake content 127) := by
  have hempty : EmptyAt .defaultRings (start fun _ => 0) 0 := ⟨rfl, .empty rfl rfl, rfl, rfl⟩
  refine not_intact_lateTake hempty (by omega) (by omega) (by decide) ?_
  rw [hlength]
  decide

/-- The run of 129 iterations with buffers of zeros, from empty rings. -/
theorem not_intact_zeros :
    ¬ Always (Tcp2Vmbus.step .defaultRings) Intact (start fun _ => 0)
      (lateTake (.zeros 16320 (by decide)) 127) := not_intact_of_length (Bytes.length_zeros _ _)

/-- The same schedule without the rounds: a packet that is taken between the promise and the
push only adds room, away from the end of the data area. -/
theorem intact_lateTake : ∃ t,
    exec (Tcp2Vmbus.step .defaultRings) (start fun _ => 0)
      (lateTake ⟨[3, 0, 0, 19], by decide⟩ 0) = some t ∧
    t.received = [3, 0, 0, 19, 3, 0, 0, 19] ∧ t.pushed = [[3, 0, 0, 19], [3, 0, 0, 19]] ∧
    Always (Tcp2Vmbus.step .defaultRings) Intact (start fun _ => 0)
      (lateTake ⟨[3, 0, 0, 19], by decide⟩ 0) := by
  have hIn : (outgoing .defaultRings fun _ => 0).In = 0 := rfl
  have hOut : (outgoing .defaultRings fun _ => 0).Out = 0 := rfl
  generalize hcontent : (⟨[3, 0, 0, 19], by decide⟩ : Bytes) = content
  have hlength : content.data.length = 4 := by rw [← hcontent]; rfl
  have hdata : content.data = [3, 0, 0, 19] := by rw [← hcontent]
  have hlarge : UioHvDevice.defaultRings.dataMaximumSize = 2093056 := rfl
  have hsize : packetSize content.data.length = 40 := by rw [hlength]; rfl
  have hempty : EmptyAt .defaultRings (start fun _ => 0) 0 := ⟨rfl, .empty rfl rfl, rfl, rfl⟩
  -- The first packet is pushed and stays in the ring.
  obtain ⟨v, p, hiteration, hpc, hreceived, hpushed, hring, -, hp, hout, hin⟩ :=
    exec_iteration content hempty.top hempty.ring (by omega) (by omega)
      (by rw [hempty.writableSize_eq]; omega) (by rw [usedSize_nil]; omega)
  rw [List.nil_append] at hring
  rw [hempty.in_eq, hsize, advance, if_neg (by omega)] at hin
  have hroom := hring.writableSize_of_pos (by simp; omega)
  rw [usedSize_cons, usedSize_nil] at hroom
  -- The next bytes are received, and the packet is taken before they are pushed.
  have hsecond := exec_size_recv content hpc hring (by omega) (by omega) (by omega)
  have htaken := hring.takePast
  have hspace := htaken.writableSize_eq
  have hapart : ¬ ((outgoing .defaultRings (takePast .defaultRings v.mapping p.size)).In.toNat =
      UioHvDevice.defaultRings.dataMaximumSize ∧
      (outgoing .defaultRings (takePast .defaultRings v.mapping p.size)).Out.toNat = 0) := by
    rw [in_takePast, hin]
    omega
  rw [if_neg hapart, usedSize_nil, Nat.sub_zero] at hspace
  obtain ⟨m, hrun, _⟩ := run_pushPipePacket (c := content) htaken.in_le htaken.out_lt.le
    (by omega) (by rw [hspace]; omega)
  have hpush : Tcp2Vmbus.step .defaultRings ⟨takePast .defaultRings v.mapping p.size,
      .holding content, v.received ++ content.data, v.pushed⟩ .push =
      some ⟨m, .signalling, v.received ++ content.data, v.pushed ++ [content.data]⟩ := by
    rw [step_push.mpr ⟨content, rfl, rfl⟩, Tcp2Vmbus.pushContent, Act.handle_ok hrun]
  have htake := step_take (s := ⟨v.mapping, .holding content, v.received ++ content.data,
    v.pushed⟩) hring
  refine ⟨⟨m, .signalling, v.received ++ content.data, v.pushed ++ [content.data]⟩, ?_, ?_, ?_,
    (intact_iff_indicesApart .defaultRings (fun _ => 0) hIn hOut _).mpr ?_⟩
  · rw [lateTake, List.replicate_zero, List.flatten_nil, List.nil_append,
      exec_append _ hiteration, exec_append _ hsecond, exec_cons htake, exec_cons hpush, exec_nil]
  · rw [hreceived, hdata]
    rfl
  · rw [hpushed, hdata]
    rfl
  · rw [lateTake, List.replicate_zero, List.flatten_nil, List.nil_append,
      meets_append _ hiteration, meets_append _ hsecond, meets_cons htake, meets_cons hpush]
    have hfirst := exec_size_recv content hempty.top hempty.ring (by omega) (by omega)
      (by rw [hempty.writableSize_eq]; omega)
    have hreceives (u : Tcp2Vmbus) : Meets (step .defaultRings) (IndicesApart .defaultRings) u
        [.size content.data.length, .recv content] := meets_of_labels (by simp [IndicesApart])
    refine ⟨?_, hreceives _, trivial, hapart, trivial⟩
    rw [iteration, meets_append _ hfirst]
    refine ⟨hreceives _, fun _ _ => ⟨?_, meets_of_labels (by simp [IndicesApart])⟩⟩
    change ¬ ((outgoing .defaultRings fun _ => 0).In.toNat =
      UioHvDevice.defaultRings.dataMaximumSize ∧ _)
    rw [hIn, hlarge]
    simp

end Tcp2Vmbus

end HvGin
