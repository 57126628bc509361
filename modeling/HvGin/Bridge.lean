import HvGin.Tcp2Vmbus
import HvGin.Vmbus2Tcp

/-!
# The two relays of a session on one mapping

A session relays between the RDP server and the host in both directions at once. Both loops
work on one mapping, and so do the host, which takes and puts packets, and the interrupt
mask. `FromTcp` says that what the host has taken, followed by what it still reads and by
what the loop has in hand, are the bytes received from the server; `ToTcp` that the server
has accepted what the host has put, less what is still on its way.

The directions do not disturb each other: each keeps its stream in every interleaving with
the other, even if the other loses bytes or has thrown. So each has its own exact condition.
A push leaves a byte of the ring free (`fromTcp_iff_leavesRoom`), and a send is accepted whole
(`toTcp_iff_acceptsWhole`).

## Main definitions

* `Bridge` — the mapping, the loops and the bytes at either end.
* `FromTcp`, `ToTcp` — the two streams.
* `FromTcp.Inv`, `ToTcp.Inv` — their invariants.
-/
namespace HvGin

open Lib

/-- The mapping and the two loops, with what has passed either end of both directions. -/
structure Bridge where
  mapping : Mapping
  tcp2Vmbus : Tcp2Vmbus.Pc
  vmbus2Tcp : Vmbus2Tcp.Pc
  received : List UInt8
  pushed : List (List UInt8)
  taken : List (List UInt8)
  written : List (List UInt8)
  popped : List (List UInt8)
  accepted : List UInt8

namespace Bridge

inductive Label
  /-- A step of `Tcp2VmbusThread`. -/
  | tcp2Vmbus (l : Tcp2Vmbus.Label)
  /-- A step of `Vmbus2TcpThread`. -/
  | vmbus2Tcp (l : Vmbus2Tcp.Label)
  /-- The host takes a packet. -/
  | take
  /-- The host puts a packet. -/
  | put (p : PipePacket)
  /-- The driver masks the interrupt or unmasks it. -/
  | interruptControl (enable : Bool)

variable (dev : UioHvDevice)

def start (m : Mapping) : Bridge := ⟨m, .top, .top, [], [], [], [], [], []⟩

/-- What the one loop sees, and the other. -/
def fromTcp (s : Bridge) : Tcp2Vmbus := ⟨s.mapping, s.tcp2Vmbus, s.received, s.pushed⟩
def toTcp (s : Bridge) : Vmbus2Tcp := ⟨s.mapping, s.vmbus2Tcp, s.popped, s.accepted⟩

def setFromTcp (s : Bridge) (t : Tcp2Vmbus) : Bridge :=
  { s with mapping := t.mapping, tcp2Vmbus := t.pc, received := t.received, pushed := t.pushed }
def setToTcp (s : Bridge) (t : Vmbus2Tcp) : Bridge :=
  { s with mapping := t.mapping, vmbus2Tcp := t.pc, popped := t.popped, accepted := t.accepted }

/-- The steps of the host are steps of their own here. -/
def step (s : Bridge) : Label → Option Bridge
  | .tcp2Vmbus .take => none
  | .tcp2Vmbus l => (Tcp2Vmbus.step dev s.fromTcp l).map s.setFromTcp
  | .vmbus2Tcp (.environment _) => none
  | .vmbus2Tcp l => (Vmbus2Tcp.step dev s.toTcp l).map s.setToTcp
  | .take => (hostTake dev s.mapping).map fun r =>
      { s with mapping := r.2, taken := s.taken ++ [r.1] }
  | .put p => (hostPut dev s.mapping p).map fun m =>
      { s with mapping := m, written := s.written ++ [p.content] }
  | .interruptControl enable => some { s with mapping := interruptControl dev enable s.mapping }

/-- No ring operation of the loop has thrown, and between the server and the host no byte is
missing: the contents pushed are those taken and those that the host still reads. -/
structure FromTcp (s : Bridge) : Prop where
  running : ∀ e, s.tcp2Vmbus ≠ .ended (some e)
  bytes : s.pushed.flatten ++ s.tcp2Vmbus.inHand = s.received
  contents : s.taken ++ readableContents dev s.mapping = s.pushed

/-- Until the loop has ended, the bytes accepted by the server, those in hand and those in the
ring are what the host has written. -/
def ToTcp (s : Bridge) : Prop :=
  s.vmbus2Tcp ≠ .ended →
    s.accepted ++ s.vmbus2Tcp.inHand ++ (incomingContents dev s.mapping).flatten =
      s.written.flatten

/-- A push leaves at least a byte of the writable size free. -/
def LeavesRoom (s : Bridge) : Label → Prop
  | .tcp2Vmbus .push => ∀ content, s.tcp2Vmbus = .holding content →
      packetSize content.data.length < writableSize dev (outgoing dev s.mapping)
  | _ => True

/-- A send is accepted whole. -/
def AcceptsWhole (s : Bridge) : Label → Prop
  | .vmbus2Tcp l => Vmbus2Tcp.AcceptsWhole s.toTcp l
  | _ => True

/-- The loop keeps its own invariant, and the host has missed nothing. -/
structure FromTcp.Inv (s : Bridge) : Prop where
  loop : Tcp2Vmbus.Inv dev s.fromTcp
  contents : s.taken ++ readableContents dev s.mapping = s.pushed

/-- The incoming ring holds what was written and not yet popped. Of the other ring only the
indices matter. -/
structure ToTcp.Inv (s : Bridge) : Prop where
  in_le : (outgoing dev s.mapping).In.toNat ≤ dev.dataMaximumSize
  out_le : (outgoing dev s.mapping).Out.toNat ≤ dev.dataMaximumSize
  ring : ∃ ps, IncomingRing dev s.mapping ps
  contents : s.popped.flatten ++ (incomingContents dev s.mapping).flatten = s.written.flatten
  loop : Vmbus2Tcp.Intact s.toTcp

/-- What the other direction does between two steps of this one. -/
structure FromTcp.Beside (s t : Bridge) : Prop where
  fromTcp : { t.fromTcp with mapping := s.mapping } = s.fromTcp
  taken : t.taken = s.taken
  mapping : ∀ a, a < dev.incomingControlOffset → t.mapping a = s.mapping a

structure ToTcp.Beside (s t : Bridge) : Prop where
  toTcp : { t.toTcp with mapping := s.mapping } = s.toTcp
  written : t.written = s.written
  ring : ∀ ps, IncomingRing dev s.mapping ps → IncomingRing dev t.mapping ps
  in_le : (outgoing dev t.mapping).In.toNat ≤ dev.dataMaximumSize
  out_le : (outgoing dev t.mapping).Out.toNat ≤ dev.dataMaximumSize

variable {dev} {s t : Bridge} {l : Label} {m m' : Mapping} {ps : List PipePacket}

/-! ## What one direction is to the other -/

theorem outgoing_congr (h : ∀ a, a < dev.incomingControlOffset → m' a = m a) :
    outgoing dev m' = outgoing dev m := by
  have hpage := dev.control_fits
  have hcontrol := dev.incomingControlOffset_eq
  have hdata : dev.outgoingDataOffset = dev.controlMaximumSize := rfl
  have hzero : dev.outgoingControlOffset = 0 := rfl
  exact controlBlock_congr fun i hi => h _ (by omega)

/-- The outgoing ring lies in front of the incoming one. -/
theorem outgoingRing_congr (H : OutgoingRing dev m ps)
    (h : ∀ a, a < dev.incomingControlOffset → m' a = m a) : OutgoingRing dev m' ps := by
  have hcontrol := dev.incomingControlOffset_eq
  have heq := outgoing_congr h
  refine ⟨heq ▸ H.in_le, heq ▸ H.out_lt, ?_⟩
  rw [heq]
  exact H.ring.congr fun a ha => h _ (by omega)

/-- And the incoming ring behind the outgoing one. -/
theorem incomingRing_congr (H : IncomingRing dev m ps)
    (h : ∀ a, dev.incomingControlOffset ≤ a → m' a = m a) : IncomingRing dev m' ps := by
  have heq : incoming dev m' = incoming dev m :=
    controlBlock_congr fun i hi => h _ (Nat.le_add_right _ _)
  have hdata : dev.incomingDataOffset = dev.incomingControlOffset + dev.controlMaximumSize := rfl
  refine ⟨heq ▸ H.in_lt, heq ▸ H.out_le, ?_⟩
  rw [heq]
  exact H.ring.congr fun a ha => h _ (by omega)

/-- A pop writes nothing in front of the incoming ring, whatever it meets. -/
theorem popContent_mapping {u : Vmbus2Tcp} {a : ℕ} (h : a < dev.incomingControlOffset) :
    (Vmbus2Tcp.popContent dev u).mapping a = u.mapping a := by
  rcases popCopy_cases dev u.mapping with ⟨content, finalOffset, hc⟩ | hnone | ⟨e, he⟩
  · rw [Vmbus2Tcp.popContent, Act.handle_ok (run_popPipePacket_consumes hc)]
    exact popStore_apply (.inl (by omega))
  · rw [Vmbus2Tcp.popContent, Act.handle_ok (run_popPipePacket_none hnone)]
  · rw [Vmbus2Tcp.popContent, Act.handle_error (run_popPipePacket_error he)]

/-- A push from indices in range has its effect, or throws and changes nothing. -/
theorem pushPipePacket_cases (hIn : (outgoing dev m).In.toNat ≤ dev.dataMaximumSize)
    (hOut : (outgoing dev m).Out.toNat ≤ dev.dataMaximumSize) (c : Bytes) :
    (∃ m' p, (pushPipePacket dev c).run m = (.ok ⟨⟩, m') ∧ PushEffect dev m m' p ∧
      p.size ≤ dev.dataMaximumSize) ∨
    ∃ e, (pushPipePacket dev c).run m = (.error e, m) := by
  by_cases hlong : 524280 < 24 + c.data.length
  · exact .inr ⟨_, run_pushPipePacket_overflow hlong⟩
  by_cases hfull : writableSize dev (outgoing dev m) < packetSize c.data.length
  · exact .inr ⟨_, run_pushPipePacket_full hIn hOut (not_lt.mp hlong) hfull⟩
  obtain ⟨m', hrun, effect⟩ := run_pushPipePacket hIn hOut (not_lt.mp hlong) (not_lt.mp hfull)
  refine .inl ⟨m', _, hrun, effect, ?_⟩
  rw [size_pushPacket]
  exact (not_lt.mp hfull).trans (writableSize_le hOut)

theorem step_tcp2Vmbus {l : Tcp2Vmbus.Label} (h : step dev s (.tcp2Vmbus l) = some t) :
    l ≠ .take ∧ ∃ u, Tcp2Vmbus.step dev s.fromTcp l = some u ∧ t = s.setFromTcp u := by
  cases l with
  | take => cases h
  | _ =>
      obtain ⟨u, hu, rfl⟩ := Option.map_eq_some_iff.mp h
      exact ⟨nofun, u, hu, rfl⟩

theorem step_vmbus2Tcp {l : Vmbus2Tcp.Label} (h : step dev s (.vmbus2Tcp l) = some t) :
    (∀ m, l ≠ .environment m) ∧ ∃ u, Vmbus2Tcp.step dev s.toTcp l = some u ∧ t = s.setToTcp u := by
  cases l with
  | environment m => cases h
  | _ =>
      obtain ⟨u, hu, rfl⟩ := Option.map_eq_some_iff.mp h
      exact ⟨nofun, u, hu, rfl⟩

theorem step_of_tcp2Vmbus {r : Tcp2Vmbus.Label} {u : Tcp2Vmbus} (hr : r ≠ .take)
    (h : Tcp2Vmbus.step dev s.fromTcp r = some u) :
    step dev s (.tcp2Vmbus r) = some (s.setFromTcp u) := by
  cases r with
  | take => exact absurd rfl hr
  | _ => exact Option.map_eq_some_iff.mpr ⟨u, h, rfl⟩

theorem step_of_vmbus2Tcp {r : Vmbus2Tcp.Label} {u : Vmbus2Tcp} (hr : ∀ m, r ≠ .environment m)
    (h : Vmbus2Tcp.step dev s.toTcp r = some u) :
    step dev s (.vmbus2Tcp r) = some (s.setToTcp u) := by
  cases r with
  | environment m => exact absurd rfl (hr m)
  | _ => exact Option.map_eq_some_iff.mpr ⟨u, h, rfl⟩

/-- Steps of the one loop in a row. -/
theorem exec_of_tcp2Vmbus {rs : List Tcp2Vmbus.Label} {u : Tcp2Vmbus} (hrs : .take ∉ rs)
    (h : exec (Tcp2Vmbus.step dev) s.fromTcp rs = some u) :
    exec (step dev) s (rs.map .tcp2Vmbus) = some (s.setFromTcp u) := by
  induction rs generalizing s with
  | nil =>
      cases h
      rfl
  | cons r rs ih =>
      obtain ⟨v, hv, hu⟩ := Option.bind_eq_some_iff.mp h
      rw [List.mem_cons, not_or] at hrs
      rw [List.map_cons, exec_cons (step_of_tcp2Vmbus (Ne.symm hrs.1) hv),
        ih (s := s.setFromTcp v) hrs.2 hu]
      rfl

theorem step_put {p : PipePacket} (hput : hostPut dev s.mapping p = some m) :
    step dev s (.put p) =
      some { s with mapping := m, written := s.written ++ [p.content] } := by
  rw [step, hput]
  rfl

/-- The host takes the first packet wherever the loops stand. -/
theorem step_take {p : PipePacket} (hring : OutgoingRing dev s.mapping (p :: ps)) :
    step dev s .take = some { s with
      mapping := takePast dev s.mapping p.size
      taken := s.taken ++ [p.content] } := by
  rw [step, hring.take]
  rfl

/-- A loop that pops leaves the outgoing ring alone. -/
theorem vmbus2Tcp_apply {u : Vmbus2Tcp} {l : Vmbus2Tcp.Label} (hl : ∀ m, l ≠ .environment m)
    (h : Vmbus2Tcp.step dev s.toTcp l = some u) {a : ℕ} (ha : a < dev.incomingControlOffset) :
    u.mapping a = s.mapping a := by
  cases l with
  | environment m => exact absurd rfl (hl m)
  | pop =>
      cases hpc : s.toTcp.pc <;> simp [Vmbus2Tcp.step, hpc] at h
      subst h
      exact popContent_mapping ha
  | send count =>
      obtain ⟨content, _, _, rfl⟩ := Vmbus2Tcp.step_send.mp h
      rfl
  | _ =>
      cases hpc : s.toTcp.pc <;> simp [Vmbus2Tcp.step, hpc] at h
      subst h
      rfl

/-- A step of anyone else than the loop and its host. -/
theorem FromTcp.beside_of_step (h : step dev s l = some t) (hloop : ∀ r, l ≠ .tcp2Vmbus r)
    (hhost : l ≠ .take) : FromTcp.Beside dev s t := by
  cases l with
  | tcp2Vmbus r => exact absurd rfl (hloop r)
  | take => exact absurd rfl hhost
  | vmbus2Tcp r =>
      obtain ⟨hr, u, hu, rfl⟩ := step_vmbus2Tcp h
      exact ⟨rfl, rfl, fun a ha => vmbus2Tcp_apply hr hu ha⟩
  | put p =>
      obtain ⟨m, hput, rfl⟩ := Option.map_eq_some_iff.mp h
      exact ⟨rfl, rfl, fun a ha => (putEffect_of_hostPut hput).2.frame a (.inl ha)⟩
  | interruptControl enable =>
      cases h
      exact ⟨rfl, rfl, fun a ha => interruptControl_apply ha⟩

theorem FromTcp.Inv.beside (H : FromTcp.Inv dev s) (B : FromTcp.Beside dev s t) :
    FromTcp.Inv dev t := by
  obtain ⟨⟨ps, hring, hpromise, hbytes⟩, hcontents⟩ := H
  have hring' := outgoingRing_congr hring B.mapping
  have hpc : t.tcp2Vmbus = s.tcp2Vmbus := congrArg Tcp2Vmbus.pc B.fromTcp
  have hreceived : t.received = s.received := congrArg Tcp2Vmbus.received B.fromTcp
  have hpushed : t.pushed = s.pushed := congrArg Tcp2Vmbus.pushed B.fromTcp
  refine ⟨⟨ps, hring', ?_, ?_⟩, ?_⟩
  · change Tcp2Vmbus.Promise dev (usedSize ps) t.tcp2Vmbus
    rw [hpc]
    exact hpromise
  · change t.pushed.flatten ++ t.tcp2Vmbus.inHand = t.received
    rw [hpushed, hpc, hreceived]
    exact hbytes
  · rw [B.taken, hpushed, hring'.readableContents_eq, ← hring.readableContents_eq]
    exact hcontents

/-- Room for a byte more is what keeps the indices apart. -/
theorem indicesApart_of_leavesRoom {content : Bytes} (hring : OutgoingRing dev s.mapping ps)
    (hroom : packetSize content.data.length < writableSize dev (outgoing dev s.mapping)) :
    Tcp2Vmbus.IndicesApart dev s.fromTcp .push := by
  intro hbad
  have hzero : writableSize dev (outgoing dev s.mapping) = 0 :=
    hring.writableSize_eq.trans (if_pos hbad)
  omega

/-- A push adds its content to what the host reads. -/
theorem readableContents_pushContent {content : Bytes} {u : Tcp2Vmbus}
    (H : Tcp2Vmbus.Inv dev u) (hpc : u.pc = .holding content)
    (hroom : packetSize content.data.length < writableSize dev (outgoing dev u.mapping)) :
    (Tcp2Vmbus.pushContent dev u content).pushed = u.pushed ++ [content.data] ∧
      readableContents dev (Tcp2Vmbus.pushContent dev u content).mapping =
        readableContents dev u.mapping ++ [content.data] := by
  obtain ⟨ps, hring, hpromise, _⟩ := H
  rw [hpc] at hpromise
  have hshort := hpromise.1
  have hspace := hring.writableSize_le
  obtain ⟨m, hrun, effect⟩ := run_pushPipePacket (c := content) hring.in_le hring.out_lt.le
    (by omega) hroom.le
  have hring' := hring.push effect (by rw [size_pushPacket]; omega)
  rw [Tcp2Vmbus.pushContent, Act.handle_ok hrun]
  refine ⟨rfl, ?_⟩
  rw [hring'.readableContents_eq, hring.readableContents_eq, List.map_append]
  rfl

/-- Any other step of the loop neither pushes nor touches the packets. -/
theorem readableContents_step {u v : Tcp2Vmbus} {r : Tcp2Vmbus.Label} (H : Tcp2Vmbus.Inv dev u)
    (hpush : r ≠ .push) (htake : r ≠ .take) (h : Tcp2Vmbus.step dev u r = some v) :
    v.pushed = u.pushed ∧ readableContents dev v.mapping = readableContents dev u.mapping := by
  obtain ⟨ps, hring, _⟩ := H
  cases r with
  | push => exact absurd rfl hpush
  | take => exact absurd rfl htake
  | signal =>
      cases hpc : u.pc <;> simp [Tcp2Vmbus.step, hpc] at h
      subst h
      exact ⟨rfl, hring.signalHost.readableContents_eq.trans hring.readableContents_eq.symm⟩
  | recv content =>
      cases hpc : u.pc <;> simp [Tcp2Vmbus.step, hpc] at h
      obtain ⟨_, rfl⟩ := h
      exact ⟨rfl, rfl⟩
  | _ =>
      cases hpc : u.pc <;> simp [Tcp2Vmbus.step, hpc] at h <;> subst h <;> exact ⟨rfl, rfl⟩

theorem FromTcp.Inv.step (H : FromTcp.Inv dev s) (hroom : LeavesRoom dev s l)
    (h : step dev s l = some t) : FromTcp.Inv dev t := by
  cases l with
  | tcp2Vmbus r =>
      obtain ⟨hr, u, hu, rfl⟩ := step_tcp2Vmbus h
      by_cases hpush : r = .push
      · subst hpush
        obtain ⟨content, hpc, hpushContent⟩ := Tcp2Vmbus.step_push.mp hu
        have hlt := hroom content hpc
        obtain ⟨ps, hring, _⟩ := H.loop
        obtain ⟨hpushed, hreads⟩ := readableContents_pushContent H.loop hpc hlt
        rw [← hpushContent] at hpushed hreads
        refine ⟨H.loop.step (indicesApart_of_leavesRoom hring hlt) hu, ?_⟩
        change s.taken ++ readableContents dev u.mapping = u.pushed
        rw [hpushed, hreads, ← List.append_assoc]
        exact congrArg (· ++ [content.data]) H.contents
      · obtain ⟨hpushed, hreads⟩ := readableContents_step H.loop hpush hr hu
        refine ⟨H.loop.step ?_ hu, ?_⟩
        · cases r with
          | push => exact absurd rfl hpush
          | _ => trivial
        · exact (congrArg (s.taken ++ ·) hreads).trans (H.contents.trans hpushed.symm)
  | take =>
      obtain ⟨⟨content, m⟩, htake, rfl⟩ := Option.map_eq_some_iff.mp h
      obtain ⟨ps, hring, hpromise, hbytes⟩ := H.loop
      obtain ⟨p, ps', rfl, rfl, hring'⟩ := hring.of_hostTake htake
      refine ⟨⟨ps', hring', hpromise.mono (by simp), hbytes⟩, ?_⟩
      change (s.taken ++ [p.content]) ++ readableContents dev m = s.pushed
      have hreads : readableContents dev s.mapping = p.content :: ps'.map PipePacket.content :=
        hring.readableContents_eq
      have hcontents := H.contents
      rw [hreads] at hcontents
      rw [hring'.readableContents_eq]
      simpa using hcontents
  | _ => exact H.beside (FromTcp.beside_of_step h nofun nofun)

theorem FromTcp.Inv.fromTcp (H : FromTcp.Inv dev s) : FromTcp dev s :=
  ⟨H.loop.intact.running, H.loop.intact.bytes, H.contents⟩

theorem push_of_not_leavesRoom (hfull : ¬ LeavesRoom dev s l) :
    ∃ content, l = .tcp2Vmbus .push ∧ s.tcp2Vmbus = .holding content ∧
      writableSize dev (outgoing dev s.mapping) ≤ packetSize content.data.length := by
  cases l with
  | tcp2Vmbus r =>
      cases r with
      | push =>
          simp only [LeavesRoom, not_forall, not_lt] at hfull
          obtain ⟨content, hpc, hge⟩ := hfull
          exact ⟨content, rfl, hpc, hge⟩
      | _ => exact absurd trivial hfull
  | _ => exact absurd trivial hfull

/-- A push that leaves no byte free throws, or hides what is in the ring. -/
theorem FromTcp.Inv.not_fromTcp (H : FromTcp.Inv dev s) (hfull : ¬ LeavesRoom dev s l)
    (h : Bridge.step dev s l = some t) : ¬ FromTcp dev t := by
  obtain ⟨content, rfl, hpc, hge⟩ := push_of_not_leavesRoom hfull
  obtain ⟨_, u, hu, rfl⟩ := step_tcp2Vmbus h
  obtain ⟨content', hpc', hpushContent⟩ := Tcp2Vmbus.step_push.mp hu
  obtain rfl : content = content' := Tcp2Vmbus.Pc.holding.inj (hpc.symm.trans hpc')
  obtain ⟨ps, hring, hpromise, _⟩ := H.loop
  rw [hpc'] at hpromise
  have hshort := hpromise.1
  have hfits := hpromise.2
  have hspace := hring.writableSize_le
  intro H'
  by_cases hlt : writableSize dev (outgoing dev s.mapping) < packetSize content.data.length
  · rw [Tcp2Vmbus.pushContent, Act.handle_error (run_pushPipePacket_full hring.in_le
      hring.out_lt.le (by omega) hlt)] at hpushContent
    subst hpushContent
    exact H'.running _ rfl
  · obtain ⟨m, hrun, effect⟩ := run_pushPipePacket (c := content) hring.in_le hring.out_lt.le
      (by omega) (not_lt.mp hlt)
    rw [Tcp2Vmbus.pushContent, Act.handle_ok hrun] at hpushContent
    subst hpushContent
    -- The room is all that the packets leave, so that the indices meet.
    have hfill : usedSize ps + packetSize content.data.length = dev.dataMaximumSize := by
      have hsize := packetSize_ge content.data.length
      have heq : writableSize dev (outgoing dev s.mapping) = _ := hring.writableSize_eq
      have hlt := hring.used_lt
      split_ifs at heq <;> omega
    have hempty := hring.push_full effect (by rw [size_pushPacket]; exact hfill)
    have hlost := H'.contents
    change s.taken ++ readableContents dev m = s.pushed ++ [content.data] at hlost
    rw [hempty.readableContents_eq, List.map_nil, List.append_nil, ← H.contents] at hlost
    have hlength := congrArg List.length hlost
    simp at hlength

/-- **From the server to the host.** From empty indices, whatever the other direction does, in
a run no ring operation of the loop throws and the host misses no byte, if and only if every
push leaves a byte free. -/
theorem fromTcp_iff_leavesRoom (dev : UioHvDevice) (m : Mapping) (hIn : (outgoing dev m).In = 0)
    (hOut : (outgoing dev m).Out = 0) (ls : List Label) :
    Always (step dev) (FromTcp dev) (start m) ls ↔
      Meets (step dev) (LeavesRoom dev) (start m) ls := by
  have hring : OutgoingRing dev m [] := .empty hIn hOut
  exact always_iff_of_invariant (fun _ => FromTcp.Inv.fromTcp) (fun _ _ _ => FromTcp.Inv.step)
    (fun _ _ _ => FromTcp.Inv.not_fromTcp)
    ⟨⟨[], hring, trivial, rfl⟩, hring.readableContents_eq⟩

/-! ## From the host to the server -/

/-- The loop that pushes leaves the incoming ring alone, and its indices in range. -/
theorem incomingRing_tcp2Vmbus {u v : Tcp2Vmbus} {r : Tcp2Vmbus.Label}
    (hIn : (outgoing dev u.mapping).In.toNat ≤ dev.dataMaximumSize)
    (hOut : (outgoing dev u.mapping).Out.toNat ≤ dev.dataMaximumSize) (hr : r ≠ .take)
    (h : Tcp2Vmbus.step dev u r = some v) :
    (∀ ps, IncomingRing dev u.mapping ps → IncomingRing dev v.mapping ps) ∧
      (outgoing dev v.mapping).In.toNat ≤ dev.dataMaximumSize ∧
      (outgoing dev v.mapping).Out.toNat ≤ dev.dataMaximumSize := by
  cases r with
  | take => exact absurd rfl hr
  | push =>
      obtain ⟨content, _, rfl⟩ := Tcp2Vmbus.step_push.mp h
      rcases pushPipePacket_cases hIn hOut content with ⟨m, p, hrun, effect, hle⟩ | ⟨e, hrun⟩
      · rw [Tcp2Vmbus.pushContent, Act.handle_ok hrun]
        have hpage := dev.control_fits
        have hcontrol := dev.incomingControlOffset_eq
        have hdata : dev.outgoingDataOffset = dev.controlMaximumSize := rfl
        refine ⟨fun ps hring => incomingRing_congr hring fun a ha => effect.frame a (by omega)
          (.inr (by omega)), ?_, ?_⟩
        · rw [effect.in_eq]
          exact advance_le hIn hle
        · rw [effect.out_eq]
          exact hOut
      · rw [Tcp2Vmbus.pushContent, Act.handle_error hrun]
        exact ⟨fun _ => id, hIn, hOut⟩
  | signal =>
      cases hpc : u.pc <;> simp [Tcp2Vmbus.step, hpc] at h
      subst h
      refine ⟨fun ps hring => hring.interruptControl, ?_, ?_⟩
      · rw [signalHost, outgoing_interruptControl]
        exact hIn
      · rw [signalHost, outgoing_interruptControl]
        exact hOut
  | recv content =>
      cases hpc : u.pc <;> simp [Tcp2Vmbus.step, hpc] at h
      obtain ⟨_, rfl⟩ := h
      exact ⟨fun _ => id, hIn, hOut⟩
  | _ =>
      cases hpc : u.pc <;> simp [Tcp2Vmbus.step, hpc] at h <;> subst h <;>
        exact ⟨fun _ => id, hIn, hOut⟩

theorem ToTcp.Inv.beside_of_step (H : ToTcp.Inv dev s) (h : step dev s l = some t)
    (hloop : ∀ r, l ≠ .vmbus2Tcp r) (hhost : ∀ p, l ≠ .put p) : ToTcp.Beside dev s t := by
  cases l with
  | vmbus2Tcp r => exact absurd rfl (hloop r)
  | put p => exact absurd rfl (hhost p)
  | tcp2Vmbus r =>
      obtain ⟨hr, u, hu, rfl⟩ := step_tcp2Vmbus h
      obtain ⟨hring, hIn, hOut⟩ := incomingRing_tcp2Vmbus (u := s.fromTcp) H.in_le H.out_le hr hu
      exact ⟨rfl, rfl, hring, hIn, hOut⟩
  | take =>
      obtain ⟨⟨content, m⟩, htake, rfl⟩ := Option.map_eq_some_iff.mp h
      obtain ⟨size, rfl⟩ := takePast_of_hostTake htake
      have hlt := Nat.mod_lt ((outgoing dev s.mapping).Out.toNat + size) dev.data_pos
      have hpage := dev.control_fits
      have hcontrol := dev.incomingControlOffset_eq
      have hdata : dev.outgoingDataOffset = dev.controlMaximumSize := rfl
      refine ⟨rfl, rfl, fun ps hring => incomingRing_congr hring fun a ha =>
        takeStore_apply (by omega), ?_, ?_⟩
      · rw [in_takePast]
        exact H.in_le
      · rw [out_takePast]
        exact hlt.le
  | interruptControl enable =>
      cases h
      refine ⟨rfl, rfl, fun ps hring => hring.interruptControl, ?_, ?_⟩
      · rw [outgoing_interruptControl]
        exact H.in_le
      · rw [outgoing_interruptControl]
        exact H.out_le

theorem ToTcp.Inv.beside (H : ToTcp.Inv dev s) (B : ToTcp.Beside dev s t) : ToTcp.Inv dev t := by
  obtain ⟨ps, hring⟩ := H.ring
  have hring' := B.ring ps hring
  have hpc : t.vmbus2Tcp = s.vmbus2Tcp := congrArg Vmbus2Tcp.pc B.toTcp
  have hpopped : t.popped = s.popped := congrArg Vmbus2Tcp.popped B.toTcp
  have haccepted : t.accepted = s.accepted := congrArg Vmbus2Tcp.accepted B.toTcp
  refine ⟨B.in_le, B.out_le, ⟨ps, hring'⟩, ?_, ?_⟩
  · rw [hpopped, B.written, hring'.incomingContents_eq, ← hring.incomingContents_eq]
    exact H.contents
  · change t.vmbus2Tcp ≠ .ended → t.accepted ++ t.vmbus2Tcp.inHand = t.popped.flatten
    rw [hpc, hpopped, haccepted]
    exact H.loop

/-- A pop moves the first content of the ring to those popped, or throws. -/
theorem popContent_contents {u : Vmbus2Tcp} (hring : IncomingRing dev u.mapping ps) :
    (∃ ps', IncomingRing dev (Vmbus2Tcp.popContent dev u).mapping ps') ∧
      (Vmbus2Tcp.popContent dev u).popped.flatten ++
          (incomingContents dev (Vmbus2Tcp.popContent dev u).mapping).flatten =
        u.popped.flatten ++ (incomingContents dev u.mapping).flatten := by
  cases ps with
  | nil =>
      rw [Vmbus2Tcp.popContent, Act.handle_ok (run_popPipePacket_none hring.pop_nil)]
      exact ⟨⟨[], hring⟩, by simp⟩
  | cons p ps =>
      rcases Nat.lt_or_eq_of_le hring.out_le with hlt | hend
      · rw [Vmbus2Tcp.popContent, Act.handle_ok (run_popPipePacket_consumes (hring.pop hlt))]
        refine ⟨⟨ps, hring.popStore⟩, ?_⟩
        dsimp only
        rw [hring.popStore.incomingContents_eq, hring.incomingContents_eq]
        simp
      · rw [Vmbus2Tcp.popContent, Act.handle_error (run_popPipePacket_error (hring.pop_end hend))]
        exact ⟨⟨p :: ps, hring⟩, rfl⟩

theorem outgoing_popContent {u : Vmbus2Tcp} :
    outgoing dev (Vmbus2Tcp.popContent dev u).mapping = outgoing dev u.mapping := by
  rcases popCopy_cases dev u.mapping with ⟨content, finalOffset, hc⟩ | hnone | ⟨e, he⟩
  · rw [Vmbus2Tcp.popContent, Act.handle_ok (run_popPipePacket_consumes hc)]
    exact outgoing_popStore
  · rw [Vmbus2Tcp.popContent, Act.handle_ok (run_popPipePacket_none hnone)]
  · rw [Vmbus2Tcp.popContent, Act.handle_error (run_popPipePacket_error he)]

/-- No step of the loop loses a content between the ring and those popped. -/
theorem contents_vmbus2Tcp {u v : Vmbus2Tcp} {r : Vmbus2Tcp.Label}
    (hring : IncomingRing dev u.mapping ps) (hr : ∀ m, r ≠ .environment m)
    (h : Vmbus2Tcp.step dev u r = some v) :
    (∃ ps', IncomingRing dev v.mapping ps') ∧
      v.popped.flatten ++ (incomingContents dev v.mapping).flatten =
        u.popped.flatten ++ (incomingContents dev u.mapping).flatten ∧
      outgoing dev v.mapping = outgoing dev u.mapping := by
  cases r with
  | environment m => exact absurd rfl (hr m)
  | pop =>
      cases hpc : u.pc <;> simp [Vmbus2Tcp.step, hpc] at h
      subst h
      obtain ⟨hring', hcontents⟩ := popContent_contents hring
      exact ⟨hring', hcontents, outgoing_popContent⟩
  | send count =>
      obtain ⟨content, _, _, rfl⟩ := Vmbus2Tcp.step_send.mp h
      exact ⟨⟨ps, hring⟩, rfl, rfl⟩
  | _ =>
      cases hpc : u.pc <;> simp [Vmbus2Tcp.step, hpc] at h
      subst h
      exact ⟨⟨ps, hring⟩, rfl, rfl⟩

theorem ToTcp.Inv.step (H : ToTcp.Inv dev s) (hwhole : AcceptsWhole s l)
    (h : Bridge.step dev s l = some t) : ToTcp.Inv dev t := by
  cases l with
  | vmbus2Tcp r =>
      obtain ⟨hr, u, hu, rfl⟩ := step_vmbus2Tcp h
      obtain ⟨ps, hring⟩ := H.ring
      obtain ⟨hring', hcontents, hout⟩ := contents_vmbus2Tcp (u := s.toTcp) hring hr hu
      have hloop : Vmbus2Tcp.Intact u := H.loop.step hwhole hu
      refine ⟨?_, ?_, hring', hcontents.trans H.contents, hloop⟩
      · change (outgoing dev u.mapping).In.toNat ≤ _
        rw [hout]
        exact H.in_le
      · change (outgoing dev u.mapping).Out.toNat ≤ _
        rw [hout]
        exact H.out_le
  | put p =>
      obtain ⟨m, hput, rfl⟩ := Option.map_eq_some_iff.mp h
      obtain ⟨ps, hring⟩ := H.ring
      have hring' := hring.put hput
      have hout := (putEffect_of_hostPut hput).2.outgoing_eq
      refine ⟨hout ▸ H.in_le, hout ▸ H.out_le, ⟨_, hring'⟩, ?_, H.loop⟩
      have hcontents := H.contents
      rw [hring.incomingContents_eq] at hcontents
      change s.popped.flatten ++ (incomingContents dev m).flatten =
        (s.written ++ [p.content]).flatten
      rw [hring'.incomingContents_eq, List.flatten_append, ← hcontents]
      simp
  | _ => exact H.beside (H.beside_of_step h nofun nofun)

theorem ToTcp.Inv.toTcp (H : ToTcp.Inv dev s) : ToTcp dev s := by
  intro hrunning
  have hbytes : s.accepted ++ s.vmbus2Tcp.inHand = s.popped.flatten := H.loop hrunning
  rw [hbytes]
  exact H.contents

/-- What a send leaves over is missing from the stream. -/
theorem ToTcp.Inv.not_toTcp (H : ToTcp.Inv dev s) (hshort : ¬ AcceptsWhole s l)
    (h : Bridge.step dev s l = some t) : ¬ ToTcp dev t := by
  cases l with
  | vmbus2Tcp r =>
      obtain ⟨hr, u, hu, rfl⟩ := step_vmbus2Tcp h
      obtain ⟨ps, hring⟩ := H.ring
      obtain ⟨_, hcontents, _⟩ := contents_vmbus2Tcp (u := s.toTcp) hring hr hu
      intro H'
      refine H.loop.not_step hshort hu fun hrunning => ?_
      have hbytes : u.accepted ++ u.pc.inHand ++ (incomingContents dev u.mapping).flatten =
          s.written.flatten := H' hrunning
      rw [← H.contents] at hbytes
      exact List.append_cancel_right (hbytes.trans hcontents.symm)
  | _ => exact absurd trivial hshort

/-- **From the host to the server.** From empty indices, whatever the other direction does, in a
run the server accepts what the host writes, less what is on its way, until the loop ends, if
and only if every send is accepted whole. -/
theorem toTcp_iff_acceptsWhole (dev : UioHvDevice) (m : Mapping)
    (hout : (outgoing dev m).In = 0 ∧ (outgoing dev m).Out = 0)
    (hinc : (incoming dev m).In = 0 ∧ (incoming dev m).Out = 0) (ls : List Label) :
    Always (step dev) (ToTcp dev) (start m) ls ↔ Meets (step dev) AcceptsWhole (start m) ls := by
  have hring : IncomingRing dev m [] := .empty hinc.1 hinc.2
  refine always_iff_of_invariant (fun _ => ToTcp.Inv.toTcp) (fun _ _ _ => ToTcp.Inv.step)
    (fun _ _ _ => ToTcp.Inv.not_toTcp) ⟨?_, ?_, ⟨[], hring⟩, ?_, fun _ => rfl⟩
  · change (outgoing dev m).In.toNat ≤ _
    simp [hout.1]
  · change (outgoing dev m).Out.toNat ≤ _
    simp [hout.2]
  · change [] ++ (incomingContents dev m).flatten = []
    rw [hring.incomingContents_eq]
    rfl

/-! ## A turn of both directions -/

/-- What the server sends in the turn, and what the host puts. -/
def response : Bytes := ⟨[3, 0, 0, 19], by decide⟩
def request : PipePacket := .zeros 17 (by decide)

/-- The bytes of the server are received, and the packet of the host is popped. -/
def ahead : List Label :=
  .put request :: [.size response.data.length, .recv response].map .tcp2Vmbus ++
    [.vmbus2Tcp .pop, .interruptControl false]

/-- Both are passed on, and the host takes its packet. -/
def behind : List Label :=
  [.tcp2Vmbus .push, .vmbus2Tcp (.send 17), .tcp2Vmbus .signal, .take]

/-- Where both loops have bytes in hand. -/
def bothInHand (m : Mapping) : Bridge where
  mapping := m
  tcp2Vmbus := .holding response
  vmbus2Tcp := .sending request.content
  received := response.data
  pushed := []
  taken := []
  written := [request.content]
  popped := [request.content]
  accepted := []

/-- All of a ring of the driver without a packet can be written. -/
theorem writableSize_zeros {cb : RingControlBlock} (h : cb = outgoing .defaultRings fun _ => 0) :
    writableSize .defaultRings cb = 2093056 := by
  rw [h]
  rfl

theorem exec_ahead : ∃ m, OutgoingRing .defaultRings m [] ∧
    outgoing .defaultRings m = (outgoing .defaultRings fun _ => 0) ∧
    exec (step .defaultRings) (start fun _ => 0) ahead = some (bothInHand m) := by
  have hzeros : OutgoingRing .defaultRings (fun _ => 0) [] := .empty rfl rfl
  have hempty : IncomingRing .defaultRings (fun _ => 0) [] := .empty rfl rfl
  obtain ⟨m, hput⟩ := hempty.exists_put (p := request) (by decide)
  have effect := (putEffect_of_hostPut hput).2
  have hout := outgoingRing_congr hzeros fun a ha => effect.frame a (.inl ha)
  have h₁ : step .defaultRings (start fun _ => 0) (.put request) =
      some ⟨m, .top, .top, [], [], [], [request.content], [], []⟩ :=
    step_put (s := start fun _ => 0) hput
  have hreceived := Tcp2Vmbus.exec_size_recv (s := ⟨m, .top, [], []⟩) response rfl hout
    (by decide) (by decide) (by rw [writableSize_zeros effect.outgoing_eq]; decide)
  have h₂ := exec_of_tcp2Vmbus (s := ⟨m, .top, .top, [], [], [], [request.content], [], []⟩)
    (by simp) hreceived
  have hpop := run_popPipePacket_consumes ((hempty.put hput).pop (by rw [effect.out_eq]; decide))
  revert hpop
  generalize UInt32.ofNat (advance _ _ _) = finalOffset
  intro hpop
  have h₃ : Vmbus2Tcp.step .defaultRings ⟨m, .top, [], []⟩ .pop = some
      ⟨popStore .defaultRings finalOffset m, .sending request.content, [request.content], []⟩ := by
    change some (Vmbus2Tcp.popContent .defaultRings ⟨m, .top, [], []⟩) = _
    rw [Vmbus2Tcp.popContent, Act.handle_ok hpop, if_pos (by decide)]
    rfl
  refine ⟨interruptControl .defaultRings false (popStore .defaultRings finalOffset m), ?_, ?_, ?_⟩
  · refine outgoingRing_congr hout fun a ha => ?_
    rw [interruptControl_apply ha, popStore_apply (.inl (by omega))]
  · rw [outgoing_interruptControl, outgoing_popStore, effect.outgoing_eq]
  · rw [ahead, List.cons_append, exec_cons h₁, exec_append _ h₂,
      exec_cons (step_of_vmbus2Tcp (by simp) h₃)]
    rfl

/-- From there the host gets what the server has sent, and the server what the host has put. -/
theorem exec_behind {m : Mapping} (hring : OutgoingRing .defaultRings m [])
    (hout : outgoing .defaultRings m = outgoing .defaultRings fun _ => 0) :
    ∃ t, exec (step .defaultRings) (bothInHand m) behind = some t ∧
      t.received = response.data ∧ t.taken = [response.data] ∧
      t.written = [request.content] ∧ t.accepted = request.content := by
  obtain ⟨m', hrun, effect⟩ := run_pushPipePacket (c := response) hring.in_le hring.out_lt.le
    (by decide) (by rw [writableSize_zeros hout]; decide)
  have hpushed := (hring.push effect (by rw [size_pushPacket]; decide)).signalHost
  rw [List.nil_append] at hpushed
  have h₁ : Tcp2Vmbus.step .defaultRings ⟨m, .holding response, response.data, []⟩ .push = some
      ⟨m', .signalling, response.data, [response.data]⟩ := by
    rw [Tcp2Vmbus.step_push.mpr ⟨response, rfl, rfl⟩, Tcp2Vmbus.pushContent, Act.handle_ok hrun]
    rfl
  have h₂ : Vmbus2Tcp.step .defaultRings ⟨m', .sending request.content, [request.content], []⟩
      (.send 17) = some ⟨m', .top, [request.content], request.content⟩ := by
    rw [Vmbus2Tcp.step_send.mpr ⟨request.content, rfl, by decide, rfl⟩]
    rfl
  have h₃ : Tcp2Vmbus.step .defaultRings ⟨m', .signalling, response.data, [response.data]⟩
      .signal = some ⟨signalHost .defaultRings m', .top, response.data, [response.data]⟩ := rfl
  refine ⟨⟨takePast .defaultRings (signalHost .defaultRings m') (packetSize response.data.length),
    .top, .top, response.data, [response.data], [response.data], [request.content],
    [request.content], request.content⟩, ?_, rfl, rfl, rfl, rfl⟩
  rw [behind, exec_cons (step_of_tcp2Vmbus (by simp) h₁),
    exec_cons (step_of_vmbus2Tcp (by simp) h₂), exec_cons (step_of_tcp2Vmbus (by simp) h₃),
    exec_cons (step_take hpushed), exec_nil]
  rfl

/-- A push with nearly all of the ring free. -/
theorem fromTcp_turns : ∃ t,
    exec (step .defaultRings) (start fun _ => 0) (ahead ++ behind) = some t ∧
    t.received = response.data ∧ t.taken = [response.data] ∧
    Always (step .defaultRings) (FromTcp .defaultRings) (start fun _ => 0) (ahead ++ behind) := by
  obtain ⟨m, hring, hout, hahead⟩ := exec_ahead
  obtain ⟨t, hbehind, hreceived, htaken, _, _⟩ := exec_behind hring hout
  refine ⟨t, by rw [exec_append _ hahead, hbehind], hreceived, htaken,
    (fromTcp_iff_leavesRoom .defaultRings (fun _ => 0) rfl rfl _).mpr ?_⟩
  rw [meets_append _ hahead]
  refine ⟨meets_of_labels (by simp [ahead, LeavesRoom]), fun u _ => ⟨?_, meets_of_labels
    (by simp [LeavesRoom])⟩⟩
  rintro content ⟨⟩
  change packetSize response.data.length < writableSize _ (outgoing .defaultRings m)
  rw [writableSize_zeros hout]
  decide

/-- A send of seventeen bytes that is accepted whole. -/
theorem toTcp_turns : ∃ t,
    exec (step .defaultRings) (start fun _ => 0) (ahead ++ behind) = some t ∧
    t.written = [request.content] ∧ t.accepted = request.content ∧
    Always (step .defaultRings) (ToTcp .defaultRings) (start fun _ => 0) (ahead ++ behind) := by
  obtain ⟨m, hring, hout, hahead⟩ := exec_ahead
  obtain ⟨t, hbehind, _, _, hwritten, haccepted⟩ := exec_behind hring hout
  refine ⟨t, by rw [exec_append _ hahead, hbehind], hwritten, haccepted,
    (toTcp_iff_acceptsWhole .defaultRings (fun _ => 0) ⟨rfl, rfl⟩ ⟨rfl, rfl⟩ _).mpr ?_⟩
  rw [meets_append _ hahead]
  refine ⟨meets_of_labels ?_, fun u hu => ⟨trivial, fun v _ => ⟨?_, meets_of_labels ?_⟩⟩⟩
  · simp [ahead, AcceptsWhole, Vmbus2Tcp.AcceptsWhole]
  · obtain ⟨_, w, _, rfl⟩ := step_tcp2Vmbus hu
    change request.content.length ≤ 17
    decide
  · simp [AcceptsWhole]

end Bridge

end HvGin
