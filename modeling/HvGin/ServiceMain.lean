import HvGin.Interleaved
import HvGin.Lib.Exec

/-!
# `ServiceMain` and its relay threads

The service thread runs session after session on one data channel. Each session starts
two relay threads and ends when one of them has died: `ShouldRunning` is cleared, the
socket closed, and the next session begins. The other thread is not joined. It may have
passed its test of `ShouldRunning` long ago and stand in the middle of an operation, and
the next session then works on the same ring.

`Cleared` is the condition that this does not happen: when a session begins, no relay
thread of an earlier one is in an operation or has passed the test in front of it.

## Main definitions

* `Vmbus2TcpThread`, `Tcp2VmbusThread`, `Relay` — the two threads of a session.
* `ServiceMain` — the service thread and the relays of all sessions so far.
* `Exclusive` — one consumer and one producer.
* `Ordered`, `Inv` — which threads may be in an operation, and the whole invariant.
-/
namespace HvGin

open Lib

/-- Where `Vmbus2TcpThread` stands. -/
inductive Vmbus2TcpThread
  /-- At the test of `ShouldRunning`. -/
  | test
  | popping (p : Popper)
  /-- A content that is not empty is to be sent. -/
  | sending
  | dead

/-- Where `Tcp2VmbusThread` stands. -/
inductive Tcp2VmbusThread
  /-- At the test of `ShouldRunning`. -/
  | test
  /-- `Available` and `GetMaximumPushSize` are next. -/
  | entered
  /-- `Receive` into a buffer of this size is next. -/
  | sized (size : ℕ)
  | pushing (p : Pusher)
  /-- `SignalHost` is next. -/
  | signalling
  | dead

/-- The relay of a session: its `ShouldRunning`, whether `RdpServer` has been closed, and
its threads. -/
structure Relay where
  shouldRunning : Bool
  closed : Bool
  vmbus2Tcp : Vmbus2TcpThread
  tcp2Vmbus : Tcp2VmbusThread

/-- Where the service thread stands. -/
inductive ServicePhase
  /-- At the test of `IsRunning`. -/
  | looping
  /-- In the pop of the initial `Receive`. -/
  | receiving (p : Popper)
  /-- In `WaitHost`. -/
  | waitingHost
  /-- In `SignalHost`. -/
  | signallingHost
  /-- The initial `Receive` is over; the patch and the start of the threads are next. -/
  | starting
  /-- In the loop that watches the threads. -/
  | watching
  /-- `RdpServer.Close` is next. -/
  | closing
  | exited

/-- The service thread, the relays of the sessions so far, and what all share. -/
structure ServiceMain where
  shared : Shared
  phase : ServicePhase
  relays : List Relay

namespace ServiceMain

/-- What the socket does in a step of `Tcp2VmbusThread`. -/
inductive SocketEvent
  /-- `Available` is this number. -/
  | available (n : ℕ)
  /-- `Receive` gives these bytes. -/
  | received (content : Bytes)
  | throws

inductive Label
  /-- The host changes the mapping. -/
  | host (m : Mapping)
  /-- A session begins: the device is opened and the server connected. -/
  | begin
  /-- `IsRunning` is false. -/
  | exit
  /-- The next step of the service thread. -/
  | service
  /-- The next step of the `Vmbus2TcpThread` of a session; if it is a send, it may throw. -/
  | vmbus2Tcp (session : ℕ) (throws : Bool)
  /-- The next step of the `Tcp2VmbusThread` of a session. -/
  | tcp2Vmbus (session : ℕ) (event : SocketEvent)

end ServiceMain

section

variable (dev : UioHvDevice)

def Vmbus2TcpThread.step (session : ℕ) (shouldRunning closed throws : Bool) (s : Shared) :
    Vmbus2TcpThread → Option (Vmbus2TcpThread × Shared)
  | .test => some (if shouldRunning then .popping .called else .dead, s)
  | .popping (.returned content) => some (if content.length = 0 then .test else .sending, s)
  | .popping .threw => some (.dead, s)
  | .popping p => (p.step dev session s).map fun r => (.popping r.1, r.2)
  | .sending => some (if closed || throws then .dead else .test, s)
  | .dead => none

/-- `MaximumSendSize`, for the number of bytes available. -/
def maximumSendSize (s : Shared) (available : ℕ) : Tcp2VmbusThread :=
  (getMaximumPushSize dev).handle s.mapping
    (fun maximum _ => if 0 < min (available : ℤ) maximum
      then .sized (min (available : ℤ) maximum).toNat else .test)
    (fun _ _ => .dead)

/-- A closed socket throws on each access. -/
def Tcp2VmbusThread.step (shouldRunning closed : Bool) (event : ServiceMain.SocketEvent)
    (s : Shared) : Tcp2VmbusThread → Option (Tcp2VmbusThread × Shared)
  | .test => some (if shouldRunning then .entered else .dead, s)
  | .entered =>
      match event with
      | .available n => if closed then none else some (maximumSendSize dev s n, s)
      | .received _ => none
      | .throws => some (.dead, s)
  | .sized size =>
      match event with
      | .available _ => none
      | .received content =>
          if closed ∨ size < content.data.length then none
          else some (.pushing (.called content), s)
      | .throws => some (.dead, s)
  | .pushing .returned => some (.signalling, s)
  | .pushing .threw => some (.dead, s)
  | .pushing p => (p.step dev s).map fun r => (.pushing r.1, r.2)
  | .signalling => some (.test, { s with mapping := signalHost dev s.mapping })
  | .dead => none

/-- The relay of a session that starts its threads. -/
def Relay.started : Relay := ⟨true, false, .test, .test⟩

/-- One of the two threads is not alive. -/
def Relay.ended (r : Relay) : Bool :=
  match r.vmbus2Tcp, r.tcp2Vmbus with
  | .dead, _ => true
  | _, .dead => true
  | _, _ => false

end

namespace ServiceMain

variable (dev : UioHvDevice)

/-- The state before the first session; the positions are those of the indices. -/
def start (m : Mapping) : ServiceMain where
  shared := ⟨m, (incoming dev m).Out.toNat, (outgoing dev m).In.toNat, []⟩
  phase := .looping
  relays := []

/-- The host leaves the indices of the guest alone and its own inside the data area. -/
structure HostWrites (m m' : Mapping) : Prop where
  out_eq : (incoming dev m').Out = (incoming dev m).Out
  in_eq : (outgoing dev m').In = (outgoing dev m).In
  in_lt : (incoming dev m').In.toNat < dev.dataMaximumSize
  out_lt : (outgoing dev m').Out.toNat < dev.dataMaximumSize

instance (m m' : Mapping) : Decidable (HostWrites dev m m') :=
  decidable_of_iff ((incoming dev m').Out = (incoming dev m).Out ∧
    (outgoing dev m').In = (outgoing dev m).In ∧
    (incoming dev m').In.toNat < dev.dataMaximumSize ∧
    (outgoing dev m').Out.toNat < dev.dataMaximumSize)
    ⟨fun h => ⟨h.1, h.2.1, h.2.2.1, h.2.2.2⟩, fun h => ⟨h.out_eq, h.in_eq, h.in_lt, h.out_lt⟩⟩

/-- Change the relay of the last session. -/
def changeLast (s : ServiceMain) (f : Relay → Relay) : List Relay :=
  s.relays.modify (s.relays.length - 1) f

/-- The next step of the service thread, up to the next test of `IsRunning`. -/
def serviceStep (s : ServiceMain) : Option ServiceMain :=
  match s.phase with
  | .looping => none
  | .receiving (.returned content) => some { s with
      phase := if content.length = 0 then .waitingHost else .signallingHost }
  | .receiving .threw => some { s with phase := .starting }
  | .receiving p => (p.step dev s.relays.length s.shared).map fun r =>
      { s with phase := .receiving r.1, shared := r.2 }
  | .waitingHost => some { s with phase := .starting }
  | .signallingHost => some { s with
      phase := .starting
      shared := { s.shared with mapping := signalHost dev s.shared.mapping } }
  | .starting => some { s with phase := .watching, relays := s.relays ++ [.started] }
  | .watching =>
      if s.relays.getLast?.any Relay.ended then some { s with
        phase := .closing
        relays := s.changeLast fun r => { r with shouldRunning := false } }
      else none
  | .closing => some { s with
      phase := .looping
      relays := s.changeLast fun r => { r with closed := true } }
  | .exited => none

def step (s : ServiceMain) (l : Label) : Option ServiceMain :=
  match l with
  | .host m =>
      if HostWrites dev s.shared.mapping m then
        some { s with shared := { s.shared with mapping := m } }
      else none
  | .begin =>
      match s.phase with
      | .looping => some { s with
          phase := .receiving .called
          shared := { s.shared with mapping := interruptControl dev true s.shared.mapping } }
      | _ => none
  | .exit =>
      match s.phase with
      | .looping => some { s with phase := .exited }
      | _ => none
  | .service => serviceStep dev s
  | .vmbus2Tcp k throws => s.relays[k]?.bind fun r =>
      (r.vmbus2Tcp.step dev k r.shouldRunning r.closed throws s.shared).map fun v =>
        { s with shared := v.2, relays := s.relays.set k { r with vmbus2Tcp := v.1 } }
  | .tcp2Vmbus k event => s.relays[k]?.bind fun r =>
      (r.tcp2Vmbus.step dev r.shouldRunning r.closed event s.shared).map fun v =>
        { s with shared := v.2, relays := s.relays.set k { r with tcp2Vmbus := v.1 } }

end ServiceMain

/-! ## One consumer and one producer -/

/-- The call is over. -/
def Popper.Done : Popper → Prop
  | .returned _ => True
  | .threw => True
  | _ => False

def Pusher.Done : Pusher → Prop
  | .returned => True
  | .threw => True
  | _ => False

def Vmbus2TcpThread.popper : Vmbus2TcpThread → Option Popper
  | .popping p => some p
  | _ => none

def Tcp2VmbusThread.pusher : Tcp2VmbusThread → Option Pusher
  | .pushing p => some p
  | _ => none

/-- Neither thread is in an operation, or past the test in front of it. -/
structure Relay.Idle (r : Relay) : Prop where
  pop : ∀ p, r.vmbus2Tcp.popper = some p → p.Done
  push : ∀ p, r.tcp2Vmbus.pusher = some p → p.Done

/-- The relay will not touch a ring again. -/
structure Relay.Spent (r : Relay) : Prop where
  shouldRunning : r.shouldRunning = false
  closed : r.closed = true
  idle : r.Idle

/-- From the call of the initial `Receive` to the start of the threads. -/
def ServicePhase.Starting : ServicePhase → Prop
  | .receiving _ => True
  | .waitingHost => True
  | .signallingHost => True
  | .starting => True
  | _ => False

namespace ServiceMain

/-- A thread that pops. -/
inductive Consumer
  | service
  | vmbus2Tcp (session : ℕ)

def popper (s : ServiceMain) : Consumer → Option Popper
  | .service =>
      match s.phase with
      | .receiving p => some p
      | _ => none
  | .vmbus2Tcp k => s.relays[k]?.bind fun r => r.vmbus2Tcp.popper

def pusher (s : ServiceMain) (k : ℕ) : Option Pusher :=
  s.relays[k]?.bind fun r => r.tcp2Vmbus.pusher

/-- At most one thread is between the read of the control block and the store of a pop,
and at most one of a push. -/
structure Exclusive (s : ServiceMain) : Prop where
  pop : ∀ a b p q, s.popper a = some p → p.Mid → s.popper b = some q → q.Mid → a = b
  push : ∀ j k p q, s.pusher j = some p → p.Mid → s.pusher k = some q → q.Mid → j = k

/-- No position of the incoming stream is popped twice, whatever the sessions. -/
def DeliveredOnce (s : ServiceMain) : Prop := (s.shared.delivered.map Prod.snd).Nodup

variable (dev : UioHvDevice)

/-- Neither index of the guest moves backwards in the step. -/
def Forward (s : ServiceMain) (l : Label) : Prop :=
  ∀ t, step dev s l = some t →
    s.shared.outPosition ≤ t.shared.outPosition ∧ s.shared.inPosition ≤ t.shared.inPosition

/-- When a session begins, the threads of the earlier ones are done with the rings. -/
def Cleared (s : ServiceMain) : Label → Prop
  | .begin => ∀ r ∈ s.relays, r.Idle
  | _ => True

/-- The relays of earlier sessions are spent, and the last one is once a session starts. -/
structure Ordered (s : ServiceMain) : Prop where
  spent : ∀ (k : ℕ) (r : Relay), s.relays[k]? = some r →
    s.phase.Starting ∨ k + 1 < s.relays.length → r.Spent
  closing : s.phase = .closing →
    ∀ (k : ℕ) (r : Relay), s.relays[k]? = some r → r.shouldRunning = false
  stopped : s.phase = .looping ∨ s.phase = .exited →
    ∀ (k : ℕ) (r : Relay), s.relays[k]? = some r → r.shouldRunning = false ∧ r.closed = true

/-- The threads are in order, the shared state is sound, and what the threads rely on is
so. -/
structure Inv (s : ServiceMain) : Prop where
  ordered : s.Ordered
  sound : s.shared.Sound dev
  popper_fresh : ∀ a p, s.popper a = some p → p.Fresh dev s.shared
  pusher_fresh : ∀ k p, s.pusher k = some p → p.Fresh dev s.shared

variable {dev} {s t : ServiceMain} {sh : Shared} {r r' : Relay} {k : ℕ}

/-! ## The order of the threads -/

theorem not_done_of_mid {p : Popper} (h : p.Mid) : ¬ p.Done := by
  cases p <;> simp_all [Popper.Mid, Popper.Done]

theorem not_done_of_mid_push {p : Pusher} (h : p.Mid) : ¬ p.Done := by
  cases p <;> simp_all [Pusher.Mid, Pusher.Done]

theorem popper_service {p : Popper} : s.popper .service = some p ↔ s.phase = .receiving p := by
  cases hphase : s.phase <;> simp [popper, hphase]

theorem popper_vmbus2Tcp {p : Popper} : s.popper (.vmbus2Tcp k) = some p ↔
    ∃ r, s.relays[k]? = some r ∧ r.vmbus2Tcp.popper = some p := Option.bind_eq_some_iff

theorem pusher_eq_some {p : Pusher} : s.pusher k = some p ↔
    ∃ r, s.relays[k]? = some r ∧ r.tcp2Vmbus.pusher = some p := Option.bind_eq_some_iff

/-- A thread in the middle of a pop belongs to the last session, which is not starting. -/
theorem Ordered.last_of_mid {p : Popper} (H : s.Ordered) (hk : s.relays[k]? = some r)
    (hp : r.vmbus2Tcp.popper = some p) (hmid : p.Mid) :
    ¬ s.phase.Starting ∧ k + 1 = s.relays.length := by
  have hlt := (List.getElem?_eq_some_iff.mp hk).1
  have hspent : ¬ (s.phase.Starting ∨ k + 1 < s.relays.length) := fun h =>
    not_done_of_mid hmid ((H.spent k r hk h).idle.pop p hp)
  exact ⟨fun h => hspent (Or.inl h), by omega⟩

theorem Ordered.last_of_mid_push {p : Pusher} (H : s.Ordered) (hk : s.relays[k]? = some r)
    (hp : r.tcp2Vmbus.pusher = some p) (hmid : p.Mid) : k + 1 = s.relays.length := by
  have hlt := (List.getElem?_eq_some_iff.mp hk).1
  have hspent : ¬ k + 1 < s.relays.length := fun h =>
    not_done_of_mid_push hmid ((H.spent k r hk (Or.inr h)).idle.push p hp)
  omega

theorem Ordered.exclusive (H : s.Ordered) : s.Exclusive where
  pop := by
    intro a b p q ha hp hb hq
    rcases a with _ | j <;> rcases b with _ | k
    · rfl
    · obtain ⟨r, hk, hr⟩ := popper_vmbus2Tcp.mp hb
      refine absurd ?_ (H.last_of_mid hk hr hq).1
      rw [popper_service.mp ha]
      trivial
    · obtain ⟨r, hk, hr⟩ := popper_vmbus2Tcp.mp ha
      refine absurd ?_ (H.last_of_mid hk hr hp).1
      rw [popper_service.mp hb]
      trivial
    · obtain ⟨r, hj, hr⟩ := popper_vmbus2Tcp.mp ha
      obtain ⟨r', hk, hr'⟩ := popper_vmbus2Tcp.mp hb
      have hlast := (H.last_of_mid hj hr hp).2
      have hlast' := (H.last_of_mid hk hr' hq).2
      rw [show j = k by omega]
  push := by
    intro j k p q ha hp hb hq
    obtain ⟨r, hj, hr⟩ := pusher_eq_some.mp ha
    obtain ⟨r', hk, hr'⟩ := pusher_eq_some.mp hb
    have hlast := H.last_of_mid_push hj hr hp
    have hlast' := H.last_of_mid_push hk hr' hq
    omega

/-- A step of a relay thread keeps the order if it keeps a spent relay spent. -/
theorem Ordered.set (H : s.Ordered) (hk : s.relays[k]? = some r)
    (hrunning : r'.shouldRunning = r.shouldRunning) (hclosed : r'.closed = r.closed)
    (hspent : r.Spent → r'.Spent) :
    Ordered { s with shared := sh, relays := s.relays.set k r' } := by
  have hlt := (List.getElem?_eq_some_iff.mp hk).1
  have hset : ∀ j x, (s.relays.set k r')[j]? = some x →
      j ≠ k ∧ s.relays[j]? = some x ∨ j = k ∧ x = r' := by
    intro j x hx
    rcases eq_or_ne j k with rfl | hne
    · rw [List.getElem?_set_self hlt, Option.some.injEq] at hx
      exact Or.inr ⟨rfl, hx.symm⟩
    · rw [List.getElem?_set_ne hne.symm] at hx
      exact Or.inl ⟨hne, hx⟩
  refine ⟨?_, ?_, ?_⟩
  · intro j x hx hcase
    rw [List.length_set] at hcase
    rcases hset j x hx with ⟨_, hx⟩ | ⟨rfl, rfl⟩
    · exact H.spent j x hx hcase
    · exact hspent (H.spent j r hk hcase)
  · intro hphase j x hx
    rcases hset j x hx with ⟨_, hx⟩ | ⟨rfl, rfl⟩
    · exact H.closing hphase j x hx
    · rw [hrunning]
      exact H.closing hphase j r hk
  · intro hphase j x hx
    rcases hset j x hx with ⟨_, hx⟩ | ⟨rfl, rfl⟩
    · exact H.stopped hphase j x hx
    · rw [hrunning, hclosed]
      exact H.stopped hphase j r hk

/-! ## The steps of the threads -/

theorem popper_set {a : Consumer} {p : Popper} (hk : s.relays[k]? = some r)
    (h : popper { s with shared := sh, relays := s.relays.set k r' } a = some p) :
    a = .vmbus2Tcp k ∧ r'.vmbus2Tcp.popper = some p ∨
      a ≠ .vmbus2Tcp k ∧ s.popper a = some p := by
  have hlt := (List.getElem?_eq_some_iff.mp hk).1
  cases a with
  | service => exact Or.inr ⟨by simp, h⟩
  | vmbus2Tcp j =>
      obtain ⟨x, hx, hp⟩ := popper_vmbus2Tcp.mp h
      rcases eq_or_ne j k with rfl | hne
      · rw [List.getElem?_set_self hlt, Option.some.injEq] at hx
        exact Or.inl ⟨rfl, by rw [hx]; exact hp⟩
      · rw [List.getElem?_set_ne hne.symm] at hx
        exact Or.inr ⟨by simpa using hne, popper_vmbus2Tcp.mpr ⟨x, hx, hp⟩⟩

theorem pusher_set {j : ℕ} {p : Pusher} (hk : s.relays[k]? = some r)
    (h : pusher { s with shared := sh, relays := s.relays.set k r' } j = some p) :
    j = k ∧ r'.tcp2Vmbus.pusher = some p ∨ j ≠ k ∧ s.pusher j = some p := by
  have hlt := (List.getElem?_eq_some_iff.mp hk).1
  obtain ⟨x, hx, hp⟩ := pusher_eq_some.mp h
  rcases eq_or_ne j k with rfl | hne
  · rw [List.getElem?_set_self hlt, Option.some.injEq] at hx
    exact Or.inl ⟨rfl, by rw [hx]; exact hp⟩
  · rw [List.getElem?_set_ne hne.symm] at hx
    exact Or.inr ⟨hne, pusher_eq_some.mpr ⟨x, hx, hp⟩⟩

end ServiceMain

section

variable {dev : UioHvDevice} {s t : Shared} {shouldRunning closed : Bool}

/-- A step of `Vmbus2TcpThread` is a step of its pop, or leaves the shared state alone and
is not in a pop unless it calls one. -/
theorem Vmbus2TcpThread.step_cases {v v' : Vmbus2TcpThread} {session : ℕ} {throws : Bool}
    (h : v.step dev session shouldRunning closed throws s = some (v', t)) :
    (∃ p p', v = .popping p ∧ ¬ p.Done ∧ p.step dev session s = some (p', t) ∧
      v' = .popping p') ∨
    t = s ∧ (v'.popper = none ∨ v' = .popping .called ∧ shouldRunning = true) := by
  have hpop : ∀ p : Popper, ¬ p.Done → ((p.step dev session s).map fun r =>
      (Vmbus2TcpThread.popping r.1, r.2)) = some (v', t) → v = .popping p →
      ∃ p p', v = .popping p ∧ ¬ p.Done ∧ p.step dev session s = some (p', t) ∧
        v' = .popping p' := by
    intro p hdone hmap hv
    obtain ⟨⟨p', t'⟩, hp, heq⟩ := Option.map_eq_some_iff.mp hmap
    cases heq
    exact ⟨p, p', hv, hdone, hp, rfl⟩
  cases v with
  | test =>
      cases h
      cases shouldRunning
      · exact Or.inr ⟨rfl, Or.inl rfl⟩
      · exact Or.inr ⟨rfl, Or.inr ⟨rfl, rfl⟩⟩
  | popping p =>
      cases p with
      | called => exact Or.inl (hpop .called id h rfl)
      | read cb position => exact Or.inl (hpop (.read cb position) id h rfl)
      | copied content finalOffset position size =>
          exact Or.inl (hpop (.copied content finalOffset position size) id h rfl)
      | returned content =>
          cases h
          exact Or.inr ⟨rfl, Or.inl (by split <;> rfl)⟩
      | threw =>
          cases h
          exact Or.inr ⟨rfl, Or.inl rfl⟩
  | sending =>
      cases h
      exact Or.inr ⟨rfl, Or.inl (by split <;> rfl)⟩
  | dead => cases h

theorem pusher_maximumSendSize {n : ℕ} : (maximumSendSize dev s n).pusher = none := by
  simp only [maximumSendSize]
  rcases hrun : (getMaximumPushSize dev).run s.mapping with ⟨e | maximum, m⟩
  · rw [Act.handle_error hrun]
    rfl
  · rw [Act.handle_ok hrun]
    split <;> rfl

/-- A step of `Tcp2VmbusThread` is a step of its push, or leaves the shared state alone but
for the interrupt mask and is not in a push unless it calls one; it does that only while the
socket is open. -/
theorem Tcp2VmbusThread.step_cases {v v' : Tcp2VmbusThread} {event : ServiceMain.SocketEvent}
    (h : v.step dev shouldRunning closed event s = some (v', t)) :
    (∃ p p', v = .pushing p ∧ ¬ p.Done ∧ p.step dev s = some (p', t) ∧ v' = .pushing p') ∨
    (t = s ∨ t = { s with mapping := signalHost dev s.mapping }) ∧
      (v'.pusher = none ∨ (∃ content, v' = .pushing (.called content)) ∧ closed = false) := by
  have hpush : ∀ p : Pusher, ¬ p.Done → ((p.step dev s).map fun r =>
      (Tcp2VmbusThread.pushing r.1, r.2)) = some (v', t) → v = .pushing p →
      ∃ p p', v = .pushing p ∧ ¬ p.Done ∧ p.step dev s = some (p', t) ∧ v' = .pushing p' := by
    intro p hdone hmap hv
    obtain ⟨⟨p', t'⟩, hp, heq⟩ := Option.map_eq_some_iff.mp hmap
    cases heq
    exact ⟨p, p', hv, hdone, hp, rfl⟩
  cases v with
  | test =>
      cases h
      exact Or.inr ⟨Or.inl rfl, Or.inl (by split <;> rfl)⟩
  | entered =>
      cases event with
      | available n =>
          rw [Tcp2VmbusThread.step] at h
          obtain ⟨hopen, heq⟩ :
              ¬ closed = true ∧ some (maximumSendSize dev s n, s) = some (v', t) := by
            split at h
            · cases h
            · exact ⟨‹_›, h⟩
          cases heq
          exact Or.inr ⟨Or.inl rfl, Or.inl pusher_maximumSendSize⟩
      | received content => cases h
      | throws =>
          cases h
          exact Or.inr ⟨Or.inl rfl, Or.inl rfl⟩
  | sized size =>
      cases event with
      | available n => cases h
      | received content =>
          rw [Tcp2VmbusThread.step] at h
          split at h
          · cases h
          · next hopen =>
            cases h
            rw [not_or, Bool.not_eq_true] at hopen
            exact Or.inr ⟨Or.inl rfl, Or.inr ⟨⟨content, rfl⟩, hopen.1⟩⟩
      | throws =>
          cases h
          exact Or.inr ⟨Or.inl rfl, Or.inl rfl⟩
  | pushing p =>
      cases p with
      | called content => exact Or.inl (hpush (.called content) id h rfl)
      | read content headers cb position =>
          exact Or.inl (hpush (.read content headers cb position) id h rfl)
      | copied finalOffset position size =>
          exact Or.inl (hpush (.copied finalOffset position size) id h rfl)
      | returned =>
          cases h
          exact Or.inr ⟨Or.inl rfl, Or.inl rfl⟩
      | threw =>
          cases h
          exact Or.inr ⟨Or.inl rfl, Or.inl rfl⟩
  | signalling =>
      cases h
      exact Or.inr ⟨Or.inr rfl, Or.inl rfl⟩
  | dead => cases h

end

namespace ServiceMain

variable {dev : UioHvDevice} {s t : ServiceMain} {l : Label} {pops pushes : Prop} {k : ℕ}

/-- A step is safe: it keeps the invariant and moves no index of the guest backwards. -/
structure SafeStep (dev : UioHvDevice) (s t : ServiceMain) : Prop where
  inv : Inv dev t
  out_forward : s.shared.outPosition ≤ t.shared.outPosition
  in_forward : s.shared.inPosition ≤ t.shared.inPosition

/-- A step is safe if it keeps the order, if the shared state steps as the threads may rely
on, and if every call is as before and not in the way, or relies on what is so. -/
theorem Inv.safeStep (H : Inv dev s) (hordered : t.Ordered)
    (hshared : SharedStep dev pops pushes s.shared t.shared)
    (hpop : ∀ a p, t.popper a = some p →
      p.Fresh dev t.shared ∨ s.popper a = some p ∧ (p.Mid → ¬ pops))
    (hpush : ∀ k p, t.pusher k = some p →
      p.Fresh dev t.shared ∨ s.pusher k = some p ∧ (p.Mid → ¬ pushes)) : SafeStep dev s t where
  inv := {
    ordered := hordered
    sound := hshared.sound
    popper_fresh := by
      intro a p hp
      rcases hpop a p hp with hfresh | ⟨hp, hmid⟩
      · exact hfresh
      · exact (H.popper_fresh a p hp).of_step hshared hmid
    pusher_fresh := by
      intro k p hp
      rcases hpush k p hp with hfresh | ⟨hp, hmid⟩
      · exact hfresh
      · exact (H.pusher_fresh k p hp).of_step hshared hmid }
  out_forward := hshared.out_forward
  in_forward := hshared.in_forward

/-- The calls of a step that leaves the threads in their calls. -/
theorem Inv.safeStep_of_same (H : Inv dev s) (hordered : t.Ordered)
    (hshared : SharedStep dev False False s.shared t.shared)
    (hpop : ∀ a p, t.popper a = some p → s.popper a = some p)
    (hpush : ∀ k p, t.pusher k = some p → s.pusher k = some p) : SafeStep dev s t :=
  H.safeStep hordered hshared (fun a p hp => Or.inr ⟨hpop a p hp, fun _ => id⟩)
    fun k p hp => Or.inr ⟨hpush k p hp, fun _ => id⟩

theorem Inv.vmbus2Tcp {throws : Bool} (H : Inv dev s)
    (h : step dev s (.vmbus2Tcp k throws) = some t) : SafeStep dev s t := by
  obtain ⟨r, hk, h⟩ := Option.bind_eq_some_iff.mp h
  obtain ⟨⟨v, sh⟩, hv, rfl⟩ := Option.map_eq_some_iff.mp h
  have hpush : ∀ j q, pusher { s with
      shared := sh, relays := s.relays.set k { r with vmbus2Tcp := v } } j = some q →
      s.pusher j = some q := by
    intro j q hq
    rcases pusher_set hk hq with ⟨rfl, hnew⟩ | ⟨_, hold⟩
    · exact pusher_eq_some.mpr ⟨r, hk, hnew⟩
    · exact hold
  rcases Vmbus2TcpThread.step_cases hv with ⟨p, p', hp, hdone, hstep, rfl⟩ | ⟨rfl, hcalled⟩
  · -- The pop moves `Out` only when it is in the middle, and then no other is.
    have hpopper : s.popper (.vmbus2Tcp k) = some p :=
      popper_vmbus2Tcp.mpr ⟨r, hk, by rw [hp]; rfl⟩
    obtain ⟨hshared, hfresh⟩ := Popper.sharedStep H.sound (H.popper_fresh _ _ hpopper) hstep
    refine H.safeStep (H.ordered.set hk rfl rfl ?_) hshared ?_
      fun j q hq => Or.inr ⟨hpush j q hq, fun _ => id⟩
    · intro hspent
      exact absurd (hspent.idle.pop p (by rw [hp]; rfl)) hdone
    · intro a q hq
      rcases popper_set hk hq with ⟨rfl, hnew⟩ | ⟨hne, hold⟩
      · cases hnew
        exact Or.inl hfresh
      · exact Or.inr ⟨hold, fun hmid hmid' =>
          hne (H.ordered.exclusive.pop _ _ _ _ hold hmid hpopper hmid')⟩
  · refine H.safeStep (H.ordered.set hk rfl rfl ?_)
      (.refl H.sound : SharedStep dev False False s.shared s.shared) ?_
      fun j q hq => Or.inr ⟨hpush j q hq, fun _ => id⟩
    · intro hspent
      refine ⟨hspent.shouldRunning, hspent.closed, fun q hq => ?_, hspent.idle.push⟩
      rcases hcalled with hnone | ⟨_, hrunning⟩
      · rw [hnone] at hq
        cases hq
      · rw [hspent.shouldRunning] at hrunning
        cases hrunning
    · intro a q hq
      rcases popper_set hk hq with ⟨rfl, hnew⟩ | ⟨_, hold⟩
      · rcases hcalled with hnone | ⟨rfl, _⟩
        · rw [hnone] at hnew
          cases hnew
        · cases hnew
          exact Or.inl trivial
      · exact Or.inr ⟨hold, fun _ => id⟩

theorem Inv.tcp2Vmbus {event : SocketEvent} (H : Inv dev s)
    (h : step dev s (.tcp2Vmbus k event) = some t) : SafeStep dev s t := by
  obtain ⟨r, hk, h⟩ := Option.bind_eq_some_iff.mp h
  obtain ⟨⟨v, sh⟩, hv, rfl⟩ := Option.map_eq_some_iff.mp h
  have hpop : ∀ a q, popper { s with
      shared := sh, relays := s.relays.set k { r with tcp2Vmbus := v } } a = some q →
      s.popper a = some q := by
    intro a q hq
    rcases popper_set hk hq with ⟨rfl, hnew⟩ | ⟨_, hold⟩
    · exact popper_vmbus2Tcp.mpr ⟨r, hk, hnew⟩
    · exact hold
  rcases Tcp2VmbusThread.step_cases hv with ⟨p, p', hp, hdone, hstep, rfl⟩ | ⟨hmask, hcalled⟩
  · have hpusher : s.pusher k = some p := pusher_eq_some.mpr ⟨r, hk, by rw [hp]; rfl⟩
    obtain ⟨hshared, hfresh⟩ := Pusher.sharedStep H.sound (H.pusher_fresh _ _ hpusher) hstep
    refine H.safeStep (H.ordered.set hk rfl rfl ?_) hshared
      (fun a q hq => Or.inr ⟨hpop a q hq, fun _ => id⟩) ?_
    · intro hspent
      exact absurd (hspent.idle.push p (by rw [hp]; rfl)) hdone
    · intro j q hq
      rcases pusher_set hk hq with ⟨rfl, hnew⟩ | ⟨hne, hold⟩
      · cases hnew
        exact Or.inl hfresh
      · exact Or.inr ⟨hold, fun hmid hmid' =>
          hne (H.ordered.exclusive.push _ _ _ _ hold hmid hpusher hmid')⟩
  · have hshared : SharedStep dev False False s.shared sh := by
      rcases hmask with rfl | rfl
      · exact .refl H.sound
      · exact .interruptControl H.sound
    refine H.safeStep (H.ordered.set hk rfl rfl ?_) hshared
      (fun a q hq => Or.inr ⟨hpop a q hq, fun _ => id⟩) ?_
    · intro hspent
      refine ⟨hspent.shouldRunning, hspent.closed, hspent.idle.pop, ?_⟩
      intro q hq
      rcases hcalled with hnone | ⟨_, hopen⟩
      · rw [hnone] at hq
        cases hq
      · rw [hspent.closed] at hopen
        cases hopen
    · intro j q hq
      rcases pusher_set hk hq with ⟨rfl, hnew⟩ | ⟨_, hold⟩
      · rcases hcalled with hnone | ⟨⟨content, rfl⟩, _⟩
        · rw [hnone] at hnew
          cases hnew
        · cases hnew
          exact Or.inl trivial
      · exact Or.inr ⟨hold, fun _ => id⟩

/-! ## The steps of the service thread -/

theorem getElem?_changeLast {f : Relay → Relay} {r : Relay} (h : (s.changeLast f)[k]? = some r) :
    ∃ r₀, s.relays[k]? = some r₀ ∧
      (k + 1 = s.relays.length ∧ r = f r₀ ∨ k + 1 < s.relays.length ∧ r = r₀) := by
  rw [changeLast, List.getElem?_modify, Option.map_eq_map, Option.map_eq_some_iff] at h
  obtain ⟨r₀, hk, rfl⟩ := h
  have hlt := (List.getElem?_eq_some_iff.mp hk).1
  refine ⟨r₀, hk, ?_⟩
  split
  · exact Or.inl ⟨by omega, rfl⟩
  · exact Or.inr ⟨by omega, rfl⟩

/-- While a session starts, all relays are spent. -/
theorem Ordered.of_spent {phase : ServicePhase} {sh : Shared}
    (H : ∀ (k : ℕ) (r : Relay), s.relays[k]? = some r → r.Spent) (hphase : phase.Starting) :
    Ordered { s with shared := sh, phase := phase } where
  spent := fun k r hk _ => H k r hk
  closing := by
    rintro rfl
    exact absurd hphase id
  stopped := by
    rintro (rfl | rfl) <;> exact absurd hphase id

/-- The calls of the relay threads when only the service thread and the shared state
change. -/
theorem popper_of_relays {a : Consumer} {p : Popper} (h : t.popper a = some p)
    (hrelays : t.relays = s.relays) : a = .service ∧ t.phase = .receiving p ∨
      a ≠ .service ∧ s.popper a = some p := by
  cases a with
  | service => exact Or.inl ⟨rfl, popper_service.mp h⟩
  | vmbus2Tcp k =>
      rw [popper, hrelays] at h
      exact Or.inr ⟨by simp, h⟩

theorem pusher_of_relays {p : Pusher} (h : t.pusher k = some p)
    (hrelays : t.relays = s.relays) : s.pusher k = some p := by
  rwa [pusher, hrelays] at h

/-- A step of the service thread that only moves on within the start of a session. -/
theorem Inv.starting {phase : ServicePhase} (H : Inv dev s) (sh : Shared)
    (hspent : ∀ (k : ℕ) (r : Relay), s.relays[k]? = some r → r.Spent)
    (hphase : phase.Starting) (hshared : SharedStep dev False False s.shared sh)
    (hpop : ∀ p, phase = .receiving p → p.Fresh dev sh) :
    SafeStep dev s { s with shared := sh, phase := phase } := by
  refine H.safeStep (.of_spent hspent hphase) hshared (fun a p hp => ?_)
    fun k p hp => Or.inr ⟨pusher_of_relays hp rfl, fun _ => id⟩
  rcases popper_of_relays (s := s) hp rfl with ⟨_, hp⟩ | ⟨_, hp⟩
  · exact Or.inl (hpop p hp)
  · exact Or.inr ⟨hp, fun _ => id⟩

/-- A step of the initial pop. -/
theorem Inv.receiving {p p' : Popper} {sh : Shared} (H : Inv dev s)
    (hphase : s.phase = .receiving p)
    (h : p.step dev s.relays.length s.shared = some (p', sh)) :
    SafeStep dev s { s with phase := .receiving p', shared := sh } := by
  have hstarting : s.phase.Starting := by
    rw [hphase]
    trivial
  have hpopper : s.popper .service = some p := popper_service.mpr hphase
  obtain ⟨hshared, hfresh⟩ := Popper.sharedStep H.sound (H.popper_fresh _ _ hpopper) h
  refine H.safeStep (.of_spent (fun k r hk => H.ordered.spent k r hk (Or.inl hstarting)) trivial)
    hshared (fun a q hq => ?_) fun k q hq => Or.inr ⟨pusher_of_relays hq rfl, fun _ => id⟩
  rcases popper_of_relays (s := s) hq rfl with ⟨_, hq⟩ | ⟨hne, hq⟩
  · cases hq
    exact Or.inl hfresh
  · exact Or.inr ⟨hq, fun hmid hmid' =>
      hne (H.ordered.exclusive.pop _ _ _ _ hq hmid hpopper hmid')⟩

/-- The threads are started. -/
theorem Inv.started (H : Inv dev s)
    (hspent : ∀ (k : ℕ) (r : Relay), s.relays[k]? = some r → r.Spent) :
    SafeStep dev s { s with phase := .watching, relays := s.relays ++ [.started] } := by
  have hget : ∀ (k : ℕ) (r : Relay), (s.relays ++ [.started])[k]? = some r →
      s.relays[k]? = some r ∨ k = s.relays.length ∧ r = .started := by
    intro k r hk
    by_cases hold : k < s.relays.length
    · rw [List.getElem?_append_left hold] at hk
      exact Or.inl hk
    · have hlt := (List.getElem?_eq_some_iff.mp hk).1
      rw [List.length_append, List.length_singleton] at hlt
      obtain rfl : k = s.relays.length := by omega
      rw [List.getElem?_concat_length, Option.some.injEq] at hk
      exact Or.inr ⟨rfl, hk.symm⟩
  refine H.safeStep_of_same ⟨?_, (nomatch ·),
    fun hphase => by rcases hphase with hphase | hphase <;> cases hphase⟩ (.refl H.sound)
    ?_ ?_
  · intro k r hk hcase
    rw [List.length_append, List.length_singleton] at hcase
    rcases hget k r hk with hk | ⟨rfl, rfl⟩
    · exact hspent k r hk
    · exact absurd hcase (by simp [ServicePhase.Starting])
  · intro a p hp
    cases a with
    | service => cases popper_service.mp hp
    | vmbus2Tcp k =>
        obtain ⟨r, hk, hr⟩ := popper_vmbus2Tcp.mp hp
        rcases hget k r hk with hk | ⟨rfl, rfl⟩
        · exact popper_vmbus2Tcp.mpr ⟨r, hk, hr⟩
        · cases hr
  · intro k p hp
    obtain ⟨r, hk, hr⟩ := pusher_eq_some.mp hp
    rcases hget k r hk with hk | ⟨rfl, rfl⟩
    · exact pusher_eq_some.mpr ⟨r, hk, hr⟩
    · cases hr

/-- The service thread changes the flags of the last relay. -/
theorem Inv.changeLast {f : Relay → Relay} {phase : ServicePhase} (H : Inv dev s)
    (hordered : Ordered { s with phase := phase, relays := s.changeLast f })
    (hphase : ∀ p, phase ≠ .receiving p) (hpop : ∀ r, (f r).vmbus2Tcp = r.vmbus2Tcp)
    (hpush : ∀ r, (f r).tcp2Vmbus = r.tcp2Vmbus) :
    SafeStep dev s { s with phase := phase, relays := s.changeLast f } := by
  refine H.safeStep_of_same hordered (.refl H.sound) ?_ ?_
  · intro a p hp
    cases a with
    | service => exact absurd (popper_service.mp hp) (hphase p)
    | vmbus2Tcp k =>
        obtain ⟨r, hk, hr⟩ := popper_vmbus2Tcp.mp hp
        obtain ⟨r₀, hk₀, ⟨_, rfl⟩ | ⟨_, rfl⟩⟩ := getElem?_changeLast hk
        · exact popper_vmbus2Tcp.mpr ⟨r₀, hk₀, by rwa [hpop] at hr⟩
        · exact popper_vmbus2Tcp.mpr ⟨r, hk₀, hr⟩
  · intro k p hp
    obtain ⟨r, hk, hr⟩ := pusher_eq_some.mp hp
    obtain ⟨r₀, hk₀, ⟨_, rfl⟩ | ⟨_, rfl⟩⟩ := getElem?_changeLast hk
    · exact pusher_eq_some.mpr ⟨r₀, hk₀, by rwa [hpush] at hr⟩
    · exact pusher_eq_some.mpr ⟨r, hk₀, hr⟩

theorem Ordered.closing_changeLast (H : s.Ordered) : Ordered { s with
    phase := .closing
    relays := s.changeLast fun r => { r with shouldRunning := false } } where
  spent := by
    intro k r hk hcase
    have hlength : (s.changeLast fun r => { r with shouldRunning := false }).length =
        s.relays.length := List.length_modify _ _ _
    rw [hlength] at hcase
    rcases hcase with hfalse | hcase
    · exact absurd hfalse id
    · obtain ⟨r₀, hk₀, ⟨hlast, _⟩ | ⟨_, rfl⟩⟩ := getElem?_changeLast hk
      · omega
      · exact H.spent k r hk₀ (Or.inr hcase)
  closing := by
    intro _ k r hk
    obtain ⟨r₀, hk₀, ⟨_, rfl⟩ | ⟨hlt, rfl⟩⟩ := getElem?_changeLast hk
    · rfl
    · exact (H.spent k r hk₀ (Or.inr hlt)).shouldRunning
  stopped := by rintro (hphase | hphase) <;> cases hphase

theorem Ordered.looping_changeLast (H : s.Ordered) (hphase : s.phase = .closing) :
    Ordered { s with
      phase := .looping
      relays := s.changeLast fun r => { r with closed := true } } where
  spent := by
    intro k r hk hcase
    have hlength : (s.changeLast fun r => { r with closed := true }).length = s.relays.length :=
      List.length_modify _ _ _
    rw [hlength] at hcase
    rcases hcase with hfalse | hcase
    · exact absurd hfalse id
    · obtain ⟨r₀, hk₀, ⟨hlast, _⟩ | ⟨_, rfl⟩⟩ := getElem?_changeLast hk
      · omega
      · exact H.spent k r hk₀ (Or.inr hcase)
  closing := fun hphase => nomatch hphase
  stopped := by
    intro _ k r hk
    obtain ⟨r₀, hk₀, ⟨_, rfl⟩ | ⟨hlt, rfl⟩⟩ := getElem?_changeLast hk
    · exact ⟨H.closing hphase k r₀ hk₀, rfl⟩
    · exact ⟨H.closing hphase k r hk₀, (H.spent k r hk₀ (Or.inr hlt)).closed⟩

theorem Inv.service (H : Inv dev s) (h : serviceStep dev s = some t) : SafeStep dev s t := by
  have hspent : s.phase.Starting → ∀ (k : ℕ) (r : Relay), s.relays[k]? = some r → r.Spent :=
    fun hstarting k r hk => H.ordered.spent k r hk (Or.inl hstarting)
  have hpop : ∀ p : Popper, s.phase = .receiving p →
      (p.step dev s.relays.length s.shared).map (fun r =>
        { s with phase := .receiving r.1, shared := r.2 }) = some t → SafeStep dev s t := by
    intro p hphase hmap
    obtain ⟨⟨p', sh⟩, hp, rfl⟩ := Option.map_eq_some_iff.mp hmap
    exact H.receiving hphase hp
  cases hphase : s.phase with
  | looping =>
      rw [serviceStep, hphase] at h
      cases h
  | receiving p =>
      rw [hphase] at hspent
      rw [serviceStep, hphase] at h
      cases p with
      | called => exact hpop .called hphase h
      | read cb position => exact hpop (.read cb position) hphase h
      | copied content finalOffset position size =>
          exact hpop (.copied content finalOffset position size) hphase h
      | returned content =>
          cases h
          exact H.starting s.shared (hspent trivial) (by split <;> trivial) (.refl H.sound)
            fun p hp => by split at hp <;> cases hp
      | threw =>
          cases h
          exact H.starting s.shared (hspent trivial) trivial (.refl H.sound) (nomatch ·, ·)
  | waitingHost =>
      rw [hphase] at hspent
      rw [serviceStep, hphase] at h
      cases h
      exact H.starting s.shared (hspent trivial) trivial (.refl H.sound) (nomatch ·, ·)
  | signallingHost =>
      rw [hphase] at hspent
      rw [serviceStep, hphase] at h
      cases h
      exact H.starting _ (hspent trivial) trivial (.interruptControl H.sound) (nomatch ·, ·)
  | starting =>
      rw [hphase] at hspent
      rw [serviceStep, hphase] at h
      cases h
      exact H.started (hspent trivial)
  | watching =>
      rw [serviceStep, hphase] at h
      simp only at h
      split at h
      · cases h
        exact H.changeLast H.ordered.closing_changeLast (nomatch ·, ·) (fun _ => rfl) fun _ => rfl
      · cases h
  | closing =>
      rw [serviceStep, hphase] at h
      cases h
      exact H.changeLast (H.ordered.looping_changeLast hphase) (nomatch ·, ·) (fun _ => rfl)
        fun _ => rfl
  | exited =>
      rw [serviceStep, hphase] at h
      cases h

/-- A session begins with all threads of the earlier ones done. -/
theorem Inv.begin (H : Inv dev s) (hcleared : Cleared s .begin)
    (h : step dev s .begin = some t) : SafeStep dev s t := by
  cases hphase : s.phase <;> rw [step, hphase] at h <;> cases h
  refine H.starting _ ?_ trivial (.interruptControl H.sound) ?_
  · intro k r hk
    obtain ⟨hrunning, hclosed⟩ := H.ordered.stopped (Or.inl hphase) k r hk
    exact ⟨hrunning, hclosed, hcleared r (List.mem_of_getElem? hk)⟩
  · intro p hp
    cases hp
    trivial

theorem Inv.exit (H : Inv dev s) (h : step dev s .exit = some t) : SafeStep dev s t := by
  cases hphase : s.phase <;> rw [step, hphase] at h <;> cases h
  refine H.safeStep_of_same ⟨?_, (nomatch ·), ?_⟩
    (.refl H.sound) ?_ fun k p hp => pusher_of_relays hp rfl
  · intro k r hk hcase
    exact H.ordered.spent k r hk (hcase.imp_left (absurd · id))
  · intro _ k r hk
    exact H.ordered.stopped (Or.inl hphase) k r hk
  · intro a p hp
    rcases popper_of_relays (s := s) hp rfl with ⟨_, hp⟩ | ⟨_, hp⟩
    · cases hp
    · exact hp

theorem Inv.host {m : Mapping} (H : Inv dev s) (h : step dev s (.host m) = some t) :
    SafeStep dev s t := by
  rw [step] at h
  split at h
  · next hwrites =>
    cases h
    exact H.safeStep_of_same ⟨H.ordered.spent, H.ordered.closing, H.ordered.stopped⟩
      (.of_mapping H.sound hwrites.out_eq hwrites.in_eq hwrites.in_lt hwrites.out_lt)
      (fun a p hp => hp) fun k p hp => hp
  · cases h

/-- Every step is safe, if a session begins only when the earlier ones are done. -/
theorem Inv.step (H : Inv dev s) (hcleared : Cleared s l) (h : ServiceMain.step dev s l = some t) :
    SafeStep dev s t := by
  cases l with
  | host m => exact H.host h
  | begin => exact H.begin hcleared h
  | exit => exact H.exit h
  | service => exact H.service h
  | vmbus2Tcp k throws => exact H.vmbus2Tcp h
  | tcp2Vmbus k event => exact H.tcp2Vmbus h

theorem inv_start {m : Mapping} (hin : (incoming dev m).In.toNat < dev.dataMaximumSize)
    (hout : (incoming dev m).Out.toNat ≤ dev.dataMaximumSize)
    (houtgoing : (outgoing dev m).In.toNat ≤ dev.dataMaximumSize)
    (htaken : (outgoing dev m).Out.toNat < dev.dataMaximumSize) : Inv dev (start dev m) where
  ordered := by
    refine ⟨?_, ?_, ?_⟩
    · intro k r hk
      cases hk
    · intro hphase
      cases hphase
    · intro _ k r hk
      cases hk
  sound := ⟨hin, hout, houtgoing, htaken, rfl, rfl, .nil, (nomatch ·, ·)⟩
  popper_fresh := by
    intro a p hp
    cases a <;> cases hp
  pusher_fresh := by
    intro k p hp
    cases hp

/-- **One consumer and one producer.** From indices in range, in every run in which no
session begins while a thread of an earlier one is in an operation, or past its test of
`ShouldRunning` in front of it: at most one thread at a time is in the middle of a pop and
at most one in the middle of a push, no position of the incoming stream is popped twice, and
neither `Out` of the incoming ring nor `In` of the outgoing one moves backwards. The
positions stay those of the indices, modulo the size of the data area. -/
theorem exclusive_of_cleared (dev : UioHvDevice) (m : Mapping)
    (hin : (incoming dev m).In.toNat < dev.dataMaximumSize)
    (hout : (incoming dev m).Out.toNat ≤ dev.dataMaximumSize)
    (houtgoing : (outgoing dev m).In.toNat ≤ dev.dataMaximumSize)
    (htaken : (outgoing dev m).Out.toNat < dev.dataMaximumSize) (ls : List Label)
    (hcleared : Meets (step dev) Cleared (start dev m) ls) :
    Always (step dev) (fun s => s.Exclusive ∧ s.DeliveredOnce ∧
      s.shared.outPosition % dev.dataMaximumSize =
        (incoming dev s.shared.mapping).Out.toNat % dev.dataMaximumSize ∧
      s.shared.inPosition % dev.dataMaximumSize =
        (outgoing dev s.shared.mapping).In.toNat % dev.dataMaximumSize) (start dev m) ls ∧
    Meets (step dev) (Forward dev) (start dev m) ls := by
  have h₀ := inv_start hin hout houtgoing htaken
  have hrun := always_of_meets (fun _ _ _ H hok h => (Inv.step H hok h).inv) h₀ hcleared
  refine ⟨hrun.mono fun s H => ⟨H.ordered.exclusive,
    H.sound.delivered_sorted.imp fun h => h.ne, H.sound.outPosition_mod, H.sound.inPosition_mod⟩,
    meets_of_meets (fun s l t (H : Inv dev s) hok h => ⟨fun u hu => ?_, (H.step hok h).inv⟩)
      h₀ hcleared⟩
  have hsafe := H.step hok hu
  exact ⟨hsafe.out_forward, hsafe.in_forward⟩

/-! ## A thread that is not joined -/

/-- While a thread of an earlier session is in the middle of a pop, the next session can come
to be in the middle of one as well. -/
theorem not_exclusive_of_not_done {r : Relay} {p : Popper} (hphase : s.phase = .looping)
    (hk : s.relays[k]? = some r) (hp : r.vmbus2Tcp = .popping p) (hmid : p.Mid) :
    ∃ t, exec (ServiceMain.step dev) s [.begin, .service] = some t ∧ ¬ t.Exclusive := by
  have hbegin : ServiceMain.step dev s .begin = some { s with
      phase := .receiving .called
      shared := { s.shared with mapping := interruptControl dev true s.shared.mapping } } := by
    rw [ServiceMain.step, hphase]
  refine ⟨_, (exec_cons hbegin).trans (exec_cons rfl), ?_⟩
  intro H
  have hsame := H.pop .service (.vmbus2Tcp k) _ p rfl trivial
    (popper_vmbus2Tcp.mpr ⟨r, hk, by rw [hp]; rfl⟩) hmid
  cases hsame

/-- The initial `Receive` of a session on an empty ring, up to the start of the threads. -/
theorem exec_receive (sh : Shared) (rs : List Relay)
    (hnone : popCopy dev (incoming dev sh.mapping) sh.mapping = .ok none) :
    exec (ServiceMain.step dev) ⟨sh, .receiving .called, rs⟩
      [.service, .service, .service, .service, .service] =
      some ⟨sh, .watching, rs ++ [.started]⟩ := by
  have h₁ : ServiceMain.step dev ⟨sh, .receiving .called, rs⟩ .service =
      some ⟨sh, .receiving (.read (incoming dev sh.mapping) sh.outPosition), rs⟩ := rfl
  have h₂ : ServiceMain.step dev
      ⟨sh, .receiving (.read (incoming dev sh.mapping) sh.outPosition), rs⟩ .service =
      some ⟨sh, .receiving (.returned []), rs⟩ := by
    rw [ServiceMain.step, serviceStep]
    simp only
    rw [Popper.step_read_none hnone]
    rfl
  have h₃ : ServiceMain.step dev ⟨sh, .receiving (.returned []), rs⟩ .service =
      some ⟨sh, .waitingHost, rs⟩ := rfl
  have h₄ : ServiceMain.step dev ⟨sh, .waitingHost, rs⟩ .service = some ⟨sh, .starting, rs⟩ := rfl
  have h₅ : ServiceMain.step dev ⟨sh, .starting, rs⟩ .service =
      some ⟨sh, .watching, rs ++ [.started]⟩ := rfl
  rw [exec_cons h₁, exec_cons h₂, exec_cons h₃, exec_cons h₄, exec_cons h₅, exec_nil]

/-- A session from its pop on that finds no packet and starts its threads; its
`Vmbus2TcpThread` reads the control block, and its `Tcp2VmbusThread` dies of the socket. -/
def staleSession : List Label :=
  [.service, .service, .service, .service, .service] ++ [.vmbus2Tcp 0 false, .vmbus2Tcp 0 false,
    .tcp2Vmbus 0 .throws, .tcp2Vmbus 0 .throws, .service, .service]

theorem exec_staleSession (sh : Shared)
    (hnone : popCopy dev (incoming dev sh.mapping) sh.mapping = .ok none) :
    exec (ServiceMain.step dev) ⟨sh, .receiving .called, []⟩ staleSession =
      some ⟨sh, .looping,
        [⟨false, true, .popping (.read (incoming dev sh.mapping) sh.outPosition), .dead⟩]⟩ := by
  have h₁ : ServiceMain.step dev ⟨sh, .watching, [.started]⟩ (.vmbus2Tcp 0 false) =
      some ⟨sh, .watching, [⟨true, false, .popping .called, .test⟩]⟩ := rfl
  have h₂ : ServiceMain.step dev ⟨sh, .watching, [⟨true, false, .popping .called, .test⟩]⟩
      (.vmbus2Tcp 0 false) = some ⟨sh, .watching, [⟨true, false,
        .popping (.read (incoming dev sh.mapping) sh.outPosition), .test⟩]⟩ := rfl
  generalize Popper.read (incoming dev sh.mapping) sh.outPosition = p at *
  have h₃ : ServiceMain.step dev ⟨sh, .watching, [⟨true, false, .popping p, .test⟩]⟩
      (.tcp2Vmbus 0 .throws) =
      some ⟨sh, .watching, [⟨true, false, .popping p, .entered⟩]⟩ := rfl
  have h₄ : ServiceMain.step dev ⟨sh, .watching, [⟨true, false, .popping p, .entered⟩]⟩
      (.tcp2Vmbus 0 .throws) = some ⟨sh, .watching, [⟨true, false, .popping p, .dead⟩]⟩ := rfl
  have h₅ : ServiceMain.step dev ⟨sh, .watching, [⟨true, false, .popping p, .dead⟩]⟩ .service =
      some ⟨sh, .closing, [⟨false, false, .popping p, .dead⟩]⟩ := rfl
  have h₆ : ServiceMain.step dev ⟨sh, .closing, [⟨false, false, .popping p, .dead⟩]⟩ .service =
      some ⟨sh, .looping, [⟨false, true, .popping p, .dead⟩]⟩ := rfl
  rw [staleSession, exec_append _ (exec_receive sh [] hnone), List.nil_append, exec_cons h₁,
    exec_cons h₂, exec_cons h₃, exec_cons h₄, exec_cons h₅, exec_cons h₆, exec_nil]

/-- After such a session the next one pops beside its thread. -/
theorem not_exclusive_of_none {m : Mapping}
    (hnone : popCopy dev (incoming dev (interruptControl dev true m))
      (interruptControl dev true m) = .ok none) :
    ¬ Always (ServiceMain.step dev) Exclusive (start dev m)
      (.begin :: (staleSession ++ [.begin, .service])) := by
  have hbegin : ServiceMain.step dev (start dev m) .begin = some ⟨⟨interruptControl dev true m,
      (incoming dev m).Out.toNat, (outgoing dev m).In.toNat, []⟩, .receiving .called, []⟩ := rfl
  have hold := exec_staleSession ⟨interruptControl dev true m, (incoming dev m).Out.toNat,
    (outgoing dev m).In.toNat, []⟩ hnone
  obtain ⟨t, ht, hbad⟩ : ∃ t, exec (ServiceMain.step dev) ⟨⟨interruptControl dev true m,
      (incoming dev m).Out.toNat, (outgoing dev m).In.toNat, []⟩, .looping, [⟨false, true,
        .popping (.read (incoming dev (interruptControl dev true m)) (incoming dev m).Out.toNat),
        .dead⟩]⟩ [.begin, .service] = some t ∧ ¬ t.Exclusive :=
    not_exclusive_of_not_done (k := 0) rfl rfl rfl trivial
  intro H
  refine hbad (H.exec ?_)
  rw [exec_cons hbegin, exec_append _ hold, ht]

theorem popCopy_of_zero {m : Mapping} (hIn : (incoming dev m).In = 0)
    (hOut : (incoming dev m).Out = 0) : popCopy dev (incoming dev m) m = .ok none := by
  refine popCopy_none ?_ ?_ ?_
  · rw [hIn]
    exact Nat.zero_le _
  · rw [hOut]
    exact Nat.zero_le _
  · simp [readableSize, hIn, hOut]

/-- On an empty ring two threads come to be in the middle of a pop. -/
theorem not_exclusive_staleSession : ¬ Always (ServiceMain.step .defaultRings) Exclusive
    (start .defaultRings fun _ => 0) (.begin :: (staleSession ++ [.begin, .service])) := by
  refine not_exclusive_of_none (popCopy_of_zero ?_ ?_)
  · rw [incoming_interruptControl]
    rfl
  · rw [incoming_interruptControl]
    rfl

/-! ## A thread that has finished -/

/-- The pop ends, finding nothing, and then the thread. -/
theorem exec_finish (sh : Shared)
    (hnone : popCopy dev (incoming dev sh.mapping) sh.mapping = .ok none) :
    exec (ServiceMain.step dev) ⟨sh, .looping, [⟨false, true,
        .popping (.read (incoming dev sh.mapping) sh.outPosition), .dead⟩]⟩
      [.vmbus2Tcp 0 false, .vmbus2Tcp 0 false, .vmbus2Tcp 0 false] =
      some ⟨sh, .looping, [⟨false, true, .dead, .dead⟩]⟩ := by
  have h₁ : ServiceMain.step dev ⟨sh, .looping, [⟨false, true,
      .popping (.read (incoming dev sh.mapping) sh.outPosition), .dead⟩]⟩ (.vmbus2Tcp 0 false) =
      some ⟨sh, .looping, [⟨false, true, .popping (.returned []), .dead⟩]⟩ := by
    simp only [ServiceMain.step, List.getElem?_cons_zero, Option.bind_some, Vmbus2TcpThread.step,
      Popper.step_read_none hnone]
    rfl
  have h₂ : ServiceMain.step dev ⟨sh, .looping, [⟨false, true, .popping (.returned []), .dead⟩]⟩
      (.vmbus2Tcp 0 false) = some ⟨sh, .looping, [⟨false, true, .test, .dead⟩]⟩ := rfl
  have h₃ : ServiceMain.step dev ⟨sh, .looping, [⟨false, true, .test, .dead⟩]⟩
      (.vmbus2Tcp 0 false) = some ⟨sh, .looping, [⟨false, true, .dead, .dead⟩]⟩ := rfl
  rw [exec_cons h₁, exec_cons h₂, exec_cons h₃, exec_nil]

/-- The session with the late thread once more: here the thread finishes before the next
session begins. -/
def joinedSessions : List Label :=
  .begin :: (staleSession ++ ([.vmbus2Tcp 0 false, .vmbus2Tcp 0 false, .vmbus2Tcp 0 false] ++
    (.begin :: [.service, .service, .service, .service, .service])))

theorem exclusive_joinedSessions : ∃ t,
    exec (ServiceMain.step .defaultRings) (start .defaultRings fun _ => 0) joinedSessions =
      some t ∧
    t.phase = .watching ∧ t.relays = [⟨false, true, .dead, .dead⟩, .started] ∧
    Always (ServiceMain.step .defaultRings) (fun s => s.Exclusive ∧
      s.DeliveredOnce ∧ s.shared.outPosition % UioHvDevice.defaultRings.dataMaximumSize =
        (incoming .defaultRings s.shared.mapping).Out.toNat %
          UioHvDevice.defaultRings.dataMaximumSize ∧
      s.shared.inPosition % UioHvDevice.defaultRings.dataMaximumSize =
        (outgoing .defaultRings s.shared.mapping).In.toNat %
          UioHvDevice.defaultRings.dataMaximumSize)
      (start .defaultRings fun _ => 0) joinedSessions := by
  -- Each session opens the device on an empty ring.
  generalize hm₁ : interruptControl .defaultRings true (fun _ => 0) = m₁
  generalize hm₂ : interruptControl .defaultRings true m₁ = m₂
  have hIn₁ : (incoming .defaultRings m₁).In = 0 := by rw [← hm₁, incoming_interruptControl]; rfl
  have hOut₁ : (incoming .defaultRings m₁).Out = 0 := by
    rw [← hm₁, incoming_interruptControl]
    rfl
  have hnone₂ : popCopy .defaultRings (incoming .defaultRings m₂) m₂ = .ok none := by
    refine popCopy_of_zero ?_ ?_ <;> rw [← hm₂, incoming_interruptControl] <;> assumption
  have hbegin : ServiceMain.step .defaultRings (start .defaultRings fun _ => 0) .begin =
      some ⟨⟨m₁, 0, 0, []⟩, .receiving .called, []⟩ := by
    rw [← hm₁]
    rfl
  have hfirst := exec_staleSession ⟨m₁, 0, 0, []⟩ (popCopy_of_zero hIn₁ hOut₁)
  have hfinish := exec_finish ⟨m₁, 0, 0, []⟩ (popCopy_of_zero hIn₁ hOut₁)
  have hagain : ServiceMain.step .defaultRings
      ⟨⟨m₁, 0, 0, []⟩, .looping, [⟨false, true, .dead, .dead⟩]⟩ .begin =
      some ⟨⟨m₂, 0, 0, []⟩, .receiving .called, [⟨false, true, .dead, .dead⟩]⟩ := by
    rw [← hm₂]
    rfl
  have hnext := exec_receive ⟨m₂, 0, 0, []⟩ [⟨false, true, .dead, .dead⟩] hnone₂
  refine ⟨⟨⟨m₂, 0, 0, []⟩, .watching, [⟨false, true, .dead, .dead⟩, .started]⟩, ?_, rfl, rfl,
    (exclusive_of_cleared .defaultRings (fun _ => 0) ?_ ?_ ?_ ?_ _ ?_).1⟩
  · rw [joinedSessions, exec_cons hbegin, exec_append _ hfirst, exec_append _ hfinish,
      exec_cons hagain, hnext]
    rfl
  · decide
  · decide
  · decide
  · decide
  · rw [joinedSessions, meets_cons hbegin, meets_append _ hfirst, meets_append _ hfinish,
      meets_cons hagain]
    refine ⟨fun r hr => ?_, meets_of_labels (by simp [staleSession, Cleared]),
      meets_of_labels (by simp [Cleared]), fun r hr => ?_, meets_of_labels (by simp [Cleared])⟩
    · cases hr
    · obtain rfl := List.mem_singleton.mp hr
      constructor
      · intro p hp
        cases hp
      · intro p hp
        cases hp

end ServiceMain

end HvGin
