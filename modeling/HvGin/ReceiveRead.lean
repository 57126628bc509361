import HvGin.Receive
import HvGin.UioRead
import HvGin.Lib.Simulation

/-!
# `Receive` over `uio_read`

`Receiver` takes the wait in `Receive` as one step, enabled while the event counter differs
from the value last read. Below it is a system call: `WaitInterrupt` reads four bytes, and
the thread goes through `uio_read`, sleeps, is woken, and may be interrupted by a signal.

Where an interrupted call is restarted, every run of the two together is a run of `Receiver`
with the same calls, packets and interrupts; the wait takes place where `uio_read` loads the
counter (`abs_of_exec`). So the condition for a wait to be safe is that of `Receiver`, and
under it the thread does not sleep with a packet to read and nothing to wake it.

## Main definitions

* `ReceiveRead` — `Receiver` with its thread in the kernel.
* `ReceiveRead.abs` — the state of `Receiver` it stands for.
-/
namespace HvGin

open Lib

/-- The guest, the driver and the host, and the thread that waits in the kernel. -/
structure ReceiveRead where
  receiver : Receiver
  thread : ReadThread

namespace ReceiveRead

inductive Label
  /-- A step of the guest, the driver or the host other than the wait. -/
  | receiver (l : Receiver.Label)
  /-- `WaitInterrupt` calls `read` with a buffer of four bytes. -/
  | read
  /-- A step in `uio_read`. -/
  | run
  /-- A wake-up comes by. -/
  | wake
  | interrupt
  /-- `uio_read` returns; a call that a signal interrupted may be restarted. -/
  | leave (restart : Bool)

variable (dev : UioHvDevice)

def start (m : Mapping) (event : UInt32) : ReceiveRead := ⟨.start m event, .idle⟩

/-- `WaitInterrupt`, from what `uio_read` returns; an interrupted call fails with `EINTR`. -/
def waitInterrupt : Except Errno UInt32 → Except Exn Bool
  | .ok _ => .ok true
  | .error .erestartsys | .error .eagain => .ok false
  | .error _ => .error (.exception "WaitInterrupt Failed")

/-- The rest of `Receive` behind `WaitInterrupt`. -/
def receiveWaited (s : Receiver) (retval : Except Errno UInt32) : Receiver :=
  { s with pc := .idle, returned := s.returned ++ [(waitInterrupt retval).map fun _ => []] }

/-- The next step of the thread, on a device that is registered and whose channel is offered,
with a blocking file and a buffer of the caller's. -/
def advance (s : ReceiveRead) : Option (ReadThread × UInt32) :=
  s.thread.advance ⟨s.receiver.event, true, true⟩ false false s.receiver.lastRead

def step (s : ReceiveRead) : Label → Option ReceiveRead
  | .receiver .wait => none
  | .receiver .deliver =>
      (Receiver.step dev s.receiver .deliver).map fun r => ⟨r, s.thread.announce⟩
  | .receiver l => (Receiver.step dev s.receiver l).map fun r => ⟨r, s.thread⟩
  | .read =>
      match s.receiver.pc with
      | .waiting => (s.thread.call 4).map fun t => ⟨s.receiver, t⟩
      | _ => none
  | .run =>
      match s.thread.pc with
      | .atReturn _ => none
      | _ => s.advance.map fun r => ⟨{ s.receiver with lastRead := r.2 }, r.1⟩
  | .wake => s.thread.wake.map fun t => ⟨s.receiver, t⟩
  | .interrupt => some ⟨s.receiver, s.thread.signal⟩
  | .leave restart =>
      match s.thread.pc with
      | .atReturn retval =>
          s.advance.bind fun r =>
            match retval, restart with
            | .error .erestartsys, true => (r.1.call 4).map fun t => ⟨s.receiver, t⟩
            | _, _ => some ⟨receiveWaited s.receiver retval, r.1⟩
      | _ => none

/-- A wait that has ended with this value of the counter. -/
def waited (s : Receiver) (eventCount : UInt32) : Receiver :=
  { s with lastRead := eventCount, pc := .idle, returned := s.returned ++ [.ok []] }

/-- Behind the load of a counter that differs the wait has ended. -/
def abs (s : ReceiveRead) : Receiver :=
  match s.thread.pc with
  | .atCopy => waited s.receiver s.thread.eventCount
  | .atReturn (.ok _) => waited s.receiver s.receiver.lastRead
  | _ => s.receiver

/-- What `Receiver` has of a step. -/
def Label.visible : Label → List Receiver.Label
  | .receiver l => [l]
  | _ => []

/-- The steps of `Receiver` apart from the wait. -/
def visible : Receiver.Label → List Receiver.Label
  | .wait => []
  | l => [l]

/-- A call that a signal interrupted is restarted. -/
def Label.Restarts : Label → Prop
  | .leave restart => restart = true
  | _ => True

variable {dev} {s t : ReceiveRead} {l : Label}

/-- The thread is in `uio_read` only for a `Receive` that waits, and leaves it with the
counter or interrupted. -/
structure InCall (s : ReceiveRead) : Prop where
  waiting : s.thread.pc ≠ .outside → s.receiver.pc = .waiting
  retval : ∀ e, s.thread.pc = .atReturn (.error e) → e = .erestartsys

/-- A step of the thread in a wait: the states of `Receiver` are the same, or the wait ends. -/
def Waits (dev : UioHvDevice) (s t : ReceiveRead) : Prop :=
  abs t = abs s ∨ Receiver.step dev (abs s) .wait = some (abs t)

theorem inCall_start (m : Mapping) (event : UInt32) : InCall (start m event) :=
  ⟨fun h => absurd rfl h, by simp [start, ReadThread.idle]⟩

theorem abs_outside (h : s.thread.pc = .outside) : abs s = s.receiver := by rw [abs, h]

/-- Outside a wait the thread is not in the kernel. -/
theorem InCall.outside (H : InCall s) (h : s.receiver.pc ≠ .waiting) : s.thread.pc = .outside := by
  by_contra hpc
  exact h (H.waiting hpc)

/-- The host writes a packet, whatever the thread does. -/
theorem abs_put {p : PipePacket} {r : Receiver}
    (h : Receiver.step dev s.receiver (.put p) = some r) :
    Receiver.step dev (abs s) (.put p) = some (abs ⟨r, s.thread⟩) ∧ r.pc = s.receiver.pc := by
  obtain ⟨m, hput, rfl⟩ := Receiver.step_put.mp h
  refine ⟨?_, rfl⟩
  simp only [abs]
  split <;> exact Receiver.step_put.mpr ⟨m, hput, rfl⟩

/-- An interrupt is delivered, whatever the thread does. -/
theorem abs_deliver {r : Receiver} (h : Receiver.step dev s.receiver .deliver = some r) :
    Receiver.step dev (abs s) .deliver = some (abs ⟨r, s.thread.announce⟩) ∧
      r.pc = s.receiver.pc := by
  obtain ⟨hflight, rfl⟩ := Receiver.step_deliver.mp h
  refine ⟨?_, rfl⟩
  simp only [abs, ReadThread.announce]
  split <;> exact Receiver.step_deliver.mpr ⟨hflight, rfl⟩

/-- A step of the thread: the wait ends where the counter is loaded and differs. -/
theorem InCall.run (H : InCall s) (h : step dev s .run = some t) : InCall t ∧ Waits dev s t := by
  cases hpc : s.thread.pc with
  | outside =>
      simp only [step, advance, ReadThread.advance, hpc, Option.map_none, reduceCtorEq] at h
  | atLock =>
      simp only [step, advance, ReadThread.advance, hpc] at h
      cases h
      refine ⟨⟨fun _ => H.waiting (by simp [hpc]), fun e he => ?_⟩, .inl ?_⟩
      · cases he
      · simp only [abs, hpc]
  | atSetState =>
      simp only [step, advance, ReadThread.advance, hpc] at h
      cases h
      refine ⟨⟨fun _ => H.waiting (by simp [hpc]), fun e he => ?_⟩, .inl ?_⟩
      · cases he
      · simp only [abs, hpc]
  | atLoad =>
      have hwaiting : s.receiver.pc = .waiting := H.waiting (by simp [hpc])
      simp only [step, advance, ReadThread.advance, hpc] at h
      cases h
      by_cases hevent : s.receiver.event ≠ s.receiver.lastRead
      · refine ⟨⟨fun _ => hwaiting, fun e he => ?_⟩, .inr ?_⟩
        · simp [hevent] at he
        · simp only [abs, hpc, if_pos hevent]
          exact Receiver.step_wait.mpr ⟨hwaiting, hevent, rfl⟩
      · refine ⟨⟨fun _ => hwaiting, fun e he => ?_⟩, .inl ?_⟩
        · simp [hevent] at he
        · simp only [abs, hpc, if_neg hevent]
  | atCopy =>
      simp only [step, advance, ReadThread.advance, hpc] at h
      cases h
      refine ⟨⟨fun _ => H.waiting (by simp [hpc]), fun e he => ?_⟩, .inl ?_⟩
      · cases he
      · simp only [abs, hpc]
        rfl
  | atTests =>
      simp only [step, advance, ReadThread.advance, hpc] at h
      have hwaiting : s.receiver.pc = .waiting := H.waiting (by simp [hpc])
      by_cases hpending : s.thread.signalPending = true
      · rw [if_neg (by simp), if_pos hpending] at h
        cases h
        exact ⟨⟨fun _ => hwaiting, fun e he => by cases he; rfl⟩, .inl (by simp only [abs, hpc])⟩
      · rw [if_neg (by simp), if_neg hpending] at h
        cases h
        exact ⟨⟨fun _ => hwaiting, fun e he => by cases he⟩, .inl (by simp only [abs, hpc])⟩
  | atSchedule =>
      simp only [step, advance, ReadThread.advance, hpc] at h
      have hwaiting : s.receiver.pc = .waiting := H.waiting (by simp [hpc])
      split at h
      · cases h
      · cases h
        exact ⟨⟨fun _ => hwaiting, fun e he => by cases he⟩, .inl (by simp only [abs, hpc])⟩
  | atReturn retval => simp only [step, hpc, reduceCtorEq] at h

/-- The thread leaves the kernel: with the counter, or restarting, or `Receive` returns an
empty array for the interruption. -/
theorem InCall.leave {restart : Bool} (H : InCall s) (h : step dev s (.leave restart) = some t) :
    InCall t ∧ (abs t = abs s ∨ restart = false ∧ (∀ v, s.thread.pc ≠ .atReturn (.ok v)) ∧
      abs t = waited (abs s) s.receiver.lastRead) := by
  cases hpc : s.thread.pc with
  | atReturn retval =>
      have hwaiting : s.receiver.pc = .waiting := H.waiting (by simp [hpc])
      simp only [step, advance, ReadThread.advance, hpc, Option.bind_some] at h
      cases retval with
      | ok v =>
          cases h
          exact ⟨⟨fun h => absurd rfl h, fun e he => by cases he⟩,
            .inl (by simp only [abs, hpc]; rfl)⟩
      | error e =>
          obtain rfl := H.retval e hpc
          cases restart with
          | true =>
              cases h
              exact ⟨⟨fun _ => hwaiting, fun e he => by cases he⟩, .inl (by simp only [abs, hpc])⟩
          | false =>
              cases h
              refine ⟨⟨fun h => absurd rfl h, fun e he => by cases he⟩, .inr ⟨rfl, ?_, ?_⟩⟩
              · intro v hv
                cases hv
              · simp only [abs, hpc]
                rfl
  | _ => simp only [step, hpc, reduceCtorEq] at h

/-- What a step is to `Receiver`. -/
inductive Shown (dev : UioHvDevice) (s t : ReceiveRead) : Label → Prop
  | visible {k : Receiver.Label} (hk : visible k = [k])
      (h : Receiver.step dev (abs s) k = some (abs t)) : Shown dev s t (.receiver k)
  | hidden {l : Label} (hl : l.visible = []) (h : Waits dev s t) : Shown dev s t l
  | interrupted (hnot : ∀ v, s.thread.pc ≠ .atReturn (.ok v))
      (h : abs t = waited (abs s) s.receiver.lastRead) : Shown dev s t (.leave false)

/-- Outside a wait the guest moves as in `Receiver`. -/
theorem InCall.guest {k : Receiver.Label} {r : Receiver} (H : InCall s)
    (hpc : s.receiver.pc ≠ .waiting) (h : Receiver.step dev s.receiver k = some r) :
    InCall ⟨r, s.thread⟩ ∧ Receiver.step dev (abs s) k = some (abs ⟨r, s.thread⟩) := by
  have houtside := H.outside hpc
  refine ⟨⟨fun h => absurd houtside h, fun e he => ?_⟩, ?_⟩
  · rw [houtside] at he
    cases he
  · rw [abs_outside houtside, abs_outside (s := ⟨r, s.thread⟩) houtside, h]

theorem InCall.step (H : InCall s) (h : step dev s l = some t) : InCall t ∧ Shown dev s t l := by
  cases l with
  | receiver k =>
      cases k with
      | wait => cases h
      | receive =>
          obtain ⟨r, hr, rfl⟩ := Option.map_eq_some_iff.mp h
          have hidle := (Receiver.step_receive.mp hr).1
          obtain ⟨hcall, hstep⟩ := H.guest (by simp [hidle]) hr
          exact ⟨hcall, .visible rfl hstep⟩
      | signal =>
          obtain ⟨r, hr, rfl⟩ := Option.map_eq_some_iff.mp h
          obtain ⟨content, hpc, _⟩ := Receiver.step_signal.mp hr
          obtain ⟨hcall, hstep⟩ := H.guest (by simp [hpc]) hr
          exact ⟨hcall, .visible rfl hstep⟩
      | deliver =>
          obtain ⟨r, hr, rfl⟩ := Option.map_eq_some_iff.mp h
          obtain ⟨hstep, hpc⟩ := abs_deliver hr
          exact ⟨⟨fun h => hpc.trans (H.waiting h), H.retval⟩, .visible rfl hstep⟩
      | put p =>
          obtain ⟨r, hr, rfl⟩ := Option.map_eq_some_iff.mp h
          obtain ⟨hstep, hpc⟩ := abs_put hr
          exact ⟨⟨fun h => hpc.trans (H.waiting h), H.retval⟩, .visible rfl hstep⟩
  | read =>
      cases hreceiver : s.receiver.pc with
      | waiting =>
          simp only [ReceiveRead.step, hreceiver] at h
          obtain ⟨u, hu, rfl⟩ := Option.map_eq_some_iff.mp h
          cases hpc : s.thread.pc with
          | outside =>
              simp only [ReadThread.call, hpc] at hu
              cases hu
              refine ⟨⟨fun _ => hreceiver, fun e he => by cases he⟩, .hidden rfl (.inl ?_)⟩
              simp only [abs, hpc]
          | _ => simp only [ReadThread.call, hpc, reduceCtorEq] at hu
      | _ => simp only [ReceiveRead.step, hreceiver, reduceCtorEq] at h
  | run =>
      obtain ⟨hcall, hwaits⟩ := H.run h
      exact ⟨hcall, .hidden rfl hwaits⟩
  | wake =>
      obtain ⟨u, hu, rfl⟩ := Option.map_eq_some_iff.mp h
      obtain ⟨sleeper, _, rfl⟩ := Option.map_eq_some_iff.mp hu
      exact ⟨⟨H.waiting, H.retval⟩, .hidden rfl (.inl rfl)⟩
  | interrupt =>
      cases h
      exact ⟨⟨H.waiting, H.retval⟩, .hidden rfl (.inl rfl)⟩
  | leave restart =>
      obtain ⟨hcall, hsame | ⟨rfl, hnot, hwaited⟩⟩ := H.leave h
      · exact ⟨hcall, .hidden rfl (.inl hsame)⟩
      · exact ⟨hcall, .interrupted hnot hwaited⟩

/-- Where interrupted calls are restarted, a step is matched by `Receiver`. -/
theorem InCall.matched (H : InCall s) (hrestarts : l.Restarts)
    (h : ReceiveRead.step dev s l = some t) :
    ∃ ks u, exec (Receiver.step dev) (abs s) ks = some u ∧ (InCall t ∧ abs t = u) ∧
      (∀ k ∈ ks, True) ∧ ks.flatMap visible = l.visible := by
  obtain ⟨hcall, hshown⟩ := H.step h
  cases hshown with
  | @visible k hk hstep =>
      refine ⟨[k], _, by rw [exec_cons hstep, exec_nil], ⟨hcall, rfl⟩, fun _ _ => trivial, ?_⟩
      rw [List.flatMap_cons, hk]
      rfl
  | hidden hl hwaits =>
      rw [hl]
      rcases hwaits with hsame | hwait
      · exact ⟨[], abs s, rfl, ⟨hcall, hsame⟩, fun _ _ => trivial, rfl⟩
      · exact ⟨[.wait], _, by rw [exec_cons hwait, exec_nil], ⟨hcall, rfl⟩, fun _ _ => trivial, rfl⟩
  | interrupted => cases hrestarts

/-- A wait that ends in `Receiver`, step by step. -/
theorem exec_wait (hpc : s.thread.pc = .outside) (hwaiting : s.receiver.pc = .waiting)
    (hevent : s.receiver.event ≠ s.receiver.lastRead) :
    ∃ t, exec (step dev) s [.read, .run, .run, .run, .run, .leave true] = some t ∧
      t.receiver = waited s.receiver s.receiver.event ∧ t.thread.pc = .outside := by
  obtain ⟨receiver, pc, sleeper, eventCount, signalPending⟩ := s
  cases hpc
  have h₁ : step dev ⟨receiver, .outside, sleeper, eventCount, signalPending⟩ .read =
      some ⟨receiver, .atLock, sleeper.enqueue, eventCount, signalPending⟩ := by
    simp only [step, show receiver.pc = .waiting from hwaiting]
    rfl
  have h₂ : step dev ⟨receiver, .atLock, sleeper.enqueue, eventCount, signalPending⟩ .run =
      some ⟨receiver, .atSetState, sleeper.enqueue, eventCount, signalPending⟩ := rfl
  have h₃ : step dev ⟨receiver, .atSetState, sleeper.enqueue, eventCount, signalPending⟩ .run =
      some ⟨receiver, .atLoad, sleeper.enqueue.mark, eventCount, signalPending⟩ := rfl
  have h₄ : step dev ⟨receiver, .atLoad, sleeper.enqueue.mark, eventCount, signalPending⟩ .run =
      some ⟨receiver, .atCopy, sleeper.enqueue.mark, receiver.event, signalPending⟩ := by
    simp only [step, advance, ReadThread.advance, if_pos (show receiver.event ≠ receiver.lastRead
      from hevent)]
    rfl
  have h₅ : step dev ⟨receiver, .atCopy, sleeper.enqueue.mark, receiver.event, signalPending⟩ .run =
      some ⟨{ receiver with lastRead := receiver.event }, .atReturn (.ok receiver.event),
        sleeper.enqueue.mark.unmark, receiver.event, signalPending⟩ := rfl
  have h₆ : step dev ⟨{ receiver with lastRead := receiver.event }, .atReturn (.ok receiver.event),
        sleeper.enqueue.mark.unmark, receiver.event, signalPending⟩ (.leave true) =
      some ⟨waited receiver receiver.event, .outside,
        sleeper.enqueue.mark.unmark.unmark.dequeue, receiver.event, false⟩ := rfl
  exact ⟨_, by rw [exec_cons h₁, exec_cons h₂, exec_cons h₃, exec_cons h₄, exec_cons h₅,
    exec_cons h₆, exec_nil], rfl, rfl⟩

/-- A step of `Receiver` is matched with the thread outside the kernel. -/
theorem matched_of_receiver {r r' : Receiver} {k : Receiver.Label}
    (hR : s.receiver = r ∧ s.thread.pc = .outside) (h : Receiver.step dev r k = some r') :
    ∃ ls t, exec (step dev) s ls = some t ∧ (t.receiver = r' ∧ t.thread.pc = .outside) ∧
      (∀ l ∈ ls, l.Restarts) ∧ ls.flatMap Label.visible = visible k := by
  obtain ⟨rfl, hpc⟩ := hR
  have hguest : ∀ k, ReceiveRead.step dev s (.receiver k) =
      (Receiver.step dev s.receiver k).map (fun r => ⟨r, s.thread⟩) →
      Receiver.step dev s.receiver k = some r' →
      ∃ ls t, exec (step dev) s ls = some t ∧ (t.receiver = r' ∧ t.thread.pc = .outside) ∧
        (∀ l ∈ ls, l.Restarts) ∧ ls.flatMap Label.visible = [k] := by
    intro k hk h
    rw [h] at hk
    exact ⟨[.receiver k], ⟨r', s.thread⟩, by rw [exec_cons hk]; rfl, ⟨rfl, hpc⟩,
      by simp [Label.Restarts], rfl⟩
  cases k with
  | receive => exact hguest .receive rfl h
  | signal => exact hguest .signal rfl h
  | put p => exact hguest (.put p) rfl h
  | deliver =>
      have hdeliver : ReceiveRead.step dev s (.receiver .deliver) =
          some ⟨r', s.thread.announce⟩ := by
        simp only [step, h, Option.map_some]
      exact ⟨[.receiver .deliver], ⟨r', s.thread.announce⟩, by rw [exec_cons hdeliver]; rfl,
        ⟨rfl, hpc⟩, by simp [Label.Restarts], rfl⟩
  | wait =>
      obtain ⟨hwaiting, hevent, rfl⟩ := Receiver.step_wait.mp h
      obtain ⟨t, ht, hreceiver, houtside⟩ := exec_wait hpc hwaiting hevent
      exact ⟨_, t, ht, ⟨hreceiver, houtside⟩, by simp [Label.Restarts], rfl⟩

/-- **`Receiver` is what `Receive` over `uio_read` does.** Where interrupted calls are
restarted, the runs of the two together are, seen at the calls, packets and interrupts,
exactly the runs of `Receiver`. -/
theorem exists_exec_iff (dev : UioHvDevice) (m : Mapping) (event : UInt32) (u : Receiver)
    (vs : List Receiver.Label) :
    (∃ ls t, (∀ l ∈ ls, l.Restarts) ∧ exec (step dev) (start m event) ls = some t ∧ abs t = u ∧
      ls.flatMap Label.visible = vs) ↔
    ∃ ks, exec (Receiver.step dev) (.start m event) ks = some u ∧ ks.flatMap visible = vs := by
  constructor
  · rintro ⟨ls, t, hrestarts, hexec, rfl, rfl⟩
    obtain ⟨ks, u, hks, ⟨_, rfl⟩, _, hseen⟩ := exec_matched
      (fun s u l t (hR : InCall s ∧ abs s = u) hl h => by
        obtain ⟨hcall, rfl⟩ := hR
        exact hcall.matched hl h)
      ⟨inCall_start m event, rfl⟩ (meets_of_forall hrestarts) hexec
    exact ⟨ks, hks, hseen⟩
  · rintro ⟨ks, hexec, rfl⟩
    obtain ⟨ls, t, hls, ⟨hreceiver, hpc⟩, hrestarts, hseen⟩ := exec_matched
      (fun r s k r' (hR : s.receiver = r ∧ s.thread.pc = .outside) (_ : True) h =>
        matched_of_receiver hR h)
      (u := start m event) ⟨rfl, rfl⟩ (meets_of_forall fun _ _ => trivial) hexec
    exact ⟨ls, t, hrestarts, hls, (abs_outside hpc).trans hreceiver, hseen⟩

/-! ### No lost wake-up -/

/-- The condition on a call of `Receive` and on a delivery, as `Receiver` has it. -/
def WaitsSafely (dev : UioHvDevice) (s : ReceiveRead) : Label → Prop
  | .receiver k => Receiver.WaitsSafely dev (abs s) k
  | _ => True

/-- The thread sleeps, no wake-up is under way, and a complete packet is readable. -/
structure Lost (dev : UioHvDevice) (s : ReceiveRead) : Prop where
  asleep : s.thread.Asleep
  inFlight : s.receiver.inFlight = 0
  readable : incomingContents dev s.receiver.mapping ≠ []

/-- The invariant of `Receiver`, and a thread that sleeps has seen the counter as it is. -/
structure Inv (dev : UioHvDevice) (s : ReceiveRead) : Prop where
  inCall : InCall s
  receiver : Receiver.Inv dev (abs s)
  sound : s.thread.Sound s.receiver.event
  compares : s.thread.Compares s.receiver.lastRead

/-- A thread that sleeps on a packet is a lost wake-up of `Receiver`. -/
theorem Inv.not_lost (H : Inv dev s) : ¬ Lost dev s := by
  rintro ⟨hasleep, hflight, hreadable⟩
  have hcompared : s.thread.pc.Compared := by rw [hasleep.1]; trivial
  have hseen := H.sound.covered.of_asleep hasleep.2 hcompared
  have habs : abs s = s.receiver := by rw [abs, hasleep.1]
  refine H.receiver.not_lost ?_
  rw [habs]
  exact ⟨H.inCall.waiting (by simp [hasleep.1]), hseen.trans (H.compares hcompared), hflight,
    hreadable⟩

/-- A thread outside the kernel relies on nothing. -/
theorem thread_outside {u : ReadThread} {event event' count : UInt32} (hpc : u.pc = .outside)
    (H : u.Sound event) : u.Sound event' ∧ u.Compares count := by
  refine ⟨⟨H.queued, H.covered.mono fun _ hcompared => ?_⟩, fun hcompared => ?_⟩
  all_goals
    rw [hpc] at hcompared
    exact hcompared.elim

/-- The part of the thread. -/
theorem Inv.thread (H : Inv dev s) (h : step dev s l = some t) :
    t.thread.Sound t.receiver.event ∧ t.thread.Compares t.receiver.lastRead := by
  obtain ⟨hcall, _, hsound, hcompares⟩ := H
  cases l with
  | receiver k =>
      cases k with
      | wait => cases h
      | receive =>
          obtain ⟨r, hr, rfl⟩ := Option.map_eq_some_iff.mp h
          have hidle := (Receiver.step_receive.mp hr).1
          exact thread_outside (hcall.outside (by simp [hidle])) hsound
      | signal =>
          obtain ⟨r, hr, rfl⟩ := Option.map_eq_some_iff.mp h
          obtain ⟨content, hpc, _⟩ := Receiver.step_signal.mp hr
          exact thread_outside (hcall.outside (by simp [hpc])) hsound
      | deliver =>
          obtain ⟨r, hr, rfl⟩ := Option.map_eq_some_iff.mp h
          obtain ⟨_, rfl⟩ := Receiver.step_deliver.mp hr
          exact ⟨hsound.announce, hcompares⟩
      | put p =>
          obtain ⟨r, hr, rfl⟩ := Option.map_eq_some_iff.mp h
          obtain ⟨m, _, rfl⟩ := Receiver.step_put.mp hr
          exact ⟨hsound, hcompares⟩
  | read =>
      simp only [step] at h
      split at h
      · obtain ⟨u, hu, rfl⟩ := Option.map_eq_some_iff.mp h
        exact ⟨hsound.call hu, hcompares.call hu⟩
      · cases h
  | run =>
      simp only [step] at h
      split at h
      · cases h
      · obtain ⟨r, hr, rfl⟩ := Option.map_eq_some_iff.mp h
        exact ⟨hsound.advance hr, hcompares.advance hr⟩
  | wake =>
      obtain ⟨u, hu, rfl⟩ := Option.map_eq_some_iff.mp h
      exact ⟨hsound.wake hu, hcompares.wake hu⟩
  | interrupt =>
      cases h
      exact ⟨hsound.signal, hcompares⟩
  | leave restart =>
      simp only [step] at h
      split at h
      · next retval hpc =>
        obtain ⟨r, hr, hrest⟩ := Option.bind_eq_some_iff.mp h
        have houtside : r.1.pc = .outside := by
          simp only [advance, ReadThread.advance, hpc] at hr
          cases hr
          rfl
        obtain ⟨hsound', hcompares'⟩ : r.1.Sound s.receiver.event ∧
            r.1.Compares s.receiver.lastRead := thread_outside houtside (hsound.advance hr)
        split at hrest
        · obtain ⟨u, hu, rfl⟩ := Option.map_eq_some_iff.mp hrest
          exact ⟨hsound'.call hu, hcompares'.call hu⟩
        · cases hrest
          exact ⟨hsound', hcompares'⟩
      · cases h

/-- Every step that waits safely keeps the invariant. -/
theorem Inv.step (H : Inv dev s) (hsafe : WaitsSafely dev s l)
    (h : ReceiveRead.step dev s l = some t) : Inv dev t := by
  obtain ⟨hsound, hcompares⟩ := H.thread h
  obtain ⟨hcall, hshown⟩ := H.inCall.step h
  refine ⟨hcall, ?_, hsound, hcompares⟩
  cases hshown with
  | visible _ hstep => exact H.receiver.step hsafe hstep
  | hidden _ hwaits =>
      rcases hwaits with hsame | hwait
      · rw [hsame]
        exact H.receiver
      · exact H.receiver.step (l := .wait) trivial hwait
  | interrupted _ hwaited =>
      obtain ⟨ps, hring, _⟩ := H.receiver
      rw [hwaited]
      refine ⟨ps, hring, fun hwaiting => ?_⟩
      cases hwaiting

/-- **No lost wake-up in the kernel.** From an empty ring, whatever the order of the steps and
whatever signals interrupt the call: where every call of `Receive` waits safely, and no delivery
during a wait brings the counter around to the value last read, the thread does not come to
sleep with a packet to read and nothing to wake it. -/
theorem not_lost_of_waits (dev : UioHvDevice) (m : Mapping) (event : UInt32)
    (hIn : (incoming dev m).In = 0) (hOut : (incoming dev m).Out = 0) (ls : List Label)
    (hsafe : Meets (step dev) (WaitsSafely dev) (start m event) ls) :
    Always (step dev) (fun s => ¬ Lost dev s) (start m event) ls := by
  have h₀ : Inv dev (start m event) :=
    ⟨inCall_start m event, ⟨[], .empty hIn hOut, fun hwait => by cases hwait⟩,
      ReadThread.sound_idle, False.elim⟩
  exact (always_of_meets (fun _ _ _ => Inv.step) h₀ hsafe).mono fun _ => Inv.not_lost

/-! ### A thread that is woken -/

/-- `WaitInterrupt` calls `read`, and the thread goes to sleep. -/
def toSleep : List Label := [.read, .run, .run, .run, .run]

/-- A wake-up comes by; the thread loads the counter again and returns with it. -/
def toReturn : List Label := [.wake, .run, .run, .run, .run, .run, .leave false]

/-- A `Receive` that sleeps until a packet comes, one that pops it, and one that sleeps. -/
def promptDelivery (p : PipePacket) : List Label :=
  .receiver .receive :: (toSleep ++ .receiver (.put p) :: .receiver .deliver ::
    (toReturn ++ .receiver .receive :: .receiver .signal :: .receiver .receive :: toSleep))

theorem exec_toSleep (dev : UioHvDevice) {r : Receiver} (hpc : r.pc = .waiting)
    (hread : r.event = r.lastRead) (count : UInt32) : exec (step dev) ⟨r, ⟨.outside, .awake, count, false⟩⟩ toSleep =
      some ⟨r, ⟨.atSchedule, ⟨true, true, 0⟩, r.event, false⟩⟩ := by
  obtain ⟨m, pc, inFlight, event, lastRead, returned, written⟩ := r
  obtain rfl : pc = .waiting := hpc
  obtain rfl : event = lastRead := hread
  simp [toSleep, exec, step, advance, ReadThread.call, ReadThread.advance, Sleeper.awake,
    Sleeper.enqueue, Sleeper.mark]

theorem exec_toReturn (dev : UioHvDevice) {r : Receiver} (hread : r.event ≠ r.lastRead)
    (count : UInt32) :
    exec (step dev) ⟨r, ⟨.atSchedule, ⟨true, true, 1⟩, count, false⟩⟩ toReturn =
      some ⟨waited r r.event, ⟨.outside, .awake, r.event, false⟩⟩ := by
  simp [toReturn, exec, step, advance, ReadThread.wake, ReadThread.advance, hread,
    Sleeper.awake, Sleeper.wake, Sleeper.mark, Sleeper.unmark, Sleeper.dequeue, receiveWaited,
    waited, waitInterrupt, Except.map]

theorem step_receiver_of {r r' : Receiver} {k : Receiver.Label} {u : ReadThread}
    (h : Receiver.step dev r k = some r') (hwait : k ≠ .wait) (hdeliver : k ≠ .deliver) :
    step dev ⟨r, u⟩ (.receiver k) = some ⟨r', u⟩ := by
  cases k <;> simp_all [step]

/-- The thread sleeps, is woken by a packet of seventeen bytes, pops it, and sleeps again. -/
theorem not_lost_woken : ∃ t,
    exec (step .defaultRings) (start (fun _ => 0) 0)
      (promptDelivery (.zeros 17 (by decide))) = some t ∧
    t.thread.Asleep ∧
    t.receiver.returned = [.ok [], .ok (PipePacket.zeros 17 (by decide)).content] ∧
    Always (step .defaultRings) (fun s => ¬ Lost .defaultRings s) (start (fun _ => 0) 0)
      (promptDelivery (.zeros 17 (by decide))) := by
  have hring : IncomingRing .defaultRings (fun _ => 0) [] := .empty rfl rfl
  generalize hp : PipePacket.zeros 17 (by decide) = p
  have hsize : p.size < 2093056 := by
    rw [← hp, PipePacket.size_zeros]
    decide
  have hcontent : p.content ≠ [] := by
    rw [← hp]
    decide
  obtain ⟨m', hring', hout, m₂, h₁, h₂, h₃, _⟩ := Receiver.late_steps p 0 hring rfl hsize
  obtain ⟨m₅, m₆, hring₆, hunmasked, h₅, h₆, h₇⟩ := Receiver.second_steps (0 + 1) hring'
    (by rw [hout]; decide) hcontent
  have hs₁ := step_receiver_of (u := ⟨.outside, .awake, 0, false⟩) h₁ nofun nofun
  have hsleep := exec_toSleep .defaultRings
    (r := ⟨fun _ => 0, .waiting, 0, 0, 0, [], []⟩) rfl rfl 0
  have hs₂ := step_receiver_of (u := ⟨.atSchedule, ⟨true, true, 0⟩, 0, false⟩) h₂ nofun nofun
  have hs₃ : step .defaultRings ⟨⟨m₂, .waiting, 1, 0, 0, [], [p.content]⟩,
      ⟨.atSchedule, ⟨true, true, 0⟩, 0, false⟩⟩ (.receiver .deliver) =
      some ⟨⟨m', .waiting, 0, 0 + 1, 0, [], [p.content]⟩,
        ⟨.atSchedule, ⟨true, true, 1⟩, 0, false⟩⟩ := by
    rw [step, h₃]
    rfl
  have hreturn := exec_toReturn .defaultRings
    (r := ⟨m', .waiting, 0, 0 + 1, 0, [], [p.content]⟩) (by simp) 0
  have hs₅ := step_receiver_of (u := ⟨.outside, .awake, 0 + 1, false⟩) h₅ nofun nofun
  have hs₆ := step_receiver_of (u := ⟨.outside, .awake, 0 + 1, false⟩) h₆ nofun nofun
  have hs₇ := step_receiver_of (u := ⟨.outside, .awake, 0 + 1, false⟩) h₇ nofun nofun
  have hagain := exec_toSleep .defaultRings (r := ⟨m₆, .waiting, 0, 0 + 1, 0 + 1,
    [.ok [], .ok p.content], [p.content]⟩) rfl rfl (0 + 1)
  refine ⟨⟨⟨m₆, .waiting, 0, 0 + 1, 0 + 1, [.ok [], .ok p.content], [p.content]⟩,
    ⟨.atSchedule, ⟨true, true, 0⟩, 0 + 1, false⟩⟩, ?_, ⟨rfl, rfl, rfl⟩, rfl,
    not_lost_of_waits .defaultRings (fun _ => 0) 0 rfl rfl _ ?_⟩
  · rw [promptDelivery, start, ReadThread.idle, exec_cons hs₁, exec_append _ hsleep,
      exec_cons hs₂, exec_cons hs₃, exec_append _ hreturn, waited, List.nil_append, exec_cons hs₅,
      exec_cons hs₆, exec_cons hs₇, hagain]
  · have hsleeps (s : ReceiveRead) : Meets (step .defaultRings) (WaitsSafely .defaultRings) s
        toSleep := meets_of_labels (by simp [toSleep, WaitsSafely])
    have hreturns (s : ReceiveRead) : Meets (step .defaultRings) (WaitsSafely .defaultRings) s
        toReturn := meets_of_labels (by simp [toReturn, WaitsSafely])
    rw [promptDelivery, start, ReadThread.idle, meets_cons hs₁, meets_append _ hsleep,
      meets_cons hs₂, meets_cons hs₃, meets_append _ hreturn, waited, List.nil_append,
      meets_cons hs₅, meets_cons hs₆, meets_cons hs₇]
    simp only [WaitsSafely, abs]
    rw [Receiver.waitsSafely_nil hring, Receiver.waitsSafely_cons hring' hcontent,
      Receiver.waitsSafely_nil hring₆]
    refine ⟨.inr rfl, hsleeps _, ?_, ?_, hreturns _, trivial, ?_, .inr hunmasked, hsleeps _⟩
    · trivial
    · intro _
      simp
    · trivial

end ReceiveRead

end HvGin
