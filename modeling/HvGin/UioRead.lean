import HvGin.Lib.WaitQueue
import HvGin.Lib.Exec
import Mathlib.Logic.Function.Basic

/-!
# `uio_read` and what wakes it

Any number of threads read the event counter of one UIO device through files that are open
on it. A read that finds nothing new sleeps until the driver's callback notifies an event,
the channel is rescinded or the device is unregistered. `uio_read` looks at the counter
after it has marked itself as about to sleep, but at `info` and `irq` before that.

So no event is slept through (`asleep_seen`). A rescind clears `irq` and then notifies, so
a read that missed the former sees the latter (`irq_of_asleep`). An unregistration clears
`info` and only wakes: a read that has looked at `info` and not marked itself yet misses
both, and `info_of_asleep` says that this is the only case.

## Main definitions

* `ReadThread.advance` — the next step of a thread in `uio_read`.
* `UioRead` — the device, the open files and the threads.
-/
namespace HvGin

open Lib

/-- The error numbers of the UIO calls. -/
inductive Errno
  | einval | eio | eagain | erestartsys | efault | enodev
  deriving DecidableEq, Repr

/-- `struct uio_device`, as far as a read looks at it: the event counter, whether `info` is
set, and whether its `irq` is. -/
structure UioDevice where
  event : UInt32
  info : Bool
  irq : Bool
  deriving DecidableEq, Repr

/-- Where a thread stands in `uio_read`. -/
inductive ReadPc
  | outside
  /-- On the wait queue, in front of the test of `info` and `irq`. -/
  | atLock
  /-- In front of `set_current_state(TASK_INTERRUPTIBLE)`. -/
  | atSetState
  /-- In front of the load of the event counter. -/
  | atLoad
  /-- The counter differs: in front of `copy_to_user`. -/
  | atCopy
  /-- It does not: in front of the tests of `O_NONBLOCK` and of pending signals. -/
  | atTests
  | atSchedule
  /-- Out of the loop, with the value to return. -/
  | atReturn (retval : Except Errno UInt32)

/-- A thread: its place, its part of the sleeping protocol, the value of the counter it
loaded last, and whether a signal is pending. -/
structure ReadThread where
  pc : ReadPc
  sleeper : Sleeper
  eventCount : UInt32
  signalPending : Bool

namespace ReadThread

/-- A thread outside `uio_read`. -/
def idle : ReadThread := ⟨.outside, .awake, 0, false⟩

/-- A call with a buffer of `size` bytes; it returns at once unless that is the size of the
counter. -/
def call (t : ReadThread) (size : ℕ) : Option ReadThread :=
  match t.pc with
  | .outside =>
      if size ≠ 4 then some t
      else some { t with pc := .atLock, sleeper := t.sleeper.enqueue }
  | _ => none

/-- The next step of a thread in `uio_read`, on a device and with the `event_count` of its
listener. The step gives that count as well. A thread that is marked stays in `schedule`. -/
def advance (device : UioDevice) (nonblock fault : Bool) (t : ReadThread) (count : UInt32) :
    Option (ReadThread × UInt32) :=
  match t.pc with
  | .outside => none
  | .atLock =>
      -- Under `info_lock`.
      if !device.info || !device.irq then some ({ t with pc := .atReturn (.error .eio) }, count)
      else some ({ t with pc := .atSetState }, count)
  | .atSetState => some ({ t with pc := .atLoad, sleeper := t.sleeper.mark }, count)
  | .atLoad =>
      some ({ t with
        pc := if device.event ≠ count then .atCopy else .atTests
        eventCount := device.event }, count)
  | .atCopy =>
      if fault then
        some ({ t with pc := .atReturn (.error .efault), sleeper := t.sleeper.unmark }, count)
      else
        some ({ t with pc := .atReturn (.ok t.eventCount), sleeper := t.sleeper.unmark },
          t.eventCount)
  | .atTests =>
      if nonblock then some ({ t with pc := .atReturn (.error .eagain) }, count)
      else if t.signalPending then some ({ t with pc := .atReturn (.error .erestartsys) }, count)
      else some ({ t with pc := .atSchedule }, count)
  | .atSchedule => if t.sleeper.interruptible then none else some ({ t with pc := .atLock }, count)
  | .atReturn _ =>
      some ({ t with
        pc := .outside, sleeper := t.sleeper.unmark.dequeue, signalPending := false }, count)

/-- A wake-up sets out. -/
def announce (t : ReadThread) : ReadThread := { t with sleeper := t.sleeper.announce }

/-- A wake-up comes by. -/
def wake (t : ReadThread) : Option ReadThread :=
  t.sleeper.wake.map fun sleeper => { t with sleeper := sleeper }

/-- A signal arrives, and wakes a thread that is marked. -/
def signal (t : ReadThread) : ReadThread :=
  { t with sleeper := t.sleeper.unmark, signalPending := true }

/-- The thread has given up the processor and nothing is on its way to it. -/
def Asleep (t : ReadThread) : Prop := t.pc = .atSchedule ∧ t.sleeper.Asleep

end ReadThread

/-- The device, the `event_count` of the listener of each open file, the threads, and how
many rescinds have cleared `irq` and not yet notified. -/
structure UioRead where
  device : UioDevice
  listener : ℕ → UInt32
  threads : ℕ → ReadThread
  rescinding : ℕ

namespace UioRead

inductive Label
  /-- A thread calls `read` with a buffer of this size. -/
  | call (i size : ℕ)
  /-- A thread takes its next step; a copy to its buffer may fault. -/
  | run (i : ℕ) (fault : Bool)
  | signal (i : ℕ)
  /-- `hv_uio_channel_cb` notifies an event: it is counted, and a wake-up sets out. -/
  | notify
  /-- A wake-up that is under way comes by a thread. -/
  | wake (i : ℕ)
  /-- `hv_uio_rescind` clears `irq`. -/
  | rescind
  /-- It goes on to notify an event. -/
  | rescindNotify
  /-- `uio_unregister_device` clears `info`, and a wake-up sets out. -/
  | unregister

/-- Which file a thread reads, and which files are open with `O_NONBLOCK`. -/
structure Files where
  file : ℕ → ℕ
  nonblock : ℕ → Bool

/-- The device is registered and its channel offered, and no thread is in `uio_read`. -/
def start (event : UInt32) (listener : ℕ → UInt32) : UioRead where
  device := ⟨event, true, true⟩
  listener := listener
  threads := fun _ => .idle
  rescinding := 0

/-- `uio_event_notify`: the event is counted, and a wake-up sets out to every thread. -/
def uioEventNotify (s : UioRead) : UioRead := { s with
  device := { s.device with event := s.device.event + 1 }
  threads := fun j => (s.threads j).announce }

/-- One thread changes. -/
def setThread (s : UioRead) (i : ℕ) (t : ReadThread) : UioRead :=
  { s with threads := Function.update s.threads i t }

variable (files : Files)

def step (s : UioRead) : Label → Option UioRead
  | .call i size => ((s.threads i).call size).map fun t => s.setThread i t
  | .run i fault =>
      ((s.threads i).advance s.device (files.nonblock (files.file i)) fault
          (s.listener (files.file i))).map fun r =>
        { s.setThread i r.1 with listener := Function.update s.listener (files.file i) r.2 }
  | .signal i => some (s.setThread i (s.threads i).signal)
  | .notify => some s.uioEventNotify
  | .wake i => (s.threads i).wake.map fun t => s.setThread i t
  | .rescind => some { s with
      device := { s.device with irq := false }, rescinding := s.rescinding + 1 }
  | .rescindNotify =>
      if s.rescinding = 0 then none
      else some { s.uioEventNotify with rescinding := s.rescinding - 1 }
  | .unregister =>
      if s.device.info then some { s with
        device := { s.device with info := false }, threads := fun j => (s.threads j).announce }
      else none

end UioRead

/-! ## What a thread may rely on -/

/-- `info` and `irq` were found set, and the thread is not marked yet, -/
def ReadPc.Checked : ReadPc → Prop
  | .atSetState => True
  | _ => False

/-- or it is, and has not compared the counter yet, -/
def ReadPc.Comparing : ReadPc → Prop
  | .atLoad => True
  | _ => False

/-- or it has, and found no difference. -/
def ReadPc.Compared : ReadPc → Prop
  | .atTests | .atSchedule => True
  | _ => False

namespace ReadThread

variable {device : UioDevice} {nonblock fault : Bool} {t t' : ReadThread} {count count' : UInt32}
  {event event' : UInt32}

/-- A thread in `uio_read` is on the queue, and one that has compared the counter is covered
against a change of it. -/
structure Sound (event : UInt32) (t : ReadThread) : Prop where
  queued : t.pc ≠ .outside → t.sleeper.queued = true
  covered : t.sleeper.Covered (t.pc.Compared → event = t.eventCount)

theorem sound_idle : idle.Sound event :=
  ⟨fun h => absurd rfl h, Sleeper.covered_of_unmarked rfl⟩

theorem Sound.call {size : ℕ} (H : t.Sound event) (h : t.call size = some t') :
    t'.Sound event := by
  unfold ReadThread.call at h
  split at h
  · split at h
    · cases h
      exact H
    · cases h
      exact ⟨fun _ => rfl, Sleeper.covered_of_queued rfl False.elim⟩
  · cases h

theorem Sound.announce (H : t.Sound event) : t.announce.Sound event' :=
  ⟨H.queued, H.covered.announce⟩

theorem Sound.signal (H : t.Sound event) : t.signal.Sound event :=
  ⟨H.queued, Sleeper.covered_of_unmarked rfl⟩

theorem Sound.wake (H : t.Sound event) (h : t.wake = some t') : t'.Sound event := by
  obtain ⟨sleeper, hw, rfl⟩ := Option.map_eq_some_iff.mp h
  refine ⟨?_, Sleeper.covered_of_unmarked (H.covered.wake hw)⟩
  intro hpc
  exact (Sleeper.queued_wake hw).1.trans (H.queued hpc)

/-- The counter is compared after the thread is marked, and that covers it. -/
theorem Sound.advance (H : t.Sound device.event)
    (h : t.advance device nonblock fault count = some (t', count')) : t'.Sound device.event := by
  have hqueued : t.pc ≠ .outside → t.sleeper.queued = true := H.queued
  cases hpc : t.pc with
  | outside => simp only [ReadThread.advance, hpc, reduceCtorEq] at h
  | atLock =>
      simp only [ReadThread.advance, hpc] at h
      split at h
      all_goals
        cases h
        exact ⟨fun _ => hqueued (by simp [hpc]), H.covered.mono fun _ => False.elim⟩
  | atSetState =>
      simp only [ReadThread.advance, hpc, Option.some.injEq, Prod.mk.injEq] at h
      obtain ⟨rfl, _⟩ := h
      exact ⟨fun _ => hqueued (by simp [hpc]),
        Sleeper.covered_of_queued (hqueued (by simp [hpc])) False.elim⟩
  | atLoad =>
      simp only [ReadThread.advance, hpc, Option.some.injEq, Prod.mk.injEq] at h
      obtain ⟨rfl, _⟩ := h
      exact ⟨fun _ => hqueued (by simp [hpc]), H.covered.mono fun _ _ => rfl⟩
  | atCopy =>
      simp only [ReadThread.advance, hpc] at h
      split at h
      all_goals
        cases h
        exact ⟨fun _ => hqueued (by simp [hpc]), Sleeper.covered_of_unmarked rfl⟩
  | atTests =>
      simp only [ReadThread.advance, hpc] at h
      have hsame : t.sleeper.Covered (device.event = t.eventCount) :=
        H.covered.mono fun h => h (by rw [hpc]; trivial)
      split_ifs at h
      all_goals
        cases h
        exact ⟨fun _ => hqueued (by simp [hpc]), hsame.mono fun h _ => h⟩
  | atSchedule =>
      simp only [ReadThread.advance, hpc] at h
      split at h
      · cases h
      · next hmarked =>
        cases h
        exact ⟨fun _ => hqueued (by simp [hpc]),
          Sleeper.covered_of_unmarked (by simpa using hmarked)⟩
  | atReturn retval =>
      simp only [ReadThread.advance, hpc, Option.some.injEq, Prod.mk.injEq] at h
      obtain ⟨rfl, _⟩ := h
      exact ⟨fun h => absurd rfl h, Sleeper.covered_of_unmarked rfl⟩

/-- What a thread has compared the counter to is the count of its listener. -/
def Compares (count : UInt32) (t : ReadThread) : Prop := t.pc.Compared → t.eventCount = count

theorem Compares.call {size : ℕ} (H : t.Compares count) (h : t.call size = some t') :
    t'.Compares count := by
  unfold ReadThread.call at h
  split at h
  · split at h
    · cases h
      exact H
    · cases h
      exact False.elim
  · cases h

theorem Compares.wake (H : t.Compares count) (h : t.wake = some t') : t'.Compares count := by
  obtain ⟨sleeper, _, rfl⟩ := Option.map_eq_some_iff.mp h
  exact H

/-- Only a comparison that finds the count of the listener leads to the tests behind it. -/
theorem Compares.advance (H : t.Compares count)
    (h : t.advance device nonblock fault count = some (t', count')) : t'.Compares count' := by
  intro hpc'
  cases hpc : t.pc with
  | outside => simp only [ReadThread.advance, hpc, reduceCtorEq] at h
  | atLock =>
      simp only [ReadThread.advance, hpc] at h
      split at h <;> cases h <;> exact hpc'.elim
  | atSetState =>
      simp only [ReadThread.advance, hpc, Option.some.injEq, Prod.mk.injEq] at h
      obtain ⟨rfl, rfl⟩ := h
      exact hpc'.elim
  | atLoad =>
      simp only [ReadThread.advance, hpc, Option.some.injEq, Prod.mk.injEq] at h
      obtain ⟨rfl, rfl⟩ := h
      by_cases hsame : device.event = count
      · exact hsame
      · simp only [ne_eq, hsame, not_false_eq_true, if_true] at hpc'
        exact hpc'.elim
  | atCopy =>
      simp only [ReadThread.advance, hpc] at h
      split at h <;> cases h <;> exact hpc'.elim
  | atTests =>
      simp only [ReadThread.advance, hpc] at h
      have hsame := H (by rw [hpc]; trivial)
      split_ifs at h <;> cases h
      · exact hpc'.elim
      · exact hpc'.elim
      · exact hsame
  | atSchedule =>
      simp only [ReadThread.advance, hpc] at h
      split at h <;> cases h
      exact hpc'.elim
  | atReturn retval =>
      simp only [ReadThread.advance, hpc, Option.some.injEq, Prod.mk.injEq] at h
      obtain ⟨rfl, _⟩ := h
      exact hpc'.elim

/-- Found set before the thread is marked, `irq` is `armed`: still set, or about to be followed
by a notification. Or else the counter has changed since. -/
structure Armed (armed : Prop) (event count : UInt32) (t : ReadThread) : Prop where
  checked : t.pc.Checked ∨ t.pc.Comparing → armed ∨ event ≠ count
  covered : t.sleeper.Covered (t.pc.Compared → armed)

variable {armed armed' : Prop}

theorem armed_idle : idle.Armed armed event count :=
  ⟨fun h => (or_self_iff.mp h).elim, Sleeper.covered_of_unmarked rfl⟩

theorem Armed.mono (harmed : armed → armed') (H : t.Armed armed event count) :
    t.Armed armed' event count :=
  ⟨fun h => (H.checked h).imp_left harmed, H.covered.mono fun h htested => harmed (h htested)⟩

theorem Armed.call {size : ℕ} (H : t.Armed armed event count) (h : t.call size = some t') :
    t'.Armed armed event count := by
  unfold ReadThread.call at h
  split at h
  · split at h
    · cases h
      exact H
    · cases h
      exact ⟨fun h => (or_self_iff.mp h).elim, Sleeper.covered_of_queued rfl False.elim⟩
  · cases h

/-- Past a notification only a thread in front of the comparison relies on the counter. -/
theorem Armed.announce (H : t.Armed armed event count)
    (hnew : t.pc.Checked ∨ t.pc.Comparing → armed' ∨ event' ≠ count) :
    t.announce.Armed armed' event' count := ⟨hnew, H.covered.announce⟩

theorem Armed.signal (H : t.Armed armed event count) : t.signal.Armed armed event count :=
  ⟨H.checked, Sleeper.covered_of_unmarked rfl⟩

theorem Armed.wake (H : t.Armed armed event count) (h : t.wake = some t') :
    t'.Armed armed event count := by
  obtain ⟨sleeper, hw, rfl⟩ := Option.map_eq_some_iff.mp h
  exact ⟨H.checked, Sleeper.covered_of_unmarked (H.covered.wake hw)⟩

/-- The test of `info` and `irq` passes when both are set. -/
theorem set_of_test (h : ¬ (!device.info || !device.irq) = true) :
    device.info = true ∧ device.irq = true := by
  simpa using h

theorem Armed.advance (H : t.Armed armed device.event count) (hsound : t.Sound device.event)
    (hirq : device.irq = true → armed)
    (h : t.advance device nonblock fault count = some (t', count')) :
    t'.Armed armed device.event count' := by
  cases hpc : t.pc with
  | outside => simp only [ReadThread.advance, hpc, reduceCtorEq] at h
  | atLock =>
      simp only [ReadThread.advance, hpc] at h
      split at h
      · cases h
        exact ⟨fun h => (or_self_iff.mp h).elim, H.covered.mono fun _ => False.elim⟩
      · next htest =>
        cases h
        exact ⟨fun _ => .inl (hirq (set_of_test htest).2), H.covered.mono fun _ => False.elim⟩
  | atSetState =>
      simp only [ReadThread.advance, hpc, Option.some.injEq, Prod.mk.injEq] at h
      obtain ⟨rfl, rfl⟩ := h
      exact ⟨fun _ => H.checked (.inl (by rw [hpc]; trivial)),
        Sleeper.covered_of_queued (hsound.queued (by simp [hpc])) False.elim⟩
  | atLoad =>
      simp only [ReadThread.advance, hpc, Option.some.injEq, Prod.mk.injEq] at h
      obtain ⟨rfl, rfl⟩ := h
      by_cases hsame : device.event = count
      · have harmed : armed :=
          (H.checked (.inr (by rw [hpc]; trivial))).resolve_right (not_not.mpr hsame)
        simp only [hsame, ne_eq, not_true_eq_false, if_false]
        exact ⟨fun h => (or_self_iff.mp h).elim, H.covered.mono fun _ _ => harmed⟩
      · simp only [ne_eq, hsame, not_false_eq_true, if_true]
        exact ⟨fun h => (or_self_iff.mp h).elim, H.covered.mono fun _ => False.elim⟩
  | atCopy =>
      simp only [ReadThread.advance, hpc] at h
      split at h
      all_goals
        cases h
        exact ⟨fun h => (or_self_iff.mp h).elim, Sleeper.covered_of_unmarked rfl⟩
  | atTests =>
      simp only [ReadThread.advance, hpc] at h
      have hsame : t.sleeper.Covered armed := H.covered.mono fun h => h (by rw [hpc]; trivial)
      split_ifs at h
      all_goals
        cases h
        exact ⟨fun h => (or_self_iff.mp h).elim, hsame.mono fun h _ => h⟩
  | atSchedule =>
      simp only [ReadThread.advance, hpc] at h
      split at h
      · cases h
      · next hmarked =>
        cases h
        exact ⟨fun h => (or_self_iff.mp h).elim,
          Sleeper.covered_of_unmarked (by simpa using hmarked)⟩
  | atReturn retval =>
      simp only [ReadThread.advance, hpc, Option.some.injEq, Prod.mk.injEq] at h
      obtain ⟨rfl, _⟩ := h
      exact ⟨fun h => (or_self_iff.mp h).elim, Sleeper.covered_of_unmarked rfl⟩

/-- A thread that has found `info` set and is not marked yet relies on it, or on a wake-up that
has not come by; from then on it is covered. -/
structure Attached (info : Prop) (t : ReadThread) : Prop where
  checked : t.pc.Checked → info ∨ 0 < t.sleeper.waking
  covered : t.sleeper.Covered (t.pc.Comparing ∨ t.pc.Compared → info)

variable {info info' : Prop}

theorem attached_idle : idle.Attached info :=
  ⟨False.elim, Sleeper.covered_of_unmarked rfl⟩

theorem Attached.call {size : ℕ} (H : t.Attached info) (h : t.call size = some t') :
    t'.Attached info := by
  unfold ReadThread.call at h
  split at h
  · split at h
    · cases h
      exact H
    · cases h
      exact ⟨False.elim, Sleeper.covered_of_queued rfl fun h => (or_self_iff.mp h).elim⟩
  · cases h

theorem Attached.announce (H : t.Attached info) : t.announce.Attached info' :=
  ⟨fun _ => .inr (Nat.succ_pos _), H.covered.announce⟩

theorem Attached.signal (H : t.Attached info) : t.signal.Attached info :=
  ⟨H.checked, Sleeper.covered_of_unmarked rfl⟩

/-- A wake-up that is not the last one under way to a thread that has looked and is not marked
yet, or comes by while `info` is set, leaves it with what it relies on. -/
theorem Attached.wake (H : t.Attached info) (hlast : t.pc.Checked → info ∨ 1 < t.sleeper.waking)
    (h : t.wake = some t') : t'.Attached info := by
  obtain ⟨sleeper, hw, rfl⟩ := Option.map_eq_some_iff.mp h
  refine ⟨?_, Sleeper.covered_of_unmarked (H.covered.wake hw)⟩
  intro hpc
  have hwaking := (Sleeper.queued_wake hw).2
  refine (hlast hpc).imp_right ?_
  intro hmore
  change 0 < sleeper.waking
  omega

theorem Attached.advance (H : t.Attached info) (hsound : t.Sound device.event)
    (hinfo : device.info = true → info)
    (h : t.advance device nonblock fault count = some (t', count')) : t'.Attached info := by
  cases hpc : t.pc with
  | outside => simp only [ReadThread.advance, hpc, reduceCtorEq] at h
  | atLock =>
      simp only [ReadThread.advance, hpc] at h
      split at h
      · cases h
        exact ⟨False.elim, H.covered.mono fun _ h => (or_self_iff.mp h).elim⟩
      · next htest =>
        cases h
        exact ⟨fun _ => .inl (hinfo (set_of_test htest).1),
          H.covered.mono fun _ h => (or_self_iff.mp h).elim⟩
  | atSetState =>
      simp only [ReadThread.advance, hpc, Option.some.injEq, Prod.mk.injEq] at h
      obtain ⟨rfl, _⟩ := h
      refine ⟨False.elim, fun _ => ⟨hsound.queued (by simp [hpc]), ?_⟩⟩
      exact (H.checked (by rw [hpc]; trivial)).imp_left fun h _ => h
  | atLoad =>
      simp only [ReadThread.advance, hpc, Option.some.injEq, Prod.mk.injEq] at h
      obtain ⟨rfl, _⟩ := h
      have hset : t.sleeper.Covered info :=
        H.covered.mono fun h => h (.inl (by rw [hpc]; trivial))
      refine ⟨?_, hset.mono fun h _ => h⟩
      intro hchecked
      change (if device.event ≠ count then ReadPc.atCopy else .atTests).Checked at hchecked
      split at hchecked <;> exact hchecked.elim
  | atCopy =>
      simp only [ReadThread.advance, hpc] at h
      split at h
      all_goals
        cases h
        exact ⟨False.elim, Sleeper.covered_of_unmarked rfl⟩
  | atTests =>
      simp only [ReadThread.advance, hpc] at h
      have hset : t.sleeper.Covered info :=
        H.covered.mono fun h => h (.inr (by rw [hpc]; trivial))
      split_ifs at h
      all_goals
        cases h
        exact ⟨False.elim, hset.mono fun h _ => h⟩
  | atSchedule =>
      simp only [ReadThread.advance, hpc] at h
      split at h
      · cases h
      · next hmarked =>
        cases h
        exact ⟨False.elim, Sleeper.covered_of_unmarked (by simpa using hmarked)⟩
  | atReturn retval =>
      simp only [ReadThread.advance, hpc, Option.some.injEq, Prod.mk.injEq] at h
      obtain ⟨rfl, _⟩ := h
      exact ⟨False.elim, Sleeper.covered_of_unmarked rfl⟩

end ReadThread

/-! ## Runs -/

namespace UioRead

/-- The thread reads a file that no other thread reads. -/
def Files.Own (files : Files) (i : ℕ) : Prop := ∀ j, files.file j = files.file i → j = i

variable {files : Files} {s t : UioRead} {l : Label} {i : ℕ}

@[simp] theorem threads_setThread_self (s : UioRead) (i : ℕ) (u : ReadThread) :
    (s.setThread i u).threads i = u := Function.update_self _ _ _

theorem threads_setThread_ne {k : ℕ} (u : ReadThread) (h : i ≠ k) :
    (s.setThread k u).threads i = s.threads i := Function.update_of_ne h _ _

/-- A rescind has not both cleared `irq` and notified. -/
def Armed (s : UioRead) : Prop := s.device.irq = true ∨ 0 < s.rescinding

/-- What a step is to one thread. -/
inductive ThreadStep (files : Files) (s t : UioRead) (i : ℕ) : Label → Prop
  /-- The thread calls. -/
  | call {size : ℕ} (hthread : (s.threads i).call size = some (t.threads i))
      (hdevice : t.device = s.device) (harmed : s.Armed → t.Armed)
      (hlistener : t.listener = s.listener) : ThreadStep files s t i (.call i size)
  /-- It takes its next step. -/
  | run {fault : Bool} (hthread : (s.threads i).advance s.device (files.nonblock (files.file i))
        fault (s.listener (files.file i)) = some (t.threads i, t.listener (files.file i)))
      (hdevice : t.device = s.device) (harmed : s.Armed → t.Armed) :
      ThreadStep files s t i (.run i fault)
  /-- It is signalled. -/
  | signal (hthread : t.threads i = (s.threads i).signal) (hdevice : t.device = s.device)
      (harmed : s.Armed → t.Armed) (hlistener : t.listener = s.listener) :
      ThreadStep files s t i (.signal i)
  /-- A wake-up comes by it. -/
  | wake (hthread : (s.threads i).wake = some (t.threads i)) (hdevice : t.device = s.device)
      (harmed : s.Armed → t.Armed) (hlistener : t.listener = s.listener) :
      ThreadStep files s t i (.wake i)
  /-- An event is notified. -/
  | notify {l : Label} (hl : l = .notify ∨ l = .rescindNotify)
      (hthread : t.threads i = (s.threads i).announce)
      (hevent : t.device.event = s.device.event + 1) (hinfo : t.device.info = s.device.info)
      (hlistener : t.listener = s.listener) : ThreadStep files s t i l
  /-- The device is unregistered. -/
  | unregister (hthread : t.threads i = (s.threads i).announce)
      (hevent : t.device.event = s.device.event) (hinfo : t.device.info = false)
      (harmed : s.Armed → t.Armed) (hlistener : t.listener = s.listener) :
      ThreadStep files s t i .unregister
  /-- Another thread moves, or `irq` is cleared. -/
  | other {l : Label} (hthread : t.threads i = s.threads i)
      (hevent : t.device.event = s.device.event) (hinfo : t.device.info = s.device.info)
      (harmed : s.Armed → t.Armed)
      (hlistener : files.Own i → t.listener (files.file i) = s.listener (files.file i)) :
      ThreadStep files s t i l

theorem threadStep (h : step files s l = some t) (i : ℕ) : ThreadStep files s t i l := by
  cases l with
  | call k size =>
      obtain ⟨u, hcall, rfl⟩ := Option.map_eq_some_iff.mp h
      by_cases hik : i = k
      · subst hik
        exact .call (by rw [hcall, threads_setThread_self]) rfl id rfl
      · exact .other (threads_setThread_ne u hik) rfl rfl id fun _ => rfl
  | run k fault =>
      obtain ⟨⟨u, count⟩, hadvance, rfl⟩ := Option.map_eq_some_iff.mp h
      by_cases hik : i = k
      · subst hik
        refine .run ?_ rfl id
        simp only [threads_setThread_self, Function.update_self]
        exact hadvance
      · refine .other (threads_setThread_ne u hik) rfl rfl id ?_
        intro hown
        exact Function.update_of_ne (fun hfile => hik (hown k hfile.symm).symm) _ _
  | signal k =>
      cases h
      by_cases hik : i = k
      · subst hik
        exact .signal (threads_setThread_self s i _) rfl id rfl
      · exact .other (threads_setThread_ne _ hik) rfl rfl id fun _ => rfl
  | notify =>
      cases h
      exact .notify (.inl rfl) rfl rfl rfl rfl
  | wake k =>
      obtain ⟨u, hwake, rfl⟩ := Option.map_eq_some_iff.mp h
      by_cases hik : i = k
      · subst hik
        exact .wake (by rw [hwake, threads_setThread_self]) rfl id rfl
      · exact .other (threads_setThread_ne u hik) rfl rfl id fun _ => rfl
  | rescind =>
      cases h
      exact .other rfl rfl rfl (fun _ => .inr (Nat.succ_pos _)) fun _ => rfl
  | rescindNotify =>
      rw [step] at h
      split at h
      · cases h
      · cases h
        exact .notify (.inr rfl) rfl rfl rfl rfl
  | unregister =>
      rw [step] at h
      split at h
      · cases h
        exact .unregister rfl rfl rfl id rfl
      · cases h

/-! ### Events -/

/-- The thread is covered against events, and with a file of its own it waits for the counter
to leave the count of the listener. -/
structure Follows (files : Files) (i : ℕ) (s : UioRead) : Prop where
  sound : (s.threads i).Sound s.device.event
  compares : files.Own i → (s.threads i).Compares (s.listener (files.file i))

theorem Follows.step (H : Follows files i s) (h : UioRead.step files s l = some t) :
    Follows files i t := by
  obtain ⟨hsound, hcompares⟩ := H
  cases threadStep h i with
  | call hthread hdevice _ hlistener =>
      constructor
      · rw [hdevice]
        exact hsound.call hthread
      · rw [hlistener]
        exact fun hown => (hcompares hown).call hthread
  | run hthread hdevice =>
      constructor
      · rw [hdevice]
        exact hsound.advance hthread
      · exact fun hown => (hcompares hown).advance hthread
  | signal hthread hdevice _ hlistener =>
      constructor
      · rw [hthread, hdevice]
        exact hsound.signal
      · rw [hthread, hlistener]
        exact hcompares
  | wake hthread hdevice _ hlistener =>
      constructor
      · rw [hdevice]
        exact hsound.wake hthread
      · rw [hlistener]
        exact fun hown => (hcompares hown).wake hthread
  | notify _ hthread _ _ hlistener =>
      constructor
      · rw [hthread]
        exact hsound.announce
      · rw [hthread, hlistener]
        exact hcompares
  | unregister hthread _ _ _ hlistener =>
      constructor
      · rw [hthread]
        exact hsound.announce
      · rw [hthread, hlistener]
        exact hcompares
  | other hthread hevent _ _ hlistener =>
      constructor
      · rw [hthread, hevent]
        exact hsound
      · intro hown
        rw [hthread, hlistener hown]
        exact hcompares hown

/-- **No event is slept through.** Whatever the threads, the driver and the host do: a thread
that has given up the processor, with no wake-up under way to it, has seen the counter as
it is; if no other thread reads its file, that is the count the file last returned. -/
theorem asleep_seen (files : Files) (event : UInt32) (listener : ℕ → UInt32) (ls : List Label) :
    Always (step files) (fun s => ∀ i, (s.threads i).Asleep →
      s.device.event = (s.threads i).eventCount ∧
      (files.Own i → s.device.event = s.listener (files.file i))) (start event listener) ls := by
  have hinv : Always (step files) (fun s => ∀ i, Follows files i s) (start event listener) ls :=
    always_of_invariant (fun s l t H h i => (H i).step h)
      fun i => ⟨ReadThread.sound_idle, fun _ => False.elim⟩
  refine hinv.mono fun s H i hasleep => ?_
  have hcompared : (s.threads i).pc.Compared := by rw [hasleep.1]; trivial
  have hseen := (H i).sound.covered.of_asleep hasleep.2 hcompared
  exact ⟨hseen, fun hown => hseen.trans ((H i).compares hown hcompared)⟩

/-! ### Rescinds -/

/-- A notification does not bring the counter around to the count of a thread that has found
`irq` set and not compared yet. -/
def NoWrap (files : Files) (i : ℕ) (s : UioRead) : Label → Prop
  | .notify | .rescindNotify => (s.threads i).pc.Checked ∨ (s.threads i).pc.Comparing →
      s.device.event + 1 ≠ s.listener (files.file i)
  | _ => True

/-- The thread is covered against rescinds. -/
structure Watches (files : Files) (i : ℕ) (s : UioRead) : Prop where
  sound : (s.threads i).Sound s.device.event
  armed : (s.threads i).Armed s.Armed s.device.event (s.listener (files.file i))

theorem Watches.step (hown : files.Own i) (H : Watches files i s) (hwrap : NoWrap files i s l)
    (h : UioRead.step files s l = some t) : Watches files i t := by
  obtain ⟨hsound, hold⟩ := H
  cases threadStep h i with
  | call hthread hdevice harmed hlistener =>
      constructor
      · rw [hdevice]
        exact hsound.call hthread
      · rw [hdevice, hlistener]
        exact (hold.call hthread).mono harmed
  | run hthread hdevice harmed =>
      constructor
      · rw [hdevice]
        exact hsound.advance hthread
      · rw [hdevice]
        exact (hold.advance hsound .inl hthread).mono harmed
  | signal hthread hdevice harmed hlistener =>
      constructor
      · rw [hthread, hdevice]
        exact hsound.signal
      · rw [hthread, hdevice, hlistener]
        exact hold.signal.mono harmed
  | wake hthread hdevice harmed hlistener =>
      constructor
      · rw [hdevice]
        exact hsound.wake hthread
      · rw [hdevice, hlistener]
        exact (hold.wake hthread).mono harmed
  | notify hl hthread hevent _ hlistener =>
      constructor
      · rw [hthread]
        exact hsound.announce
      · rw [hthread, hevent, hlistener]
        refine hold.announce fun hpc => .inr ?_
        rcases hl with rfl | rfl <;> exact hwrap hpc
  | unregister hthread hevent _ harmed hlistener =>
      constructor
      · rw [hthread]
        exact hsound.announce
      · rw [hthread, hevent, hlistener]
        exact hold.announce fun hpc => (hold.checked hpc).imp_left harmed
  | other hthread hevent _ harmed hlistener =>
      constructor
      · rw [hthread, hevent]
        exact hsound
      · rw [hthread, hevent, hlistener hown]
        exact hold.mono harmed

/-- **No rescind is slept through.** Once a rescind has cleared `irq` and notified, no thread
with a file of its own sleeps, unless a notification brings the counter to the count of the
thread's listener while the thread stands between its test of `irq` and its look at the
counter. -/
theorem irq_of_asleep (files : Files) (event : UInt32) (listener : ℕ → UInt32) (i : ℕ)
    (hown : files.Own i) (ls : List Label)
    (hwrap : Meets (step files) (NoWrap files i) (start event listener) ls) :
    Always (step files) (fun s => (s.threads i).Asleep → s.device.irq = true ∨ 0 < s.rescinding)
      (start event listener) ls := by
  have hinv : Always (step files) (Watches files i) (start event listener) ls :=
    always_of_meets (fun s l t H hok h => H.step hown hok h)
      ⟨ReadThread.sound_idle, ReadThread.armed_idle⟩ hwrap
  refine hinv.mono fun s H hasleep => ?_
  exact H.armed.covered.of_asleep hasleep.2 (by rw [hasleep.1]; trivial)

/-- Every thread reads a blocking file of its own. -/
def ownFiles : Files := ⟨id, fun _ => false⟩

/-- A read that has looked at `irq` before a rescind cleared it. -/
theorem irq_of_asleep_late_rescind :
    Always (step ownFiles) (fun s => (s.threads 0).Asleep → s.device.irq = true ∨ 0 < s.rescinding)
      (start 0 fun _ => 0)
      [.call 0 4, .run 0 false, .rescind, .rescindNotify, .wake 0, .run 0 false, .run 0 false] := by
  refine irq_of_asleep ownFiles 0 (fun _ => 0) 0 (fun j h => h) _ ?_
  refine (meets_cons rfl).mpr ⟨trivial, (meets_cons rfl).mpr ⟨trivial, (meets_cons rfl).mpr
    ⟨trivial, (meets_cons rfl).mpr ⟨fun _ => ?_, (meets_cons rfl).mpr ⟨trivial, (meets_cons rfl).mpr
      ⟨trivial, (meets_cons rfl).mpr ⟨trivial, trivial⟩⟩⟩⟩⟩⟩⟩
  change (0 + 1 : UInt32) ≠ 0
  decide

/-! ### Unregistration -/

/-- The last wake-up under way to a thread does not come by it after an unregistration, while
it stands between its test of `info` and its mark. -/
def KeepsWake (i : ℕ) (s : UioRead) : Label → Prop
  | .wake k => k = i → (s.threads i).pc.Checked →
      s.device.info = true ∨ 1 < (s.threads i).sleeper.waking
  | _ => True

/-- The thread is covered against an unregistration. -/
structure Holds (i : ℕ) (s : UioRead) : Prop where
  sound : (s.threads i).Sound s.device.event
  attached : (s.threads i).Attached (s.device.info = true)

theorem Holds.step (H : Holds i s) (hkeeps : KeepsWake i s l)
    (h : UioRead.step files s l = some t) : Holds i t := by
  obtain ⟨hsound, hold⟩ := H
  cases threadStep h i with
  | call hthread hdevice _ _ =>
      rw [← hdevice] at hsound hold
      exact ⟨hsound.call hthread, hold.call hthread⟩
  | run hthread hdevice _ =>
      constructor
      · rw [hdevice]
        exact hsound.advance hthread
      · rw [hdevice]
        exact hold.advance hsound id hthread
  | signal hthread hdevice _ _ =>
      constructor
      · rw [hthread, hdevice]
        exact hsound.signal
      · rw [hthread, hdevice]
        exact hold.signal
  | wake hthread hdevice _ _ =>
      rw [← hdevice] at hsound hold
      refine ⟨hsound.wake hthread, hold.wake ?_ hthread⟩
      rw [hdevice]
      exact hkeeps rfl
  | notify _ hthread _ hinfo _ =>
      constructor
      · rw [hthread]
        exact hsound.announce
      · rw [hthread]
        exact hold.announce
  | unregister hthread _ _ _ _ =>
      constructor
      · rw [hthread]
        exact hsound.announce
      · rw [hthread]
        exact hold.announce
  | other hthread hevent hinfo _ _ =>
      constructor
      · rw [hthread, hevent]
        exact hsound
      · rw [hthread, hinfo]
        exact hold

/-- A thread asleep on an unregistered device stays so: only an event or a signal wakes it. -/
theorem asleep_stays (hinfo : s.device.info = false) (hasleep : (s.threads i).Asleep)
    (hl : l ≠ .notify ∧ l ≠ .rescindNotify ∧ l ≠ .signal i) (h : step files s l = some t) :
    t.device.info = false ∧ (t.threads i).Asleep := by
  obtain ⟨hpc, hmarked, hnone⟩ := hasleep
  cases threadStep h i with
  | call hthread =>
      simp only [ReadThread.call, hpc, reduceCtorEq] at hthread
  | run hthread =>
      simp only [ReadThread.advance, hpc, hmarked, if_true, reduceCtorEq] at hthread
  | signal => exact absurd rfl hl.2.2
  | wake hthread =>
      obtain ⟨sleeper, hw, _⟩ := Option.map_eq_some_iff.mp hthread
      have := (Sleeper.queued_wake hw).2
      omega
  | notify hnotify => exact absurd hnotify (not_or.mpr ⟨hl.1, hl.2.1⟩)
  | unregister =>
      rw [step, hinfo] at h
      cases h
  | other hthread _ hsame =>
      rw [hthread, hsame]
      exact ⟨hinfo, hpc, hmarked, hnone⟩

/-- A step that leaves the listener alone changes the thread only. -/
theorem step_run {fault : Bool} {u : ReadThread}
    (h : (s.threads i).advance s.device (files.nonblock (files.file i)) fault
      (s.listener (files.file i)) = some (u, s.listener (files.file i))) :
    step files s (.run i fault) = some (s.setThread i u) := by
  rw [step, h, Option.map_some, Function.update_eq_self]
  rfl

/-- Between the mark and `schedule` a thread that finds nothing new on a blocking file, and no
signal, goes to sleep. -/
theorem exec_sleep {sleeper : Sleeper} {count : UInt32}
    (hthread : s.threads i = ⟨.atSetState, sleeper, count, false⟩)
    (hblock : files.nonblock (files.file i) = false)
    (hevent : s.device.event = s.listener (files.file i)) :
    exec (step files) s [.run i false, .run i false, .run i false] =
      some (s.setThread i ⟨.atSchedule, sleeper.mark, s.device.event, false⟩) := by
  have hmark : step files s (.run i false) =
      some (s.setThread i ⟨.atLoad, sleeper.mark, count, false⟩) := step_run (by rw [hthread]; rfl)
  have hload : step files (s.setThread i ⟨.atLoad, sleeper.mark, count, false⟩) (.run i false) =
      some (s.setThread i ⟨.atTests, sleeper.mark, s.device.event, false⟩) := by
    rw [step_run (u := ⟨.atTests, sleeper.mark, s.device.event, false⟩)]
    · simp only [setThread, Function.update_idem]
    · rw [threads_setThread_self, ReadThread.advance]
      simp [setThread, hevent]
  have htests : step files (s.setThread i ⟨.atTests, sleeper.mark, s.device.event, false⟩)
      (.run i false) = some (s.setThread i ⟨.atSchedule, sleeper.mark, s.device.event, false⟩) := by
    rw [step_run (u := ⟨.atSchedule, sleeper.mark, s.device.event, false⟩)]
    · simp only [setThread, Function.update_idem]
    · rw [threads_setThread_self, ReadThread.advance]
      simp [hblock]
  rw [exec_cons hmark, exec_cons hload, exec_cons htests, exec_nil]

/-- **Sleeping through an unregistration.** A thread that sleeps on an unregistered device has
missed the last wake-up while it stood between its test of `info` and its mark. From there,
with a blocking file, nothing to read, no signal pending and no wake-up under way, an
unregistration puts it to sleep until an event or a signal. -/
theorem info_of_asleep (files : Files) (i : ℕ) :
    (∀ event listener ls, Meets (step files) (KeepsWake i) (start event listener) ls →
      Always (step files) (fun s => (s.threads i).Asleep → s.device.info = true)
        (start event listener) ls) ∧
    ∀ (s : UioRead) (count : UInt32), s.threads i = ⟨.atSetState, ⟨false, true, 0⟩, count, false⟩ →
      files.nonblock (files.file i) = false → s.device.info = true →
      s.device.event = s.listener (files.file i) →
      ∃ t, exec (step files) s [.unregister, .wake i, .run i false, .run i false, .run i false] =
          some t ∧
        ∀ ls, (∀ l ∈ ls, l ≠ .notify ∧ l ≠ .rescindNotify ∧ l ≠ .signal i) →
          Always (step files) (fun u => u.device.info = false ∧ (u.threads i).Asleep) t ls := by
  constructor
  · intro event listener ls hkeeps
    have hinv : Always (step files) (Holds i) (start event listener) ls :=
      always_of_meets (fun s l t H hok h => H.step hok h)
        ⟨ReadThread.sound_idle, ReadThread.attached_idle⟩ hkeeps
    refine hinv.mono fun s H hasleep => ?_
    exact H.attached.covered.of_asleep hasleep.2 (.inr (by rw [hasleep.1]; trivial))
  · intro s count hthread hblock hinfo hevent
    obtain ⟨t, hunregister, ht⟩ : ∃ t, step files s .unregister = some t ∧
        t = { s with
          device := { s.device with info := false }
          threads := fun j => (s.threads j).announce } := ⟨_, by rw [step, if_pos hinfo], rfl⟩
    have hcalled : t.threads i = ⟨.atSetState, ⟨false, true, 1⟩, count, false⟩ := by
      rw [ht]
      change (s.threads i).announce = _
      rw [hthread]
      rfl
    have hwake : step files t (.wake i) =
        some (t.setThread i ⟨.atSetState, ⟨false, true, 0⟩, count, false⟩) := by
      rw [step, hcalled]
      rfl
    have hsleep := exec_sleep (s := t.setThread i ⟨.atSetState, ⟨false, true, 0⟩, count, false⟩)
      (threads_setThread_self t i _) hblock (by rw [ht]; exact hevent)
    refine ⟨_, by rw [exec_cons hunregister, exec_cons hwake, hsleep], fun ls hls => ?_⟩
    refine always_of_meets (fun u l v hu hl h => asleep_stays hu.1 hu.2 hl h) ?_
      (meets_of_forall hls)
    rw [threads_setThread_self]
    exact ⟨by rw [ht]; rfl, rfl, rfl, rfl⟩

/-- A read that has looked at `info` and is not marked yet, on a fresh device. -/
theorem info_of_asleep_fresh : ∃ t, exec (step ownFiles) (start 0 fun _ => 0)
      [.call 0 4, .run 0 false, .unregister, .wake 0, .run 0 false, .run 0 false, .run 0 false] =
        some t ∧ t.device.info = false ∧ (t.threads 0).Asleep := by
  obtain ⟨t, hexec, hasleep⟩ := (info_of_asleep ownFiles 0).2
    ((start 0 fun _ => 0).setThread 0 ⟨.atSetState, ⟨false, true, 0⟩, 0, false⟩) 0
    (threads_setThread_self _ _ _) rfl rfl rfl
  refine ⟨t, ?_, (hasleep [] (by simp)).here⟩
  rw [← hexec]
  have hcall : step ownFiles (start 0 fun _ => 0) (.call 0 4) =
      some ((start 0 fun _ => 0).setThread 0 ⟨.atLock, ⟨false, true, 0⟩, 0, false⟩) := rfl
  have hcheck : step ownFiles
      ((start 0 fun _ => 0).setThread 0 ⟨.atLock, ⟨false, true, 0⟩, 0, false⟩) (.run 0 false) =
      some ((start 0 fun _ => 0).setThread 0 ⟨.atSetState, ⟨false, true, 0⟩, 0, false⟩) := by
    rw [step_run (u := ⟨.atSetState, ⟨false, true, 0⟩, 0, false⟩)]
    · simp only [setThread, Function.update_idem]
    · rw [threads_setThread_self]
      rfl
  rw [exec_cons hcall, exec_cons hcheck]

end UioRead

end HvGin
