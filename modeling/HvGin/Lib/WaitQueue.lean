import Mathlib.Tactic.Common

/-!
# Going to sleep without missing the wake-up

A thread that is to sleep until something happens puts itself on a queue, marks itself as
about to sleep, looks, and only then gives up the processor. Whoever makes it happen does so
first and then wakes the queue: the wake-up sets out, and some time later it comes by each
thread and unmarks those on the queue. A thread gives up the processor only if it is still
marked.

`Covered P` is what a marked thread may rely on after it has looked and seen `P`: `P` still
holds, or a wake-up is under way to it. Every change of what it looks at must announce one,
and it does not matter when the wake-up arrives.
-/
namespace HvGin.Lib

/-- A thread's part in the protocol: whether it is marked as about to sleep, whether it is on
the queue, and how many wake-ups have set out and not yet come by it. -/
structure Sleeper where
  interruptible : Bool
  queued : Bool
  waking : ℕ
  deriving DecidableEq, Repr

namespace Sleeper

/-- Neither queued nor marked, and nothing under way. -/
def awake : Sleeper := ⟨false, false, 0⟩

def enqueue (w : Sleeper) : Sleeper := { w with queued := true }
def dequeue (w : Sleeper) : Sleeper := { w with queued := false }
def mark (w : Sleeper) : Sleeper := { w with interruptible := true }
def unmark (w : Sleeper) : Sleeper := { w with interruptible := false }

/-- A wake-up of the queue sets out. -/
def announce (w : Sleeper) : Sleeper := { w with waking := w.waking + 1 }

/-- A wake-up comes by, and unmarks the thread if it is on the queue. -/
def wake (w : Sleeper) : Option Sleeper :=
  if w.waking = 0 then none
  else some { w with interruptible := w.interruptible && !w.queued, waking := w.waking - 1 }

/-- A marked thread with no wake-up under way: if it gives up the processor, it stays so. -/
def Asleep (w : Sleeper) : Prop := w.interruptible = true ∧ w.waking = 0

/-- If the thread is marked it is on the queue, and `P` holds or a wake-up is under way. -/
def Covered (P : Prop) (w : Sleeper) : Prop :=
  w.interruptible = true → w.queued = true ∧ (P ∨ 0 < w.waking)

variable {P Q : Prop} {w w' : Sleeper}

theorem Covered.mono (hPQ : P → Q) (h : w.Covered P) : w.Covered Q := by
  intro hmarked
  obtain ⟨hqueued, hP⟩ := h hmarked
  exact ⟨hqueued, hP.imp_left hPQ⟩

/-- Past an announcement the thread is covered, whatever has changed. -/
theorem Covered.announce (h : w.Covered P) : w.announce.Covered Q := by
  intro hmarked
  exact ⟨(h hmarked).1, .inr (Nat.succ_pos _)⟩

/-- A wake-up that comes by unmarks a covered thread. -/
theorem Covered.wake (h : w.Covered P) (hw : w.wake = some w') : w'.interruptible = false := by
  simp only [Sleeper.wake] at hw
  split at hw
  · cases hw
  · cases hw
    cases hmarked : w.interruptible
    · rfl
    · simp [(h hmarked).1]

theorem covered_of_unmarked (h : w.interruptible = false) : w.Covered P := by
  intro hmarked
  rw [h] at hmarked
  cases hmarked

/-- What a thread sees after it is marked covers it. -/
theorem covered_of_queued (hqueued : w.queued = true) (hP : P) : w.Covered P :=
  fun _ => ⟨hqueued, .inl hP⟩

/-- What a thread asleep saw is still so. -/
theorem Covered.of_asleep (h : w.Covered P) (hw : w.Asleep) : P := by
  obtain ⟨hmarked, hnone⟩ := hw
  rcases (h hmarked).2 with hP | hwaking
  · exact hP
  · omega

theorem queued_wake (hw : w.wake = some w') : w'.queued = w.queued ∧ w.waking = w'.waking + 1 := by
  simp only [Sleeper.wake] at hw
  split at hw
  · cases hw
  · cases hw
    exact ⟨rfl, by simp only; omega⟩

end Sleeper

end HvGin.Lib
