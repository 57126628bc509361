import HvGin.Lib.Window
import Mathlib.Tactic.IntervalCases

/-!
# First-in first-out queues of frames in a circular buffer

The abstract value of a circular byte buffer is the list of frames a reader will
meet. `Holds s D out frames` says that the cells from `out` on, modulo the
capacity `D`, spell these frames one after the other. A writer appends a frame
where the last one ends (`Holds.enqueue`), a reader drops the first one
(`Holds.dequeue`), and neither needs to know where the buffer wraps.

`Ring` adds the two indices of a ring buffer, which are all that reader and
writer share: as long as the frames take less than the capacity, the distance
between the indices is the room they take (`Ring.distance_eq`), so the reader
sees exactly the frames.
-/
namespace HvGin.Lib

variable {α : Type*}

/-- The number of cells a list of frames takes. -/
def used (frames : List (List α)) : ℕ := frames.flatten.length

@[simp] theorem used_nil : used ([] : List (List α)) = 0 := rfl
@[simp] theorem used_cons (x : List α) (frames : List (List α)) :
    used (x :: frames) = x.length + used frames := by simp [used]
@[simp] theorem used_append (frames frames' : List (List α)) :
    used (frames ++ frames') = used frames + used frames' := by simp [used]

/-- The cells from `out` on, modulo `D`, spell the frames. -/
def Holds (s : ℕ → α) (D out : ℕ) (frames : List (List α)) : Prop :=
  window s D out (used frames) = frames.flatten

namespace Holds

variable {s t : ℕ → α} {D out : ℕ} {x : List α} {frames : List (List α)}

@[simp] theorem nil : Holds s D out [] := rfl

/-- A frame placed where the queue ends joins it at the back. -/
theorem enqueue (H : Holds s D out frames) (hD : 0 < D) {p : ℕ} (P : Placed s t D p x)
    (hp : p % D = (out + used frames) % D) (hroom : used frames + x.length ≤ D) :
    Holds t D out (frames ++ [x]) := by
  have hold : window t D out (used frames) = window s D out (used frames) :=
    P.window_before hD hp hroom
  have hnew : window t D (out + used frames) x.length = x := by
    rw [← window_start_congr hp, P.window_self]
  rw [Holds, used_append, window_append, hold, H]
  simp [hnew]

/-- Past the first frame the rest of the queue begins. -/
theorem dequeue (H : Holds s D out (x :: frames)) {q : ℕ} (hq : q % D = (out + x.length) % D) :
    Holds s D q frames := by
  have h := congrArg (List.drop x.length) H
  rw [drop_window _ _ _ _ _ (by simp), List.flatten_cons, List.drop_left' rfl, used_cons,
    Nat.add_sub_cancel_left] at h
  rw [Holds, window_start_congr hq, h]

/-- Only the cells of the buffer matter. -/
theorem congr (H : Holds s D out frames) (hD : 0 < D) (h : ∀ a, a < D → t a = s a) :
    Holds t D out frames := by
  rw [Holds, ← H]
  exact window_congr fun i _ => h _ (Nat.mod_lt _ hD)

end Holds

/-- A ring buffer with a write index and a read index, both up to multiples of the
capacity, that holds the frames. One cell at least stays free. -/
structure Ring (s : ℕ → α) (D In Out : ℕ) (frames : List (List α)) : Prop where
  holds : Holds s D Out frames
  in_mod : In % D = (Out + used frames) % D
  used_lt : used frames < D

namespace Ring

variable {s t : ℕ → α} {D In Out : ℕ} {x : List α} {frames : List (List α)}

theorem empty (hD : 0 < D) (h : In % D = Out % D) : Ring s D In Out [] where
  holds := .nil
  in_mod := h
  used_lt := hD

/-- The distance between the indices is the room the frames take. -/
theorem distance_eq (R : Ring s D In Out frames) : distance D In Out = used frames :=
  Lib.distance_eq R.used_lt R.in_mod

/-- A reader that trusts the indices sees the frames. -/
theorem window_distance (R : Ring s D In Out frames) :
    window s D Out (distance D In Out) = frames.flatten := by
  rw [R.distance_eq]
  exact R.holds

/-- Indices up to the capacity are the room of the frames apart, up to one capacity. -/
theorem index_cases (R : Ring s D In Out frames) (hIn : In ≤ D) (hOut : Out ≤ D) :
    In = Out + used frames ∨ In + D = Out + used frames ∨ In = Out + used frames + D := by
  have hlt := R.used_lt
  have hi := Nat.div_add_mod In D
  have ho := Nat.div_add_mod (Out + used frames) D
  have hi₁ : In / D ≤ 1 := Nat.lt_succ_iff.mp (Nat.div_lt_of_lt_mul (by omega))
  have ho₁ : (Out + used frames) / D ≤ 1 :=
    Nat.lt_succ_iff.mp (Nat.div_lt_of_lt_mul (by omega))
  rw [R.in_mod] at hi
  interval_cases In / D <;> interval_cases (Out + used frames) / D <;> omega

/-- A frame placed at the write index joins the ring at the back. -/
theorem enqueue (R : Ring s D In Out frames) (P : Placed s t D In x)
    (hroom : used frames + x.length < D) {q : ℕ} (hq : q % D = (In + x.length) % D) :
    Ring t D q Out (frames ++ [x]) where
  holds := R.holds.enqueue (by omega) P R.in_mod hroom.le
  in_mod := by
    rw [hq, Nat.add_mod, R.in_mod, ← Nat.add_mod, used_append, used_cons, used_nil, Nat.add_assoc,
      Nat.add_zero]
  used_lt := by simpa using hroom

/-- A read index moved past the first frame drops it. -/
theorem dequeue (R : Ring s D In Out (x :: frames)) {q : ℕ} (hq : q % D = (Out + x.length) % D) :
    Ring s D In q frames where
  holds := R.holds.dequeue hq
  in_mod := by
    rw [R.in_mod, used_cons, ← Nat.add_assoc, Nat.add_mod, ← hq, ← Nat.add_mod]
  used_lt := by
    have := R.used_lt
    rw [used_cons] at this
    omega

theorem congr (R : Ring s D In Out frames) (h : ∀ a, a < D → t a = s a) :
    Ring t D In Out frames where
  holds := R.holds.congr (by have := R.used_lt; omega) h
  in_mod := R.in_mod
  used_lt := R.used_lt

end Ring

end HvGin.Lib
