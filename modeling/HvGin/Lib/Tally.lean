import Mathlib.Data.Set.Card

/-!
# Counting the holders of a resource

Any number of holders are each in some state; a counter is to say how many of them are in a
state that satisfies `P`. `Tally P f n` says that it does, and the lemmas say what the
counter has to become when one holder changes its state. A counter that is right is positive
exactly while there is such a holder, which is what reference counting relies on.
-/
namespace HvGin.Lib

variable {ι α : Type*} {P : α → Prop} {f : ι → α} {n : ℕ} {i : ι} {x : α}

/-- Exactly `n` of the holders are in a state that satisfies `P`. -/
def Tally (P : α → Prop) (f : ι → α) (n : ℕ) : Prop := {i | P (f i)}.encard = n

theorem tally_zero : Tally P f 0 ↔ ∀ i, ¬ P (f i) := by
  rw [Tally, Nat.cast_zero, Set.encard_eq_zero, Set.eq_empty_iff_forall_notMem]
  rfl

theorem Tally.pos_iff (h : Tally P f n) : 0 < n ↔ ∃ i, P (f i) := by
  constructor
  · intro hpos
    by_contra hnone
    have hzero : Tally P f 0 := tally_zero.mpr (not_exists.mp hnone)
    have heq : (n : ℕ∞) = (0 : ℕ) := h.symm.trans hzero
    rw [Nat.cast_inj] at heq
    omega
  · rintro ⟨i, hi⟩
    by_contra hzero
    obtain rfl : n = 0 := by omega
    exact tally_zero.mp h i hi

theorem Tally.pos (h : Tally P f n) (hi : P (f i)) : 0 < n := h.pos_iff.mpr ⟨i, hi⟩

/-- The number is determined. -/
theorem Tally.unique {m : ℕ} (h : Tally P f n) (h' : Tally P f m) : n = m :=
  Nat.cast_inj.mp (h.symm.trans h')

variable [DecidableEq ι]

/-- One holder more. -/
theorem Tally.enter (h : Tally P f n) (hi : ¬ P (f i)) (hx : P x) :
    Tally P (Function.update f i x) (n + 1) := by
  have hset : {j | P (Function.update f i x j)} = insert i {j | P (f j)} := by
    ext j
    by_cases hj : j = i
    · subst hj
      simp [hx]
    · simp [hj]
  rw [Tally, hset, Set.encard_insert_of_notMem (by simpa using hi), h, Nat.cast_succ]

/-- One holder less. -/
theorem Tally.leave (h : Tally P f n) (hi : P (f i)) (hx : ¬ P x) :
    Tally P (Function.update f i x) (n - 1) := by
  have hset : {j | P (Function.update f i x j)} = {j | P (f j)} \ {i} := by
    ext j
    by_cases hj : j = i
    · subst hj
      simp [hx]
    · simp [hj]
  rw [Tally, hset, Set.encard_sdiff_singleton_of_mem (by simpa using hi), h]
  exact (ENat.natCast_sub n 1).symm

/-- A change of state that `P` does not see. -/
theorem Tally.stay (h : Tally P f n) (hx : P x ↔ P (f i)) : Tally P (Function.update f i x) n := by
  have hset : {j | P (Function.update f i x j)} = {j | P (f j)} := by
    ext j
    by_cases hj : j = i
    · subst hj
      simp [hx]
    · simp [hj]
  rw [Tally, hset, h]

end HvGin.Lib
