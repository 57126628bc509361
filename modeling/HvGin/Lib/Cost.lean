import HvGin.Lib.Exec
import Mathlib.Data.Nat.Basic

/-!
# The cost of a run

Each step of a system has a cost, which may depend on the state and the label. A bound on
the cost of a whole run comes from a credit: if every step is paid for by the credit it
gives up and by what it earns, then so is every run (`cost_add_le`).
-/
namespace HvGin.Lib

variable {σ ι : Type*} (step : σ → ι → Option σ) (f : σ → ι → ℕ)

/-- The cost of a schedule, up to the first step that is not enabled. -/
def cost : σ → List ι → ℕ
  | _, [] => 0
  | s, l :: ls => f s l + (step s l).elim 0 fun t => cost t ls

variable {step f} {g : σ → ι → ℕ} {P : ℕ → σ → Prop} {s t : σ} {l : ι} {ls : List ι} {n : ℕ}

@[simp] theorem cost_nil : cost step f s [] = 0 := rfl

theorem cost_cons (h : step s l = some t) :
    cost step f s (l :: ls) = f s l + cost step f t ls := by
  rw [cost, h, Option.elim_some]

/-- The cost of a run in two parts. -/
theorem cost_append (ls' : List ι) (h : exec step s ls = some t) :
    cost step f s (ls ++ ls') = cost step f s ls + cost step f t ls' := by
  induction ls generalizing s with
  | nil =>
      cases h
      rw [List.nil_append, cost_nil, Nat.zero_add]
  | cons l ls ih =>
      obtain ⟨u, hu, ht⟩ := Option.bind_eq_some_iff.mp h
      rw [List.cons_append, cost_cons hu, cost_cons hu, ih ht, Nat.add_assoc]

/-- Labels that are free in every state. -/
theorem cost_of_labels (h : ∀ l ∈ ls, ∀ s, f s l = 0) : cost step f s ls = 0 := by
  induction ls generalizing s with
  | nil => rfl
  | cons l ls ih =>
      rw [List.forall_mem_cons] at h
      rw [cost, h.1, Nat.zero_add]
      cases step s l with
      | none => rfl
      | some t => exact ih h.2

theorem cost_zero : cost step (fun _ _ => 0) s ls = 0 := cost_of_labels fun _ _ _ => rfl

/-- `P n` says that a state has credit `n`. -/
theorem cost_add_le
    (hstep : ∀ n s l t, P n s → step s l = some t → ∃ n', P n' t ∧ f s l + n' ≤ g s l + n)
    (h₀ : P n s) (h : exec step s ls = some t) :
    ∃ n', P n' t ∧ cost step f s ls + n' ≤ cost step g s ls + n := by
  induction ls generalizing s n with
  | nil =>
      cases h
      exact ⟨n, h₀, le_rfl⟩
  | cons l ls ih =>
      obtain ⟨u, hu, ht⟩ := Option.bind_eq_some_iff.mp h
      obtain ⟨n', hn', hle⟩ := hstep n s l u h₀ hu
      obtain ⟨n'', hn'', hle'⟩ := ih hn' ht
      refine ⟨n'', hn'', ?_⟩
      rw [cost_cons hu, cost_cons hu]
      omega

/-- Where nothing is earned, the credit bounds the cost. -/
theorem cost_add_le_credit
    (hstep : ∀ n s l t, P n s → step s l = some t → ∃ n', P n' t ∧ f s l + n' ≤ n)
    (h₀ : P n s) (h : exec step s ls = some t) : ∃ n', P n' t ∧ cost step f s ls + n' ≤ n := by
  have hfree : ∀ n s l t, P n s → step s l = some t → ∃ n', P n' t ∧ f s l + n' ≤ 0 + n := by
    simpa only [Nat.zero_add] using hstep
  obtain ⟨n', hn', hle⟩ := cost_add_le (g := fun _ _ => 0) hfree h₀ h
  rw [cost_zero, Nat.zero_add] at hle
  exact ⟨n', hn', hle⟩

end HvGin.Lib
