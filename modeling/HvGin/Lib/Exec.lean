import Mathlib.Tactic.Common
import Mathlib.Tactic.Tauto

/-!
# Runs of a labelled transition system

A system is a partial step function on states, driven by labels; what the
environment chooses is in the label. A list of labels is a schedule. `Meets` says
that a condition on (state, label) holds of every step a schedule takes, `Always`
that a predicate holds of every state it passes through. A step that is not
enabled ends the run.

The two rules are the ones every system here uses: an invariant preserved by the
steps that meet a condition holds along every run that meets it
(`always_of_meets`), and where breaking the condition is what breaks a property
of the step, the runs with the property are exactly the runs that meet the
condition (`meets_iff`).
-/
namespace HvGin.Lib

variable {σ ι : Type*} (step : σ → ι → Option σ)

/-- Run a whole schedule; `none` if some step is not enabled. -/
def exec : σ → List ι → Option σ
  | s, [] => some s
  | s, l :: ls => (step s l).bind fun t => exec t ls

/-- Every step the schedule takes from `s` satisfies the condition. -/
def Meets (ok : σ → ι → Prop) : σ → List ι → Prop
  | _, [] => True
  | s, l :: ls => ∀ t, step s l = some t → ok s l ∧ Meets ok t ls

/-- Every state the schedule passes through from `s`, itself included, satisfies
the predicate. -/
def Always (P : σ → Prop) : σ → List ι → Prop
  | s, [] => P s
  | s, l :: ls => P s ∧ ∀ t, step s l = some t → Always P t ls

variable {step} {ok ok' : σ → ι → Prop} {Inv P : σ → Prop} {s t : σ} {l : ι} {ls : List ι}

@[simp] theorem exec_nil : exec step s [] = some s := rfl

theorem exec_cons (h : step s l = some t) : exec step s (l :: ls) = exec step t ls := by
  simp [exec, h]

theorem exec_append (ls' : List ι) (h : exec step s ls = some t) :
    exec step s (ls ++ ls') = exec step t ls' := by
  induction ls generalizing s with
  | nil => cases h; rfl
  | cons l ls ih =>
      obtain ⟨u, hu, ht⟩ := Option.bind_eq_some_iff.mp h
      rw [List.cons_append, exec_cons hu, ih ht]

theorem Always.here (H : Always step P s ls) : P s := by
  cases ls with
  | nil => exact H
  | cons l ls => exact H.1

/-- A property along a run holds where the run ends. -/
theorem Always.exec (H : Always step P s ls) (h : exec step s ls = some t) : P t := by
  induction ls generalizing s with
  | nil => cases h; exact H
  | cons l ls ih =>
      obtain ⟨u, hu, ht⟩ := Option.bind_eq_some_iff.mp h
      exact ih (H.2 u hu) ht

theorem Always.mono (hP : ∀ s, P s → Inv s) (H : Always step P s ls) : Always step Inv s ls := by
  induction ls generalizing s with
  | nil => exact hP s H
  | cons l ls ih => exact ⟨hP s H.1, fun t ht => ih (H.2 t ht)⟩

/-- What every step keeps holds where a run ends. -/
theorem exec_invariant (hstep : ∀ s l t, Inv s → step s l = some t → Inv t) (h₀ : Inv s)
    (h : exec step s ls = some t) : Inv t := by
  induction ls generalizing s with
  | nil => cases h; exact h₀
  | cons l ls ih =>
      obtain ⟨u, hu, ht⟩ := Option.bind_eq_some_iff.mp h
      exact ih (hstep s l u h₀ hu) ht

/-- Where an invariant gives every step the condition, every run meets it. -/
theorem meets_of_invariant (hstep : ∀ s l t, Inv s → step s l = some t → ok s l ∧ Inv t)
    (h₀ : Inv s) : Meets step ok s ls := by
  induction ls generalizing s with
  | nil => trivial
  | cons l ls ih => exact fun t ht => ⟨(hstep s l t h₀ ht).1, ih (hstep s l t h₀ ht).2⟩

/-- The condition holds along a run whose first step is taken, if of that step and of
the rest. -/
theorem meets_cons (h : step s l = some t) :
    Meets step ok s (l :: ls) ↔ ok s l ∧ Meets step ok t ls := by
  constructor
  · exact fun H => H t h
  · rintro H u hu
    rw [h] at hu
    cases hu
    exact H

/-- The condition holds along a run in two parts. -/
theorem meets_append (ls' : List ι) (h : exec step s ls = some t) :
    Meets step ok s (ls ++ ls') ↔ Meets step ok s ls ∧ Meets step ok t ls' := by
  induction ls generalizing s with
  | nil => cases h; exact (and_iff_right trivial).symm
  | cons l ls ih =>
      obtain ⟨u, hu, ht⟩ := Option.bind_eq_some_iff.mp h
      rw [List.cons_append, meets_cons hu, meets_cons hu, ih ht, and_assoc]

/-- An invariant of the steps that meet the condition holds along every run that
meets it. -/
theorem always_of_meets (hstep : ∀ s l t, Inv s → ok s l → step s l = some t → Inv t)
    (h₀ : Inv s) (H : Meets step ok s ls) : Always step Inv s ls := by
  induction ls generalizing s with
  | nil => exact h₀
  | cons l ls ih =>
      exact ⟨h₀, fun t ht => ih (hstep s l t h₀ (H t ht).1 ht) (H t ht).2⟩

/-- What every step keeps holds along every run. -/
theorem always_of_invariant (hstep : ∀ s l t, Inv s → step s l = some t → Inv t) (h₀ : Inv s) :
    Always step Inv s ls := by
  induction ls generalizing s with
  | nil => exact h₀
  | cons l ls ih => exact ⟨h₀, fun t ht => ih (hstep s l t h₀ ht)⟩

/-- What the steps that meet `ok` have in common holds along a run that meets it. -/
theorem meets_of_meets (hstep : ∀ s l t, Inv s → ok s l → step s l = some t → ok' s l ∧ Inv t)
    (h₀ : Inv s) (H : Meets step ok s ls) : Meets step ok' s ls := by
  induction ls generalizing s with
  | nil => trivial
  | cons l ls ih =>
      intro t ht
      obtain ⟨hok, hinv⟩ := hstep s l t h₀ (H t ht).1 ht
      exact ⟨hok, ih hinv (H t ht).2⟩

/-- Where an invariant is kept by the steps that meet `ok`, and a step from it has
the property `ok'` exactly when it meets `ok`, so has a run. -/
theorem meets_iff (hstep : ∀ s l t, Inv s → ok s l → step s l = some t → Inv t)
    (hiff : ∀ s l t, Inv s → step s l = some t → (ok' s l ↔ ok s l)) (h₀ : Inv s) :
    Meets step ok' s ls ↔ Meets step ok s ls := by
  induction ls generalizing s with
  | nil => exact Iff.rfl
  | cons l ls ih =>
      constructor
      · intro H t ht
        have hok : ok s l := (hiff s l t h₀ ht).mp (H t ht).1
        exact ⟨hok, (ih (hstep s l t h₀ hok ht)).mp (H t ht).2⟩
      · intro H t ht
        have hok : ok s l := (H t ht).1
        exact ⟨(hiff s l t h₀ ht).mpr hok, (ih (hstep s l t h₀ hok ht)).mpr (H t ht).2⟩

/-- A condition that every label of a schedule meets in every state is met by the run. -/
theorem meets_of_labels (h : ∀ l ∈ ls, ∀ s, ok s l) : Meets step ok s ls := by
  induction ls generalizing s with
  | nil => trivial
  | cons l ls ih =>
      intro t _
      rw [List.forall_mem_cons] at h
      exact ⟨h.1 s, ih h.2⟩

theorem meets_of_forall {c : ι → Prop} (h : ∀ l ∈ ls, c l) : Meets step (fun _ l => c l) s ls :=
  meets_of_labels fun l hl _ => h l hl

/-- Where every step is enabled, a condition on the labels alone is one on the schedule. -/
theorem meets_iff_forall {c : ι → Prop} (htotal : ∀ s l, ∃ t, step s l = some t) :
    Meets step (fun _ l => c l) s ls ↔ ∀ l ∈ ls, c l := by
  induction ls generalizing s with
  | nil => simp [Meets]
  | cons l ls ih =>
      obtain ⟨t, ht⟩ := htotal s l
      rw [meets_cons ht, ih, List.forall_mem_cons]

/-- A property of states along a run is a property of its steps' targets. -/
theorem always_iff_meets :
    Always step P s ls ↔ P s ∧ Meets step (fun s l => ∀ t, step s l = some t → P t) s ls := by
  induction ls generalizing s with
  | nil => exact (and_iff_left trivial).symm
  | cons l ls ih =>
      constructor
      · rintro ⟨hs, H⟩
        refine ⟨hs, fun t ht => ⟨fun u hu => (H u hu).here, ((ih).mp (H t ht)).2⟩⟩
      · rintro ⟨hs, H⟩
        exact ⟨hs, fun t ht => ih.mpr ⟨(H t ht).1 t ht, (H t ht).2⟩⟩

/-- Where an invariant implies a property, and is kept by exactly the steps that
keep the property, the runs with the property are those that meet the condition. -/
theorem always_iff_of_invariant (hP : ∀ s, Inv s → P s)
    (hstep : ∀ s l t, Inv s → ok s l → step s l = some t → Inv t)
    (hbad : ∀ s l t, Inv s → ¬ ok s l → step s l = some t → ¬ P t) (h₀ : Inv s) :
    Always step P s ls ↔ Meets step ok s ls := by
  rw [always_iff_meets, and_iff_right (hP s h₀)]
  refine meets_iff hstep (fun s l t hs ht => ⟨?_, ?_⟩) h₀
  · intro h
    exact Classical.byContradiction fun hok => hbad s l t hs hok ht (h t ht)
  · intro h u hu
    exact hP u (hstep s l u hs h hu)

end HvGin.Lib
