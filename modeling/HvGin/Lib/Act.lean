import Mathlib.Tactic.Common

/-!
# Actions with state and exceptions

An action runs from a state to a result or an exception, and to a state in either
case: an exception does not undo the writes made before it. This is how shared
memory behaves, and it is why "fails and changes nothing" is a theorem about an
action here and not a feature of the type.
-/
namespace HvGin.Lib

universe u

/-! ## Exceptions without state -/

@[simp] theorem ok_bind {ε α β : Type u} (a : α) (f : α → Except ε β) :
    (Except.ok a >>= f) = f a := rfl
@[simp] theorem error_bind {ε α β : Type u} (e : ε) (f : α → Except ε β) :
    (Except.error e >>= f) = Except.error e := rfl
@[simp] theorem pure_eq_ok {ε α : Type u} (a : α) : (pure a : Except ε α) = Except.ok a := rfl

/-- A computation that succeeds passed a value on. -/
theorem bind_eq_ok {ε α β : Type u} {x : Except ε α} {f : α → Except ε β} {b : β}
    (h : (x >>= f) = Except.ok b) : ∃ a, x = Except.ok a ∧ f a = Except.ok b := by
  cases x with
  | ok a => exact ⟨a, rfl, h⟩
  | error e => cases h

/-- A check that raises passed. -/
theorem ite_error_eq_ok {ε α : Type u} {c : Prop} [Decidable c] {e : ε} {x : Except ε α} {a : α}
    (h : (if c then .error e else x) = Except.ok a) : ¬ c ∧ x = .ok a := by
  split at h
  · cases h
  · exact ⟨‹_›, h⟩

/-! ## Actions -/

/-- An action over the state `σ` that ends in a value or in an exception. -/
structure Act (σ ε α : Type u) where
  run : σ → Except ε α × σ

namespace Act

variable {σ ε α β : Type u}

/-- Give a value and leave the state alone. -/
def pure (a : α) : Act σ ε α := ⟨fun s => (.ok a, s)⟩

/-- Run the first action and, unless it raised, go on from the state it left. -/
def bind (p : Act σ ε α) (f : α → Act σ ε β) : Act σ ε β :=
  ⟨fun s => match p.run s with
    | (.ok a, t) => (f a).run t
    | (.error e, t) => (.error e, t)⟩

instance : Monad (Act σ ε) where
  pure := pure
  bind := bind

/-- Raise an exception. -/
def throw (e : ε) : Act σ ε α := ⟨fun s => (.error e, s)⟩

/-- Compute from the state without changing it. -/
def reads (f : σ → Except ε α) : Act σ ε α := ⟨fun s => (f s, s)⟩

/-- A computation that does not look at the state. -/
def lift (x : Except ε α) : Act σ ε α := reads fun _ => x

/-- Change the state. -/
def modify (f : σ → σ) : Act σ ε PUnit := ⟨fun s => (.ok ⟨⟩, f s)⟩

/-- Raise an exception when the condition holds. -/
def throwIf (c : Prop) [Decidable c] (e : ε) : Act σ ε PUnit :=
  if c then throw e else pure ⟨⟩

/-- An action is what it does from every state. -/
@[ext] theorem ext {p q : Act σ ε α} (h : ∀ s, p.run s = q.run s) : p = q := by
  cases p
  cases q
  exact congrArg Act.mk (funext h)

/-- The result of an action that does not raise. -/
def result? (p : Act σ ε α) (s : σ) : Option (α × σ) :=
  match p.run s with
  | (.ok a, t) => some (a, t)
  | (.error _, _) => none

theorem result?_eq_some {p : Act σ ε α} {s t : σ} {a : α} :
    p.result? s = some (a, t) ↔ p.run s = (.ok a, t) := by
  simp only [result?]
  rcases p.run s with ⟨_ | b, u⟩ <;> simp

/-- Run the action and go on from the state it leaves, whether it raised or not. -/
def handle (p : Act σ ε α) (s : σ) (onOk : α → σ → β) (onError : ε → σ → β) : β :=
  match p.run s with
  | (.ok a, t) => onOk a t
  | (.error e, t) => onError e t

theorem handle_ok {p : Act σ ε α} {s t : σ} {a : α} {onOk : α → σ → β}
    {onError : ε → σ → β} (h : p.run s = (.ok a, t)) : p.handle s onOk onError = onOk a t := by
  rw [handle, h]

theorem handle_error {p : Act σ ε α} {s t : σ} {e : ε} {onOk : α → σ → β}
    {onError : ε → σ → β} (h : p.run s = (.error e, t)) :
    p.handle s onOk onError = onError e t := by
  rw [handle, h]

@[simp] theorem run_pure (a : α) (s : σ) : (Pure.pure a : Act σ ε α).run s = (.ok a, s) := rfl
@[simp] theorem run_reads (f : σ → Except ε α) (s : σ) : (reads f).run s = (f s, s) := rfl
@[simp] theorem run_modify (f : σ → σ) (s : σ) :
    (modify f : Act σ ε PUnit).run s = (.ok ⟨⟩, f s) := rfl

/-- A value is passed on to the rest. -/
theorem run_bind_ok {p : Act σ ε α} {f : α → Act σ ε β} {s t : σ} {a : α}
    (h : p.run s = (.ok a, t)) : (p >>= f).run s = (f a).run t := by
  change (match p.run s with | (.ok a, t) => (f a).run t | (.error e, t) => (.error e, t)) = _
  rw [h]

/-- An exception skips the rest. -/
theorem run_bind_error {p : Act σ ε α} {f : α → Act σ ε β} {s t : σ} {e : ε}
    (h : p.run s = (.error e, t)) : (p >>= f).run s = (.error e, t) := by
  change (match p.run s with | (.ok a, t) => (f a).run t | (.error e, t) => (.error e, t)) = _
  rw [h]

protected theorem bind_assoc {γ : Type u} (p : Act σ ε α) (f : α → Act σ ε β) (g : β → Act σ ε γ) :
    (p >>= f) >>= g = p >>= fun a => f a >>= g := by
  apply Act.ext
  intro s
  rcases h : p.run s with ⟨_ | a, t⟩
  · rw [run_bind_error h, run_bind_error (run_bind_error h)]
  · rw [run_bind_ok h]
    rcases h' : (f a).run t with ⟨_ | b, u⟩
    · rw [run_bind_error h', run_bind_error ((run_bind_ok h).trans h')]
    · rw [run_bind_ok h', run_bind_ok ((run_bind_ok h).trans h')]

protected theorem id_map (p : Act σ ε α) : id <$> p = p := by
  apply Act.ext
  intro s
  rcases h : p.run s with ⟨_ | a, t⟩
  · exact run_bind_error h
  · exact run_bind_ok h

/-- A sequence of steps may be cut anywhere. -/
instance : LawfulMonad (Act σ ε) :=
  LawfulMonad.mk' (Act σ ε) Act.id_map (fun a _ => Act.ext fun s => run_bind_ok (run_pure a s))
    Act.bind_assoc

/-- A step taken on a condition only, in front of the rest. -/
theorem ite_bind_eq {c : Prop} [Decidable c] (p : Act σ ε PUnit) (q : Act σ ε α) :
    (if c then p >>= fun _ => q else q) = (if c then p else Pure.pure ⟨⟩) >>= fun _ => q := by
  split
  · rfl
  · rw [pure_bind]

/-- A computed value is passed on to the rest. -/
theorem run_lift_ok {x : Except ε α} {f : α → Act σ ε β} {s : σ} {a : α} (h : x = .ok a) :
    (lift x >>= f).run s = (f a).run s := run_bind_ok (by rw [lift, run_reads, h])

theorem run_lift_error {x : Except ε α} {f : α → Act σ ε β} {s : σ} {e : ε}
    (h : x = .error e) : (lift x >>= f).run s = (.error e, s) :=
  run_bind_error (by rw [lift, run_reads, h])

@[simp] theorem run_modify_bind (g : σ → σ) (f : PUnit → Act σ ε β) (s : σ) :
    (modify g >>= f).run s = (f ⟨⟩).run (g s) := run_bind_ok rfl

/-- Past a check that does not fire, the rest runs. -/
theorem run_throwIf_neg {c : Prop} [Decidable c] {e : ε} {f : PUnit → Act σ ε β} {s : σ}
    (h : ¬ c) : (throwIf c e >>= f).run s = (f ⟨⟩).run s := by
  rw [throwIf, if_neg h]
  exact run_bind_ok rfl

/-- A check that fires ends the action. -/
theorem run_throwIf_pos {c : Prop} [Decidable c] {e : ε} {f : PUnit → Act σ ε β} {s : σ}
    (h : c) : (throwIf c e >>= f).run s = (.error e, s) := by
  rw [throwIf, if_pos h]
  exact run_bind_error rfl

end Act

end HvGin.Lib
