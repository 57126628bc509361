import HvGin.Lib.Exec
import Mathlib.Logic.Function.Basic
import Mathlib.Tactic.NormNum

/-!
# Fields that share storage

An `Accessors` is a family of fields read and written through a common store, where a
getter and a setter may raise. Fields are meant to behave like variables of their own:
what is read is what was last assigned, and assigning one leaves the others alone.
`Assigned` runs assignments on the store and on such variables side by side, and
`Agrees` says that the getters cannot tell them apart.

Real accessors agree under a condition on what is assigned. `always_agrees_iff` lifts
the condition from one assignment to every sequence of them.

## Main definitions

* `Accessors`, `Assigned`, `Agrees` — getters and setters, and runs of assignments.
* `lowHalf`, `highHalf`, `joinHalves` — the two sixteen-bit fields of a 32-bit word.
-/
namespace HvGin.Lib

universe u

/-! ## Assignments -/

/-- Getters and setters of the fields `F` with values in `V`, over a store `S`. -/
structure Accessors (F : Type*) (V S ε : Type u) where
  get : F → S → Except ε V
  set : F → V → S → Except ε S

/-- The store, or what the first failed assignment raised, beside a variable for each field. -/
structure Assigned (F : Type*) (V S ε : Type u) where
  store : Except ε S
  vars : F → V

namespace Accessors

variable {F : Type*} [DecidableEq F] {V S ε : Type u} (A : Accessors F V S ε)

/-- The getters give what the variables hold. -/
def Reads (s : S) (x : F → V) : Prop := ∀ f, A.get f s = .ok (x f)

/-- One assignment, to the store and to the variable. -/
def assign (s : Assigned F V S ε) (l : F × V) : Option (Assigned F V S ε) :=
  some ⟨s.store.bind (A.set l.1 l.2), Function.update s.vars l.1 l.2⟩

/-- Nothing was raised, and no getter raises or tells the store from the variables. -/
def Agrees (s : Assigned F V S ε) : Prop := ∃ w, s.store = .ok w ∧ A.Reads w s.vars

variable {A} {ok : (F → V) → F × V → Prop} {s t : Assigned F V S ε} {ls : List (F × V)}

theorem agrees_of_assign (h : ∀ w x l, A.Reads w x → ((∃ w', A.set l.1 l.2 w = .ok w' ∧
      A.Reads w' (Function.update x l.1 l.2)) ↔ ok x l)) {l : F × V} (hs : A.Agrees s)
    (ht : A.assign s l = some t) : A.Agrees t ↔ ok s.vars l := by
  obtain ⟨w, hw, hreads⟩ := hs
  cases ht
  rw [← h w s.vars l hreads, Agrees, hw]
  rfl

/-- Where an assignment keeps the agreement exactly under a condition on the variables,
a sequence of assignments agrees throughout exactly if it meets the condition. -/
theorem always_agrees_iff (h : ∀ w x l, A.Reads w x → ((∃ w', A.set l.1 l.2 w = .ok w' ∧
      A.Reads w' (Function.update x l.1 l.2)) ↔ ok x l)) :
    Always A.assign A.Agrees s ls ↔
      A.Agrees s ∧ Meets A.assign (fun s l => ok s.vars l) s ls := by
  have hiff : A.Agrees s → (Always A.assign A.Agrees s ls ↔
      Meets A.assign (fun s l => ok s.vars l) s ls) :=
    always_iff_of_invariant (fun _ => id)
      (fun s l t hs hok ht => (agrees_of_assign h hs ht).mpr hok)
      (fun s l t hs hok ht hbad => hok ((agrees_of_assign h hs ht).mp hbad))
  exact ⟨fun H => ⟨H.here, (hiff H.here).mp H⟩, fun H => (hiff H.1).mpr H.2⟩

theorem exists_assign (s : Assigned F V S ε) (l : F × V) : ∃ t, A.assign s l = some t := ⟨_, rfl⟩

end Accessors

/-! ## The halves of a word -/

def lowHalf (w : UInt32) : UInt16 := w.toUInt16
def highHalf (w : UInt32) : UInt16 := (w >>> 16).toUInt16

/-- The word with these halves. -/
def joinHalves (low high : UInt16) : UInt32 := high.toUInt32 <<< 16 ||| low.toUInt32

section

variable {w : UInt32} {v : UInt16}

theorem toNat_lowHalf (w : UInt32) : (lowHalf w).toNat = w.toNat % 65536 := UInt32.toNat_toUInt16 w

theorem toNat_highHalf (w : UInt32) : (highHalf w).toNat = w.toNat / 65536 := by
  have hlt := w.toNat_lt
  rw [highHalf, UInt32.toNat_toUInt16, UInt32.toNat_shiftRight]
  change w.toNat >>> 16 % 65536 = _
  rw [Nat.shiftRight_eq_div_pow]
  omega

theorem toNat_shiftLeft_half (v : UInt16) : (v.toUInt32 <<< 16).toNat = v.toNat * 65536 := by
  have hlt := v.toNat_lt
  rw [UInt32.toNat_shiftLeft, UInt16.toNat_toUInt32]
  change v.toNat <<< 16 % 4294967296 = _
  rw [Nat.shiftLeft_eq]
  omega

/-- A word is its halves. -/
theorem toNat_eq_halves (w : UInt32) :
    w.toNat = (highHalf w).toNat * 65536 + (lowHalf w).toNat := by
  rw [toNat_highHalf, toNat_lowHalf]
  omega

theorem toNat_joinHalves (low high : UInt16) :
    (joinHalves low high).toNat = high.toNat * 65536 + low.toNat := by
  have hlt := low.toNat_lt
  rw [joinHalves, UInt32.toNat_or, toNat_shiftLeft_half, UInt16.toNat_toUInt32]
  have h := Nat.two_pow_add_eq_or_of_lt (i := 16) hlt high.toNat
  rw [Nat.mul_comm, ← h]

theorem joinHalves_halves (w : UInt32) : joinHalves (lowHalf w) (highHalf w) = w := by
  apply UInt32.toNat_inj.mp
  rw [toNat_joinHalves, ← toNat_eq_halves]

theorem highHalf_eq_zero_iff : highHalf w = 0 ↔ w.toNat < 65536 := by
  rw [← UInt16.toNat_inj, toNat_highHalf, UInt16.toNat_zero]
  omega

/-- Each half of a disjunction is the disjunction of the halves. -/
theorem lowHalf_or (w w' : UInt32) : lowHalf (w ||| w') = lowHalf w ||| lowHalf w' :=
  UInt32.toUInt16_or w w'

theorem highHalf_or (w w' : UInt32) : highHalf (w ||| w') = highHalf w ||| highHalf w' := by
  rw [highHalf, UInt32.shiftRight_or, UInt32.toUInt16_or, highHalf, highHalf]

/-- The halves of a word made from its low or from its high half alone. -/
@[simp] theorem lowHalf_toUInt32 (v : UInt16) : lowHalf v.toUInt32 = v := UInt16.toUInt16_toUInt32 v

@[simp] theorem highHalf_toUInt32 (v : UInt16) : highHalf v.toUInt32 = 0 := by
  rw [highHalf_eq_zero_iff, UInt16.toNat_toUInt32]
  exact v.toNat_lt

@[simp] theorem lowHalf_shiftLeft (v : UInt16) : lowHalf (v.toUInt32 <<< 16) = 0 := by
  apply UInt16.toNat_inj.mp
  rw [toNat_lowHalf, toNat_shiftLeft_half, Nat.mul_mod_left, UInt16.toNat_zero]

@[simp] theorem highHalf_shiftLeft (v : UInt16) : highHalf (v.toUInt32 <<< 16) = v := by
  apply UInt16.toNat_inj.mp
  rw [toNat_highHalf, toNat_shiftLeft_half, Nat.mul_div_cancel _ (by norm_num)]

end

end HvGin.Lib
