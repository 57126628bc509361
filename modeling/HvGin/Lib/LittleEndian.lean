import Mathlib.Tactic.Ring
import Mathlib.Tactic.NormNum
import Mathlib.Data.List.Basic

/-!
# Little-endian words

Fixed-width unsigned words as byte lists, least significant byte first. `toLE`
drops what does not fit its width and `ofLE` reads a list of any length, so both
are total; `ofLE_toLE` says exactly what a round trip keeps.
-/
namespace HvGin.Lib

/-- The `w` lowest bytes of `n`, least significant first. -/
def toLE : ℕ → ℕ → List UInt8
  | 0, _ => []
  | w + 1, n => UInt8.ofNat (n % 256) :: toLE w (n / 256)

/-- The word whose bytes, least significant first, are the given ones. -/
def ofLE : List UInt8 → ℕ
  | [] => 0
  | b :: bs => b.toNat + 256 * ofLE bs

@[simp] theorem toLE_zero (n : ℕ) : toLE 0 n = [] := rfl
@[simp] theorem ofLE_nil : ofLE [] = 0 := rfl
@[simp] theorem ofLE_cons (b : UInt8) (bs : List UInt8) :
    ofLE (b :: bs) = b.toNat + 256 * ofLE bs := rfl

@[simp] theorem length_toLE (w n : ℕ) : (toLE w n).length = w := by
  induction w generalizing n with
  | zero => rfl
  | succ w ih => simp [toLE, ih]

/-- Writing and reading back keeps the word modulo its width. -/
theorem ofLE_toLE (w n : ℕ) : ofLE (toLE w n) = n % 256 ^ w := by
  induction w generalizing n with
  | zero => simp [Nat.mod_one]
  | succ w ih =>
      have hbyte : (UInt8.ofNat (n % 256)).toNat = n % 256 := by
        rw [UInt8.toNat_ofNat', Nat.mod_eq_of_lt (Nat.mod_lt _ (by norm_num))]
      rw [toLE, ofLE_cons, ih, hbyte, pow_succ', Nat.mod_mul]

theorem ofLE_toLE_of_lt {w n : ℕ} (h : n < 256 ^ w) : ofLE (toLE w n) = n := by
  rw [ofLE_toLE, Nat.mod_eq_of_lt h]

end HvGin.Lib
