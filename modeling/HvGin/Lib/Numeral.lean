import Mathlib.Data.Nat.Basic
import Mathlib.Tactic.Ring

/-!
# Numbers as text of a fixed width

A number is written with a given count of digits, the most significant first, and read with
an accumulator up to the first character that is not a digit. Reading fails if the number
passes a limit. `scan_render` is the round trip: what is read is the number modulo the power
of the base that the digits hold.
-/
namespace HvGin.Lib

/-- The characters of the digits in base `b`. -/
structure Numerals (b : ℕ) where
  char : ℕ → Char
  val : Char → Option ℕ
  val_char : ∀ d < b, val (char d) = some d

namespace Numerals

variable {b : ℕ} (A : Numerals b)

/-- The last `w` digits. -/
def render : ℕ → ℕ → List Char
  | 0, _ => []
  | w + 1, n => render w (n / b) ++ [A.char (n % b)]

/-- Read digits on top of `a`; the rest is left. -/
def scan (limit : ℕ) : ℕ → List Char → Option (ℕ × List Char)
  | a, [] => some (a, [])
  | a, c :: cs =>
      match A.val c with
      | none => some (a, c :: cs)
      | some d => if a * b + d > limit then none else scan limit (a * b + d) cs

variable {A} {limit a n w : ℕ} {c : Char} {cs : List Char}

@[simp] theorem length_render : (A.render w n).length = w := by
  induction w generalizing n with
  | zero => rfl
  | succ w ih => simp [render, ih]

theorem mem_render (hb : 0 < b) (h : c ∈ A.render w n) : ∃ d < b, c = A.char d := by
  induction w generalizing n with
  | zero => cases h
  | succ w ih =>
      rcases List.mem_append.mp h with h | h
      · exact ih h
      · exact ⟨n % b, Nat.mod_lt n hb, List.mem_singleton.mp h⟩

theorem scan_char {d : ℕ} (hd : d < b) (h : a * b + d ≤ limit) :
    A.scan limit a (A.char d :: cs) = A.scan limit (a * b + d) cs := by
  simp only [scan, A.val_char d hd, if_neg (not_lt.mpr h)]

/-- Digits in front are read as a number below the power of the base. -/
theorem scan_render (hb : 0 < b) (h : a * b ^ w + n % b ^ w ≤ limit) :
    A.scan limit a (A.render w n ++ cs) = A.scan limit (a * b ^ w + n % b ^ w) cs := by
  induction w generalizing n cs with
  | zero => simp [render, Nat.mod_one]
  | succ w ih =>
      -- The last digit is read on top of the others.
      have hlast : a * b ^ (w + 1) + n % b ^ (w + 1) =
          (a * b ^ w + n / b % b ^ w) * b + n % b := by
        rw [pow_succ', Nat.mod_mul]
        ring
      rw [hlast] at h ⊢
      have hfront : a * b ^ w + n / b % b ^ w ≤ limit := by
        have := Nat.le_mul_of_pos_right (a * b ^ w + n / b % b ^ w) hb
        omega
      rw [render, List.append_assoc, List.singleton_append, ih hfront,
        scan_char (Nat.mod_lt _ hb) h]

end Numerals

end HvGin.Lib
