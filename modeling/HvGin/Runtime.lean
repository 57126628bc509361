import Mathlib.Tactic.Ring
import Mathlib.Tactic.NormNum
import Mathlib.Data.List.Basic

/-!
# The managed runtime under the program

What the C# code takes from the runtime: exceptions, `int` arithmetic that wraps
at 32 bits, the range-checked `Convert` calls, and managed byte arrays. An `int`
value is an integer here, and each place where the code adds or subtracts two of
them goes through `add32` or `sub32`.
-/
namespace HvGin

/-- The exceptions the modelled code can raise. -/
inductive Exn
  /-- `throw new Exception(message)`. -/
  | exception (message : String)
  /-- `ArgumentException`. -/
  | argument
  /-- `ArgumentOutOfRangeException`. -/
  | argumentOutOfRange
  /-- `OverflowException`, from a range-checked conversion. -/
  | overflow
  /-- `IndexOutOfRangeException`. -/
  | indexOutOfRange
  /-- `BytesToStructure` on an array shorter than the structure: the code reads past
  the array and no value is defined. -/
  | shortStructure
  deriving DecidableEq, Repr

/-! ## `int` arithmetic -/

/-- Reduce to the range of `int`. -/
def wrap32 (x : ℤ) : ℤ := (x + 2 ^ 31) % 2 ^ 32 - 2 ^ 31

def add32 (x y : ℤ) : ℤ := wrap32 (x + y)
def sub32 (x y : ℤ) : ℤ := wrap32 (x - y)
def shiftLeft32 (x : ℤ) (n : ℕ) : ℤ := wrap32 (x * 2 ^ n)

theorem wrap32_eq {x : ℤ} (hlo : -2 ^ 31 ≤ x) (hhi : x < 2 ^ 31) : wrap32 x = x := by
  simp only [wrap32]
  omega

theorem add32_eq {x y : ℤ} (hlo : -2 ^ 31 ≤ x + y) (hhi : x + y < 2 ^ 31) :
    add32 x y = x + y := wrap32_eq hlo hhi

theorem sub32_eq {x y : ℤ} (hlo : -2 ^ 31 ≤ x - y) (hhi : x - y < 2 ^ 31) :
    sub32 x y = x - y := wrap32_eq hlo hhi

/-! ## `Convert` -/

namespace Convert

def toInt32 (x : ℤ) : Except Exn ℤ :=
  if -2 ^ 31 ≤ x ∧ x < 2 ^ 31 then .ok x else .error .overflow

def toUInt32 (x : ℤ) : Except Exn UInt32 :=
  if 0 ≤ x ∧ x < 2 ^ 32 then .ok (UInt32.ofNat x.toNat) else .error .overflow

def toUInt16 (x : ℤ) : Except Exn UInt16 :=
  if 0 ≤ x ∧ x < 2 ^ 16 then .ok (UInt16.ofNat x.toNat) else .error .overflow

theorem toInt32_eq_ok {x y : ℤ} (h : toInt32 x = .ok y) : x = y ∧ -2 ^ 31 ≤ x ∧ x < 2 ^ 31 := by
  unfold toInt32 at h
  split at h
  · next hrange => exact ⟨Except.ok.inj h, hrange⟩
  · cases h

theorem toInt32_natCast {n : ℕ} (h : n < 2 ^ 31) : toInt32 n = .ok n :=
  if_pos ⟨by omega, by omega⟩

theorem toUInt32_natCast {n : ℕ} (h : n < 2 ^ 32) : toUInt32 n = .ok (UInt32.ofNat n) := by
  rw [toUInt32, if_pos ⟨by omega, by omega⟩, Int.toNat_natCast]

/-- Every `ushort` is a `uint`. -/
theorem toUInt32_toNat (v : UInt16) : toUInt32 v.toNat = .ok v.toUInt32 := by
  have hlt := v.toNat_lt
  rw [toUInt32_natCast (by omega), Except.ok.injEq, ← UInt32.toNat_inj, UInt32.toNat_ofNat',
    UInt16.toNat_toUInt32, Nat.mod_eq_of_lt (by omega)]

theorem toUInt16_natCast {n : ℕ} (h : n < 2 ^ 16) : toUInt16 n = .ok (UInt16.ofNat n) := by
  rw [toUInt16, if_pos ⟨by omega, by omega⟩, Int.toNat_natCast]

theorem toUInt16_eq_ok_iff {n : ℕ} {v : UInt16} : toUInt16 n = .ok v ↔ n = v.toNat := by
  have hlt := v.toNat_lt
  constructor
  · intro h
    unfold toUInt16 at h
    split at h
    · obtain rfl := Except.ok.inj h
      rw [Int.toNat_natCast, UInt16.toNat_ofNat', Nat.mod_eq_of_lt (by omega)]
    · cases h
  · rintro rfl
    rw [toUInt16_natCast hlt, UInt16.ofNat_toNat]

end Convert

/-- A word below the width is kept by the conversion from naturals. -/
theorem toNat_ofNat32 {n : ℕ} (h : n < 2 ^ 32) : (UInt32.ofNat n).toNat = n := by
  rw [UInt32.toNat_ofNat', Nat.mod_eq_of_lt h]

theorem toNat_ofNat16 {n : ℕ} (h : n < 2 ^ 16) : (UInt16.ofNat n).toNat = n := by
  rw [UInt16.toNat_ofNat', Nat.mod_eq_of_lt h]

/-! ## Byte arrays -/

/-- A managed `byte[]`. Its length is within the runtime's limit for arrays. -/
structure Bytes where
  data : List UInt8
  length_le : data.length ≤ 0x7FFFFFC7
  deriving DecidableEq

/-- `new byte[n]`. -/
def Bytes.zeros (n : ℕ) (h : n ≤ 0x7FFFFFC7) : Bytes := ⟨List.replicate n 0, by simpa⟩

@[simp] theorem Bytes.length_zeros (n : ℕ) (h : n ≤ 0x7FFFFFC7) :
    (zeros n h).data.length = n := List.length_replicate

end HvGin
