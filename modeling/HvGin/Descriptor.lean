import HvGin.Packet
import HvGin.Lib.Act

/-!
# The fields of a packet descriptor

A descriptor keeps its two sizes in sixteen bits each, in units of eight bytes. Their setters
take any `int`: they round it up, in arithmetic that may wrap around, and convert the result
with a check. `CompletionRequested` is one bit of the flags.

`assignments_iff` says that the four properties are independent of each other and of what else
is in the descriptor, through any sequence of assignments: each reads as what was last
assigned, a size rounded up, and an assignment throws exactly if it is of a size that does not
fit. A size from `-7` to `-1` does: it is stored as zero.

## Main definitions

* `Assignment` — an assignment to one of the properties.
* `Values` — what the getters give, and `Values.assign`, what they should.
* `Fits` — a size that can be stored.
-/
namespace HvGin

open Lib

namespace PacketDescriptor

/-! ## Rounding -/

theorem toInt_and_not_seven (b : BitVec 32) : (b &&& ~~~7#32).toInt = b.toInt / 8 * 8 := by
  have hlt := b.isLt
  have hval : (b >>> 3 <<< 3).toNat = b.toNat / 8 * 8 := by
    simp [Nat.shiftLeft_eq, Nat.shiftRight_eq_div_pow]
    omega
  rw [and_not_seven, BitVec.toInt_eq_toNat_cond, BitVec.toInt_eq_toNat_cond, hval]
  split <;> split <;> omega

/-- `GetAlignedSize` of any `int`. -/
theorem getAlignedSize_toInt (v : Int32) :
    getAlignedSize v.toInt 8 = wrap32 (v.toInt + 7) / 8 * 8 := by
  have hseven : (Int32.ofInt (8 - 1)).toBitVec = 7#32 := by decide
  have hwrap : (Int32.ofInt (v.toInt + 8 - 1)).toInt = wrap32 (v.toInt + 7) := by
    rw [Int32.toInt_ofInt, Int.bmod_def, wrap32]
    simp only [Int32.size]
    omega
  rw [getAlignedSize, ← Int32.toInt_toBitVec, Int32.toBitVec_and, Int32.toBitVec_not, hseven,
    toInt_and_not_seven, Int32.toInt_toBitVec, hwrap]

/-- The least multiple of `8` that is at least `v`. -/
def roundUp (v : ℤ) : ℤ := (v + 7) / 8 * 8

/-- A size that a setter stores. -/
def Fits (v : Int32) : Prop := -8 < v.toInt ∧ v.toInt ≤ 524280

instance (v : Int32) : Decidable (Fits v) := inferInstanceAs (Decidable (_ ∧ _))

theorem shiftRight_getAlignedSize (v : Int32) :
    getAlignedSize v.toInt 8 >>> (3 : ℕ) = wrap32 (v.toInt + 7) / 8 := by
  rw [getAlignedSize_toInt, Int.shiftRight_eq_div_pow]
  omega

theorem alignedRaw8_of_fits {v : Int32} (h : Fits v) :
    ∃ raw, alignedRaw8 v.toInt = .ok raw ∧ ((raw.toNat <<< 3 : ℕ) : ℤ) = roundUp v.toInt := by
  obtain ⟨hlo, hhi⟩ := h
  have hnum : wrap32 (v.toInt + 7) = v.toInt + 7 := wrap32_eq (by omega) (by omega)
  have hlt : ((v.toInt + 7) / 8).toNat < 2 ^ 16 := by omega
  have hle : UInt16.ofNat ((v.toInt + 7) / 8).toNat ≤ 65535 := by
    rw [UInt16.le_iff_toNat_le, toNat_ofNat16 hlt]
    change _ ≤ 65535
    omega
  refine ⟨UInt16.ofNat ((v.toInt + 7) / 8).toNat, ?_, ?_⟩
  · rw [alignedRaw8, shiftRight_getAlignedSize, hnum, Convert.toUInt16, if_pos (by omega)]
    exact congrArg Except.ok (if_pos hle)
  · rw [toNat_ofNat16 hlt, Nat.shiftLeft_eq, roundUp]
    omega

/-- The addition wraps around for the largest sizes, and then the result is negative. -/
theorem alignedRaw8_of_not_fits {v : Int32} (h : ¬ Fits v) :
    alignedRaw8 v.toInt = .error .overflow := by
  have hlt := v.toInt_lt
  have hge := v.le_toInt
  rw [alignedRaw8, shiftRight_getAlignedSize, Convert.toUInt16, if_neg]
  · rfl
  · rintro ⟨hlo, hhi⟩
    refine h ⟨?_, ?_⟩
    · simp only [wrap32] at hlo hhi
      omega
    · simp only [wrap32] at hlo hhi
      omega

/-! ## Assignments -/

inductive Assignment
  | type (value : PacketType)
  | dataOffset (value : Int32)
  | length (value : Int32)
  | completionRequested (value : Bool)
  deriving DecidableEq

def assign (d : PacketDescriptor) : Assignment → Except Exn PacketDescriptor
  | .type value => .ok (d.setType value)
  | .dataOffset value => d.setDataOffset value.toInt
  | .length value => d.setLength value.toInt
  | .completionRequested value => .ok (d.setCompletionRequested value)

/-- What the properties give. -/
@[ext]
structure Values where
  type : PacketType
  dataOffset : ℤ
  length : ℤ
  completionRequested : Bool

def values (d : PacketDescriptor) : Values :=
  ⟨d.type, d.dataOffset, d.length, d.completionRequested⟩

/-- What they give after an assignment. -/
def Values.assign (x : Values) : Assignment → Values
  | .type value => { x with type := value }
  | .dataOffset value => { x with dataOffset := roundUp value.toInt }
  | .length value => { x with length := roundUp value.toInt }
  | .completionRequested value => { x with completionRequested := value }

/-- The assignment is not of a size that does not fit. -/
def Assignment.Fits : Assignment → Prop
  | .dataOffset value => PacketDescriptor.Fits value
  | .length value => PacketDescriptor.Fits value
  | _ => True

instance (a : Assignment) : Decidable a.Fits := by
  cases a <;> simp only [Assignment.Fits] <;> infer_instance

/-- What is no property: the transaction and the other flags. -/
structure Keeps (d d' : PacketDescriptor) : Prop where
  transactionId : d'.transactionId = d.transactionId
  rawFlags : d'.rawFlags >>> 1 = d.rawFlags >>> 1

variable {d d' : PacketDescriptor} {a : Assignment}

theorem Keeps.refl (d : PacketDescriptor) : Keeps d d := ⟨rfl, rfl⟩

theorem Keeps.trans {d'' : PacketDescriptor} (h : Keeps d d') (h' : Keeps d' d'') : Keeps d d'' :=
  ⟨h'.transactionId.trans h.transactionId, h'.rawFlags.trans h.rawFlags⟩

/-! ### The lowest bit -/

theorem or_one_shiftRight (f : UInt16) : (f ||| 1) >>> 1 = f >>> 1 := by
  rw [UInt16.shiftRight_or]
  exact UInt16.or_zero

theorem and_shiftRight (f : UInt16) : (f &&& 0xFFFE) >>> 1 = f >>> 1 := by
  have hlt : f.toNat >>> 1 < 2 ^ 15 := by
    have := f.toNat_lt
    rw [Nat.shiftRight_eq_div_pow]
    omega
  apply UInt16.toNat_inj.mp
  rw [UInt16.toNat_shiftRight, UInt16.toNat_shiftRight, UInt16.toNat_and]
  change (f.toNat &&& 65534) >>> 1 = f.toNat >>> 1
  rw [Nat.shiftRight_and_distrib, show 65534 >>> 1 = 2 ^ 15 - 1 from rfl,
    Nat.and_two_pow_sub_one_of_lt_two_pow hlt]

theorem or_one_and_one (f : UInt16) : (f ||| 1) &&& 1 = 1 := by
  apply UInt16.toNat_inj.mp
  rw [UInt16.toNat_and, UInt16.toNat_or]
  change (f.toNat ||| 1) &&& 1 = 1
  rw [Nat.and_or_distrib_right]
  rcases Nat.mod_two_eq_zero_or_one f.toNat with h | h <;> simp [h]

theorem and_and_one (f : UInt16) : (f &&& 0xFFFE) &&& 1 = 0 := by
  rw [UInt16.and_assoc]
  exact UInt16.and_zero

theorem completionRequested_set (value : Bool) :
    (d.setCompletionRequested value).completionRequested = value := by
  cases value with
  | false => simp [completionRequested, setCompletionRequested, and_and_one]
  | true => simp [completionRequested, setCompletionRequested, or_one_and_one]

theorem keeps_setCompletionRequested (value : Bool) : Keeps d (d.setCompletionRequested value) := by
  cases value with
  | false => exact ⟨rfl, and_shiftRight d.rawFlags⟩
  | true => exact ⟨rfl, or_one_shiftRight d.rawFlags⟩

/-! ### One assignment -/

theorem assign_of_fits (h : a.Fits) :
    ∃ d', d.assign a = .ok d' ∧ d'.values = d.values.assign a ∧ Keeps d d' := by
  cases a with
  | type value =>
      refine ⟨_, rfl, ?_, ⟨rfl, rfl⟩⟩
      simp only [values, type, setType, PacketType.ofRaw_raw]
      rfl
  | dataOffset value =>
      obtain ⟨raw, hraw, heq⟩ := alignedRaw8_of_fits h
      refine ⟨{ d with rawDataOffset8 := raw }, ?_, ?_, ⟨rfl, rfl⟩⟩
      · rw [assign, setDataOffset, hraw]
        rfl
      · simp only [values, dataOffset, heq]
        rfl
  | length value =>
      obtain ⟨raw, hraw, heq⟩ := alignedRaw8_of_fits h
      refine ⟨{ d with rawLength8 := raw }, ?_, ?_, ⟨rfl, rfl⟩⟩
      · rw [assign, setLength, hraw]
        rfl
      · simp only [values, length, heq]
        rfl
  | completionRequested value =>
      refine ⟨_, rfl, ?_, keeps_setCompletionRequested value⟩
      rw [values, completionRequested_set]
      rfl

theorem assign_of_not_fits (h : ¬ a.Fits) : d.assign a = .error .overflow := by
  cases a with
  | type value => exact absurd trivial h
  | dataOffset value =>
      rw [assign, setDataOffset, alignedRaw8_of_not_fits h]
      rfl
  | length value =>
      rw [assign, setLength, alignedRaw8_of_not_fits h]
      rfl
  | completionRequested value => exact absurd trivial h

/-! ### A sequence -/

theorem keeps_of_foldlM {ls : List Assignment} (h : ls.foldlM assign d = .ok d') :
    d'.values = ls.foldl Values.assign d.values ∧ Keeps d d' := by
  induction ls generalizing d with
  | nil =>
      cases h
      exact ⟨rfl, .refl _⟩
  | cons a ls ih =>
      rw [List.foldlM_cons] at h
      by_cases hfits : a.Fits
      · obtain ⟨d₁, hassign, hvalues, hkeeps⟩ := assign_of_fits (d := d) hfits
        rw [hassign, ok_bind] at h
        obtain ⟨hrest, hkeeps'⟩ := ih h
        exact ⟨by rw [hrest, hvalues, List.foldl_cons], hkeeps.trans hkeeps'⟩
      · rw [assign_of_not_fits hfits] at h
        cases h

theorem foldlM_eq_ok_iff {ls : List Assignment} :
    (∃ d', ls.foldlM assign d = .ok d') ↔ ∀ a ∈ ls, a.Fits := by
  induction ls generalizing d with
  | nil => exact iff_of_true ⟨d, rfl⟩ (by simp)
  | cons a ls ih =>
      rw [List.foldlM_cons, List.forall_mem_cons]
      by_cases hfits : a.Fits
      · obtain ⟨d₁, hassign, _⟩ := assign_of_fits (d := d) hfits
        rw [hassign, ok_bind, ih, and_iff_right hfits]
      · refine iff_of_false ?_ fun h => hfits h.1
        rw [assign_of_not_fits hfits]
        exact nofun

/-- **The properties are independent.** Through any sequence of assignments to any descriptor,
no setter throws if and only if every size assigned fits, and then each property reads as what
was last assigned to it, a size rounded up to a multiple of eight, or as it did before, and
nothing else has changed. -/
theorem assignments_iff (d : PacketDescriptor) (ls : List Assignment) :
    ((∃ d', ls.foldlM assign d = .ok d') ↔ ∀ a ∈ ls, a.Fits) ∧
      ∀ d', ls.foldlM assign d = .ok d' →
        d'.values = ls.foldl Values.assign d.values ∧ Keeps d d' :=
  ⟨foldlM_eq_ok_iff, fun _ h => keeps_of_foldlM h⟩

/-- The descriptor of a packet of 24 bytes and a content of three; then a size of `-7`. -/
example : (List.foldlM assign zero [.type .dataInBand, .dataOffset 16, .length 27,
    .completionRequested true, .completionRequested false, .length (-7)]).toOption =
      some ⟨6, 2, 0, 0, 0⟩ := by decide

end PacketDescriptor

end HvGin
