import HvGin.Runtime
import HvGin.Lib.Act
import HvGin.Lib.Fields

/-!
# The fields of the version word

`SynthRdpVersion` keeps a major and a minor version in the halves of `AsDWORD`. Both
setters add bits to the word and clear none, and that of the minor version shifts in `int`
before a conversion that rejects negative values. `independent_iff_onlySets` says for which
assignments that does not matter: none may clear a bit of its field, and the upper half of
the minor versions is out of reach.

## Main definitions

* `versionAccessors` — `MajorVersion` and `MinorVersion`.
* `makeVersion` — `SYNTHRDP_MAKE_VERSION`.
* `Independent` — the fields behave like two variables.
-/
namespace HvGin

open Lib

structure SynthRdpVersion where
  asDWORD : UInt32
  deriving DecidableEq, Repr

namespace SynthRdpVersion

/-! ## The accessors -/

def majorVersion (v : SynthRdpVersion) : Except Exn UInt16 :=
  Convert.toUInt16 (v.asDWORD &&& 0x0000FFFF).toNat
def setMajorVersion (v : SynthRdpVersion) (value : UInt16) : Except Exn SynthRdpVersion := do
  let major ← Convert.toUInt32 value.toNat
  pure { v with asDWORD := v.asDWORD ||| major }

def minorVersion (v : SynthRdpVersion) : Except Exn UInt16 :=
  Convert.toUInt16 ((v.asDWORD &&& 0xFFFF0000) >>> 16).toNat
def setMinorVersion (v : SynthRdpVersion) (value : UInt16) : Except Exn SynthRdpVersion := do
  let minor ← Convert.toUInt32 (shiftLeft32 value.toNat 16)
  pure { v with asDWORD := v.asDWORD ||| minor }

/-- `SYNTHRDP_MAKE_VERSION`. -/
def makeVersion (major minor : UInt16) : UInt32 := minor.toUInt32 <<< 16 ||| major.toUInt32

inductive VersionField
  | majorVersion | minorVersion
  deriving DecidableEq, Repr

def versionAccessors : Accessors VersionField UInt16 SynthRdpVersion Exn where
  get
    | .majorVersion => majorVersion
    | .minorVersion => minorVersion
  set
    | .majorVersion => fun value v => v.setMajorVersion value
    | .minorVersion => fun value v => v.setMinorVersion value

/-- A version before any assignment: its fields hold the halves of `AsDWORD`. -/
def assigned (v : SynthRdpVersion) : Assigned VersionField UInt16 SynthRdpVersion Exn where
  store := .ok v
  vars
    | .majorVersion => lowHalf v.asDWORD
    | .minorVersion => highHalf v.asDWORD

/-- No accessor has thrown or throws, each getter gives what was last assigned to its
field, and `AsDWORD` is made of the two. -/
structure Independent (s : Assigned VersionField UInt16 SynthRdpVersion Exn) : Prop where
  agrees : versionAccessors.Agrees s
  asDWORD_eq : ∀ v, s.store = .ok v →
    v.asDWORD = makeVersion (s.vars .majorVersion) (s.vars .minorVersion)

/-- The value has every bit that its field has; a minor version is below `0x8000`. -/
def OnlySets (x : VersionField → UInt16) (l : VersionField × UInt16) : Prop :=
  x l.1 ||| l.2 = l.2 ∧ (l.1 = .minorVersion → l.2.toNat < 0x8000)

variable {v : SynthRdpVersion} {x : VersionField → UInt16} {value : UInt16}

/-! ## What they read -/

theorem majorVersion_eq (v : SynthRdpVersion) : v.majorVersion = .ok (lowHalf v.asDWORD) := by
  rw [majorVersion, Convert.toUInt16_eq_ok_iff, toNat_lowHalf, UInt32.toNat_and]
  exact Nat.and_two_pow_sub_one_eq_mod _ 16

theorem minorVersion_eq (v : SynthRdpVersion) : v.minorVersion = .ok (highHalf v.asDWORD) := by
  have hlt := v.asDWORD.toNat_lt
  rw [minorVersion, Convert.toUInt16_eq_ok_iff, toNat_highHalf, UInt32.toNat_shiftRight,
    UInt32.toNat_and]
  change (v.asDWORD.toNat &&& 0xFFFF0000) >>> 16 = _
  rw [Nat.shiftRight_and_distrib, Nat.shiftRight_eq_div_pow]
  change v.asDWORD.toNat / 65536 &&& 2 ^ 16 - 1 = _
  rw [Nat.and_two_pow_sub_one_eq_mod]
  omega

theorem get_majorVersion : versionAccessors.get .majorVersion = majorVersion := by
  simp only [versionAccessors]
theorem get_minorVersion : versionAccessors.get .minorVersion = minorVersion := by
  simp only [versionAccessors]

theorem reads_iff : versionAccessors.Reads v x ↔
    lowHalf v.asDWORD = x .majorVersion ∧ highHalf v.asDWORD = x .minorVersion := by
  constructor
  · intro hreads
    have hmajor := hreads .majorVersion
    have hminor := hreads .minorVersion
    rw [get_majorVersion, majorVersion_eq] at hmajor
    rw [get_minorVersion, minorVersion_eq] at hminor
    exact ⟨Except.ok.inj hmajor, Except.ok.inj hminor⟩
  · rintro ⟨hmajor, hminor⟩ f
    cases f with
    | majorVersion => rw [get_majorVersion, majorVersion_eq, hmajor]
    | minorVersion => rw [get_minorVersion, minorVersion_eq, hminor]

theorem setMajorVersion_eq : v.setMajorVersion value = .ok ⟨v.asDWORD ||| value.toUInt32⟩ := by
  rw [setMajorVersion, Convert.toUInt32_toNat, ok_bind, pure_eq_ok]

theorem setMinorVersion_eq (h : value.toNat < 0x8000) :
    v.setMinorVersion value = .ok ⟨v.asDWORD ||| value.toUInt32 <<< 16⟩ := by
  have hshift : shiftLeft32 value.toNat 16 = (value.toUInt32 <<< 16).toNat := by
    rw [shiftLeft32, wrap32_eq (by omega) (by omega), toNat_shiftLeft_half]
    norm_num
  rw [setMinorVersion, hshift, Convert.toUInt32_natCast (UInt32.toNat_lt _), UInt32.ofNat_toNat,
    ok_bind, pure_eq_ok]

/-- A value from `0x8000` on is negative when shifted, and the conversion throws. -/
theorem setMinorVersion_overflow (h : 0x8000 ≤ value.toNat) :
    v.setMinorVersion value = .error .overflow := by
  have hlt := value.toNat_lt
  have hshift : shiftLeft32 value.toNat 16 < 0 := by
    simp only [shiftLeft32, wrap32]
    omega
  rw [setMinorVersion, Convert.toUInt32, if_neg (by omega), error_bind]

/-- An assignment keeps the fields apart exactly if it clears no bit and does not throw. -/
theorem reads_set_iff (v : SynthRdpVersion) (x : VersionField → UInt16)
    (l : VersionField × UInt16) (hreads : versionAccessors.Reads v x) :
    (∃ v', versionAccessors.set l.1 l.2 v = .ok v' ∧
      versionAccessors.Reads v' (Function.update x l.1 l.2)) ↔ OnlySets x l := by
  obtain ⟨hmajor, hminor⟩ := reads_iff.mp hreads
  obtain ⟨f, value⟩ := l
  cases f with
  | majorVersion =>
      have hset : versionAccessors.set .majorVersion value v =
          .ok ⟨v.asDWORD ||| value.toUInt32⟩ := setMajorVersion_eq
      have hafter : versionAccessors.Reads ⟨v.asDWORD ||| value.toUInt32⟩
          (Function.update x .majorVersion value) ↔ x .majorVersion ||| value = value := by
        rw [reads_iff, lowHalf_or, highHalf_or, hmajor, hminor]
        simp
      simp only [hset, Except.ok.injEq, exists_eq_left', hafter, OnlySets, reduceCtorEq,
        false_implies, and_true]
  | minorVersion =>
      by_cases hlow : value.toNat < 0x8000
      · have hset : versionAccessors.set .minorVersion value v =
            .ok ⟨v.asDWORD ||| value.toUInt32 <<< 16⟩ := setMinorVersion_eq hlow
        have hafter : versionAccessors.Reads ⟨v.asDWORD ||| value.toUInt32 <<< 16⟩
            (Function.update x .minorVersion value) ↔ x .minorVersion ||| value = value := by
          rw [reads_iff, lowHalf_or, highHalf_or, hmajor, hminor]
          simp
        simp only [hset, Except.ok.injEq, exists_eq_left', hafter, OnlySets, hlow, implies_true,
          and_true]
      · have hhigh := not_lt.mp hlow
        have hset : versionAccessors.set .minorVersion value v = .error .overflow :=
          setMinorVersion_overflow hhigh
        refine iff_of_false ?_ fun h => absurd (h.2 rfl) (by simpa using hhigh)
        rintro ⟨v', hok, _⟩
        rw [hset] at hok
        cases hok

/-! ## Sequences of assignments -/

theorem agrees_assigned (v : SynthRdpVersion) : versionAccessors.Agrees v.assigned :=
  ⟨v, rfl, reads_iff.mpr ⟨rfl, rfl⟩⟩

theorem independent_of_agrees {s : Assigned VersionField UInt16 SynthRdpVersion Exn}
    (hs : versionAccessors.Agrees s) : Independent s := by
  refine ⟨hs, ?_⟩
  intro v hstore
  obtain ⟨v', hstore', hreads⟩ := hs
  obtain rfl := Except.ok.inj (hstore.symm.trans hstore')
  obtain ⟨hmajor, hminor⟩ := reads_iff.mp hreads
  rw [← hmajor, ← hminor]
  exact (joinHalves_halves _).symm

/-- **Version fields.** From any word, the fields are independent throughout a sequence of
assignments if and only if each assigned value keeps the bits that its field has, and each
minor version is below `0x8000`. -/
theorem independent_iff_onlySets (v : SynthRdpVersion) (ls : List (VersionField × UInt16)) :
    Always versionAccessors.assign Independent v.assigned ls ↔
      Meets versionAccessors.assign (fun s l => OnlySets s.vars l) v.assigned ls := by
  rw [← and_iff_right (agrees_assigned v) (b := Meets _ _ _ _),
    ← Accessors.always_agrees_iff reads_set_iff]
  exact ⟨.mono fun s => Independent.agrees, .mono fun s => independent_of_agrees⟩

/-- A major version of one that is set to two reads as three. -/
theorem not_independent_second_major :
    ¬ Always versionAccessors.assign Independent (assigned ⟨0⟩)
      [(.majorVersion, 1), (.majorVersion, 2)] := by
  intro H
  have hfirst := H.2 _ rfl
  have hsecond := hfirst.2 _ rfl
  have hsets := (Accessors.agrees_of_assign reads_set_iff hfirst.here.agrees rfl).mp
    hsecond.here.agrees
  exact absurd hsets.1 (by decide)

end SynthRdpVersion

end HvGin
