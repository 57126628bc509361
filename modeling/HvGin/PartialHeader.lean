import HvGin.Packet
import HvGin.Lib.Act
import HvGin.Lib.Fields

/-!
# The fields of a partial pipe header

The partial variant of `PipeHeader` keeps a data size and an offset in the halves of
`RawDataSize`. The setter of the size stores its value as the whole word, the getter of the
size converts the whole word, and the setter of the offset only adds bits. The two fields
are independent as long as no offset but zero is ever there: `independent_iff_offsetsZero`.

## Main definitions

* `partialAccessors` — `PartialDataSize` and `PartialOffset`.
* `Independent` — the fields behave like two variables.
-/
namespace HvGin

open Lib

namespace PipeHeader

/-! ## The accessors -/

def partialDataSize (h : PipeHeader) : Except Exn UInt16 :=
  if h.type ≠ .partialData then .error .argument else Convert.toUInt16 h.rawDataSize.toNat
def setPartialDataSize (h : PipeHeader) (value : UInt16) : Except Exn PipeHeader :=
  if h.type ≠ .partialData then .error .argument
  else do
    let size ← Convert.toUInt32 value.toNat
    pure { h with rawDataSize := size }

def partialOffset (h : PipeHeader) : Except Exn UInt16 :=
  if h.type ≠ .partialData then .error .argument
  else Convert.toUInt16 (h.rawDataSize >>> 16).toNat
def setPartialOffset (h : PipeHeader) (value : UInt16) : Except Exn PipeHeader :=
  if h.type ≠ .partialData then .error .argument
  else do
    let offset ← Convert.toUInt32 value.toNat
    pure { h with rawDataSize := h.rawDataSize ||| offset <<< 16 }

inductive PartialField
  | partialDataSize | partialOffset
  deriving DecidableEq, Repr

def partialAccessors : Accessors PartialField UInt16 PipeHeader Exn where
  get
    | .partialDataSize => partialDataSize
    | .partialOffset => partialOffset
  set
    | .partialDataSize => fun value h => h.setPartialDataSize value
    | .partialOffset => fun value h => h.setPartialOffset value

/-- A header before any assignment: its fields hold the halves of `RawDataSize`. -/
def assigned (h : PipeHeader) : Assigned PartialField UInt16 PipeHeader Exn where
  store := .ok h
  vars
    | .partialDataSize => lowHalf h.rawDataSize
    | .partialOffset => highHalf h.rawDataSize

/-- No accessor has thrown or throws, each getter gives what was last assigned to its
field, and `RawDataSize` is made of the two. -/
structure Independent (s : Assigned PartialField UInt16 PipeHeader Exn) : Prop where
  agrees : partialAccessors.Agrees s
  raw_eq : ∀ h, s.store = .ok h → h.rawDataSize.toNat =
    (s.vars .partialOffset).toNat * 65536 + (s.vars .partialDataSize).toNat

variable {h : PipeHeader} {x : PartialField → UInt16} {v : UInt16}

/-! ## What they read -/

theorem partialDataSize_eq_ok_iff :
    h.partialDataSize = .ok v ↔ h.type = .partialData ∧ h.rawDataSize.toNat = v.toNat := by
  simp only [partialDataSize]
  split
  · next hother => simp [hother]
  · next htype =>
    rw [not_not] at htype
    rw [and_iff_right htype, Convert.toUInt16_eq_ok_iff]

theorem partialOffset_eq_ok_iff :
    h.partialOffset = .ok v ↔ h.type = .partialData ∧ highHalf h.rawDataSize = v := by
  simp only [partialOffset]
  split
  · next hother => simp [hother]
  · next htype =>
    rw [not_not] at htype
    rw [and_iff_right htype, Convert.toUInt16_eq_ok_iff, ← UInt16.toNat_inj, toNat_highHalf,
      UInt32.toNat_shiftRight, eq_comm, eq_comm (a := _ / _)]
    change _ = h.rawDataSize.toNat >>> 16 ↔ _
    rw [Nat.shiftRight_eq_div_pow]

/-- The getters give two values only where the word is the first and the second is zero. -/
theorem reads_iff : partialAccessors.Reads h x ↔
    h.type = .partialData ∧ h.rawDataSize.toNat = (x .partialDataSize).toNat ∧
      x .partialOffset = 0 := by
  constructor
  · intro hreads
    obtain ⟨htype, hsize⟩ := partialDataSize_eq_ok_iff.mp (hreads .partialDataSize)
    obtain ⟨_, hoffset⟩ := partialOffset_eq_ok_iff.mp (hreads .partialOffset)
    refine ⟨htype, hsize, ?_⟩
    rw [← hoffset, highHalf_eq_zero_iff, hsize]
    exact (x .partialDataSize).toNat_lt
  · rintro ⟨htype, hsize, hoffset⟩ f
    cases f with
    | partialDataSize => exact partialDataSize_eq_ok_iff.mpr ⟨htype, hsize⟩
    | partialOffset =>
        refine partialOffset_eq_ok_iff.mpr ⟨htype, ?_⟩
        rw [hoffset, highHalf_eq_zero_iff, hsize]
        exact (x .partialDataSize).toNat_lt

theorem setPartialDataSize_eq (htype : h.type = .partialData) :
    h.setPartialDataSize v = .ok { h with rawDataSize := v.toUInt32 } := by
  rw [setPartialDataSize, if_neg (not_not.mpr htype), Convert.toUInt32_toNat, ok_bind, pure_eq_ok]

theorem setPartialOffset_eq (htype : h.type = .partialData) :
    h.setPartialOffset v =
      .ok { h with rawDataSize := h.rawDataSize ||| v.toUInt32 <<< 16 } := by
  rw [setPartialOffset, if_neg (not_not.mpr htype), Convert.toUInt32_toNat, ok_bind, pure_eq_ok]

/-- An assignment to the size keeps the fields apart, one to the offset only if it assigns
zero: any other makes the word too large for the getter of the size. -/
theorem reads_set_iff (h : PipeHeader) (x : PartialField → UInt16) (l : PartialField × UInt16)
    (hreads : partialAccessors.Reads h x) :
    (∃ h', partialAccessors.set l.1 l.2 h = .ok h' ∧
      partialAccessors.Reads h' (Function.update x l.1 l.2)) ↔
      (l.1 = .partialOffset → l.2 = 0) := by
  obtain ⟨htype, hsize, hoffset⟩ := reads_iff.mp hreads
  obtain ⟨f, v⟩ := l
  cases f with
  | partialDataSize =>
      refine iff_of_true ⟨_, setPartialDataSize_eq htype, reads_iff.mpr ⟨htype, ?_, ?_⟩⟩ nofun
      · simp
      · simpa using hoffset
  | partialOffset =>
      constructor
      · rintro ⟨h', hset, hreads'⟩ _
        simpa using (reads_iff.mp hreads').2.2
      · intro hzero
        obtain rfl : v = 0 := hzero rfl
        refine ⟨_, setPartialOffset_eq htype, reads_iff.mpr ⟨htype, ?_, ?_⟩⟩
        · simpa using hsize
        · simp

/-- Where the getters give what the variables hold, the word is made of them. -/
theorem independent_of_agrees {s : Assigned PartialField UInt16 PipeHeader Exn}
    (hs : partialAccessors.Agrees s) : Independent s := by
  refine ⟨hs, ?_⟩
  intro h hstore
  obtain ⟨h', hstore', hreads⟩ := hs
  obtain rfl := Except.ok.inj (hstore.symm.trans hstore')
  obtain ⟨_, hsize, hoffset⟩ := reads_iff.mp hreads
  rw [hsize, hoffset, UInt16.toNat_zero, Nat.zero_mul, Nat.zero_add]

theorem agrees_assigned_iff (htype : h.type = .partialData) :
    partialAccessors.Agrees h.assigned ↔ h.rawDataSize.toNat < 65536 := by
  constructor
  · rintro ⟨h', hstore, hreads⟩
    cases hstore
    exact highHalf_eq_zero_iff.mp (reads_iff.mp hreads).2.2
  · intro hlt
    refine ⟨h, rfl, reads_iff.mpr ⟨htype, ?_, highHalf_eq_zero_iff.mpr hlt⟩⟩
    change _ = (lowHalf h.rawDataSize).toNat
    rw [toNat_lowHalf, Nat.mod_eq_of_lt hlt]

/-- **Partial fields.** For a partial header, the fields are independent throughout a sequence
of assignments if and only if `RawDataSize` is below 65536 at the start and no offset but
zero is assigned. -/
theorem independent_iff_offsetsZero (h : PipeHeader) (htype : h.type = .partialData)
    (ls : List (PartialField × UInt16)) :
    Always partialAccessors.assign Independent h.assigned ls ↔
      h.rawDataSize.toNat < 65536 ∧ ∀ l ∈ ls, l.1 = .partialOffset → l.2 = 0 := by
  rw [← agrees_assigned_iff htype,
    ← meets_iff_forall Accessors.exists_assign,
    ← Accessors.always_agrees_iff reads_set_iff]
  exact ⟨.mono fun s => Independent.agrees, .mono fun s => independent_of_agrees⟩

/-- An offset of one in a header of zeros is not independent of the size. -/
theorem not_independent_one :
    ¬ Always partialAccessors.assign Independent (assigned ⟨PipeMessageType.partialData.raw, 0⟩)
      [(.partialOffset, 1)] := by
  intro H
  have hzero := (Accessors.agrees_of_assign reads_set_iff H.here.agrees rfl).mp
    (H.2 _ rfl).here.agrees
  exact absurd (hzero rfl) (by decide)

/-- Sizes may be assigned again and again. -/
theorem independent_sizes :
    Always partialAccessors.assign Independent (assigned ⟨PipeMessageType.partialData.raw, 7⟩)
      [(.partialDataSize, 65535), (.partialOffset, 0), (.partialDataSize, 3)] := by
  rw [independent_iff_offsetsZero _ rfl]
  decide

end PipeHeader

end HvGin
