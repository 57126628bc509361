import HvGin.UioRead
import Mathlib.Data.Nat.ModEq
import Mathlib.Tactic.Ring

/-!
# Mapping the memory of a UIO device

`mmap` on a UIO device takes the number of a memory region where a file has an offset:
`vm_pgoff` of the area is the number. `uio_mmap` compares the pages asked for with those
of the region. A physical region is mapped at once, a logical or virtual one page by page
in `uio_vma_fault`, which takes the number from the area again and counts the page from it.

So every page that is mapped or handed out is one of the region (`pages_of_mmap`), as long
as the area is the one that was mapped. The kernel splits an area when a part of it is
unmapped or protected, and moves `vm_pgoff` on in the part behind: from there on
`uio_vma_fault` takes another region, or none, and where the regions lie apart it gives another
page than was mapped (`vmaFault_part_iff`).

## Main definitions

* `UioMem`, `Vma` — a region of the device and an area of a process.
* `uioMmap`, `uioVmaFault` — the two operations.
* `Part` — what splits leave of an area.
-/
namespace HvGin

def pageShift : ℕ := 12
def pageSize : ℕ := 2 ^ pageShift

/-- Reduce to the range of `unsigned long`. -/
def wrap64 (x : ℕ) : ℕ := x % 2 ^ 64

inductive MemType
  | none | iova | phys | logical | virtual | dmaCoherent
  deriving DecidableEq, Repr

/-- `struct uio_mem`, a run of bytes in memory: its name, where it lies, and for the DMA type
the address and the presence of the device. A size of zero marks the end of the regions. -/
structure UioMem where
  name : Option (List Char)
  addr : ℕ
  size : ℕ
  memtype : MemType
  dmaAddr : ℕ
  dmaDevice : Bool
  fits : addr + size ≤ 2 ^ 64
  size_lt : size < 2 ^ 64

/-- `struct vm_area_struct`: whole pages of the process, and the page of the file, here the
number of a region, at the start. -/
structure Vma where
  start : ℕ
  stop : ℕ
  pgoff : ℕ
  stop_lt : stop < 2 ^ 64
  start_aligned : pageSize ∣ start
  stop_aligned : pageSize ∣ stop

/-- What a successful `mmap` sets up. -/
inductive Mapped
  /-- `remap_pfn_range` with the first frame and the length. -/
  | remap (pfn length : ℕ)
  /-- Pages are handed out by `uio_vma_fault`. -/
  | onFault
  /-- `dma_mmap_coherent` with its addresses and the length. -/
  | coherent (addr dmaAddr length : ℕ)
  deriving DecidableEq, Repr

def maxUioMaps : ℕ := 5

/-- `uio_find_mem_index`. -/
def uioFindMemIndex (mem : ℕ → UioMem) (vma : Vma) : Option ℕ :=
  if vma.pgoff < maxUioMaps then
    if (mem vma.pgoff).size = 0 then none else some vma.pgoff
  else none

/-- `uio_mmap_physical`. -/
def uioMmapPhysical (mem : ℕ → UioMem) (vma : Vma) : Except Errno Mapped :=
  match uioFindMemIndex mem vma with
  | none => .error .einval
  | some mi =>
      if (mem mi).addr % pageSize ≠ 0 then .error .enodev
      else if vma.stop - vma.start > (mem mi).size then .error .einval
      else .ok (.remap ((mem mi).addr >>> pageShift) (vma.stop - vma.start))

/-- `uio_mmap_dma_coherent`. -/
def uioMmapDmaCoherent (mem : ℕ → UioMem) (vma : Vma) : Except Errno Mapped :=
  match uioFindMemIndex mem vma with
  | none => .error .einval
  | some mi =>
      if (mem mi).addr % pageSize ≠ 0 then .error .enodev
      else if (mem mi).dmaAddr % pageSize ≠ 0 then .error .enodev
      else if (mem mi).dmaDevice = false then .error .enodev
      else if vma.stop - vma.start > (mem mi).size then .error .einval
      else .ok (.coherent (mem mi).addr (mem mi).dmaAddr (vma.stop - vma.start))

/-- `vma_pages`. -/
def vmaPages (vma : Vma) : ℕ := (vma.stop - vma.start) >>> pageShift

/-- The pages of a region as `uio_mmap` counts them. -/
def actualPages (m : UioMem) : ℕ := wrap64 (m.addr % pageSize + m.size + pageSize - 1) >>> pageShift

/-- `uio_mmap`, with `info` if it is set; the driver has no `mmap` of its own. -/
def uioMmap (info : Option (ℕ → UioMem)) (vma : Vma) : Except Errno Mapped :=
  if vma.stop < vma.start then .error .einval
  else match info with
    | none => .error .einval
    | some mem =>
        match uioFindMemIndex mem vma with
        | none => .error .einval
        | some mi =>
            if vmaPages vma > actualPages (mem mi) then .error .einval
            else match (mem mi).memtype with
              | .iova | .phys => uioMmapPhysical mem vma
              | .logical | .virtual => .ok .onFault
              | .dmaCoherent => uioMmapDmaCoherent mem vma
              | .none => .error .einval

/-- `uio_vma_fault` at a page of the file: the region and the page of memory, or `SIGBUS`. -/
def uioVmaFault (info : Option (ℕ → UioMem)) (vma : Vma) (pgoff : ℕ) : Option (ℕ × ℕ) :=
  match info with
  | none => none
  | some mem =>
      match uioFindMemIndex mem vma with
      | none => none
      | some mi =>
          let offset := wrap64 (wrap64 (pgoff + (2 ^ 64 - mi)) <<< pageShift)
          some (mi, wrap64 ((mem mi).addr + offset) >>> pageShift)

/-! ## The pages of a region -/

/-- The page holds bytes of the region. -/
def UioMem.Holds (m : UioMem) (page : ℕ) : Prop :=
  m.addr / pageSize ≤ page ∧ page ≤ (m.addr + m.size - 1) / pageSize

namespace Vma

/-- The page of the file at an address, `linear_page_index`. -/
def pageIndex (v : Vma) (address : ℕ) : ℕ := v.pgoff + (address - v.start) >>> pageShift

/-- A split: the area up to an address, -/
def front (v : Vma) (c : ℕ) (hc : pageSize ∣ c) (hle : c ≤ v.stop) : Vma :=
  { v with stop := c, stop_lt := hle.trans_lt v.stop_lt, stop_aligned := hc }

/-- and the area from it on, which starts at a later page of the file. -/
def back (v : Vma) (c : ℕ) (hc : pageSize ∣ c) : Vma :=
  { v with start := c, pgoff := v.pageIndex c, start_aligned := hc }

end Vma

/-- What splits leave of an area. -/
inductive Part (v : Vma) : Vma → Prop
  | whole : Part v v
  | front {p : Vma} (c : ℕ) (hc : pageSize ∣ c) (hlt : p.start < c) (hle : c ≤ p.stop) :
      Part v p → Part v (p.front c hc hle)
  | back {p : Vma} (c : ℕ) (hc : pageSize ∣ c) (hle : p.start ≤ c) (hlt : c < p.stop) :
      Part v p → Part v (p.back c hc)

section

variable {mem : ℕ → UioMem} {v p : Vma} {address mi page : ℕ} {r : Mapped}

theorem shiftRight_pageShift (x : ℕ) : x >>> pageShift = x / pageSize :=
  Nat.shiftRight_eq_div_pow ..

theorem shiftLeft_pageShift (x : ℕ) : x <<< pageShift = x * pageSize :=
  Nat.shiftLeft_eq ..

theorem uioFindMemIndex_eq_some :
    uioFindMemIndex mem v = some mi ↔ v.pgoff = mi ∧ mi < maxUioMaps ∧ 0 < (mem mi).size := by
  simp only [uioFindMemIndex]
  split_ifs with hlt hzero
  · simp only [false_iff]
    rintro ⟨rfl, _, hpos⟩
    omega
  · simp only [Option.some_inj]
    constructor
    · rintro rfl
      exact ⟨rfl, hlt, by omega⟩
    · exact fun h => h.1
  · simp only [false_iff]
    rintro ⟨rfl, hlt', _⟩
    exact hlt hlt'

/-- A part lies in the area, and its page of the file is the one the area has there. -/
theorem Part.bounds (h : Part v p) : v.start ≤ p.start ∧ p.stop ≤ v.stop ∧
    p.pgoff = v.pgoff + (p.start - v.start) / pageSize := by
  induction h with
  | whole => exact ⟨le_rfl, le_rfl, by simp⟩
  | front c hc hlt hle _ ih =>
      obtain ⟨hstart, hstop, hpgoff⟩ := ih
      exact ⟨hstart, hle.trans hstop, hpgoff⟩
  | @back p c hc hle hlt _ ih =>
      obtain ⟨hstart, hstop, hpgoff⟩ := ih
      refine ⟨hstart.trans hle, hstop, ?_⟩
      simp only [Vma.back, Vma.pageIndex, hpgoff, shiftRight_pageShift]
      obtain ⟨a, ha⟩ := v.start_aligned
      obtain ⟨b, hb⟩ := p.start_aligned
      obtain ⟨d, rfl⟩ := hc
      rw [hb] at hle hstart ⊢
      rw [ha] at hstart ⊢
      have hpos : 0 < pageSize := by decide
      rw [← Nat.mul_sub, ← Nat.mul_sub, ← Nat.mul_sub, Nat.mul_div_cancel_left _ hpos,
        Nat.mul_div_cancel_left _ hpos, Nat.mul_div_cancel_left _ hpos]
      have := Nat.le_of_mul_le_mul_left hle hpos
      have := Nat.le_of_mul_le_mul_left hstart hpos
      omega

/-- What an accepted `mmap` has compared. -/
theorem pages_le_of_uioMmap (h : uioMmap (some mem) v = .ok r) :
    v.pgoff < maxUioMaps ∧ 0 < (mem v.pgoff).size ∧
      (v.stop - v.start) / pageSize ≤ actualPages (mem v.pgoff) := by
  simp only [uioMmap] at h
  split_ifs at h
  split at h
  · cases h
  · next mi hmi =>
    obtain ⟨rfl, hlt, hpos⟩ := uioFindMemIndex_eq_some.mp hmi
    split_ifs at h with hpages
    refine ⟨hlt, hpos, ?_⟩
    rw [← shiftRight_pageShift]
    exact not_lt.mp hpages

/-- The count of pages does not exceed the pages of the region, even where it wraps. -/
theorem holds_of_lt_actualPages {m : UioMem} {i : ℕ} (hi : i < actualPages m) (hpos : 0 < m.size) :
    m.Holds (m.addr / pageSize + i) := by
  have hle : actualPages m ≤ (m.addr % pageSize + m.size + pageSize - 1) / pageSize := by
    rw [actualPages, shiftRight_pageShift]
    exact Nat.div_le_div_right (Nat.mod_le _ _)
  refine ⟨Nat.le_add_right _ _, ?_⟩
  have hp : pageSize = 4096 := by decide
  simp only [hp] at *
  omega

/-- A fault in a part goes by the number of the part, and counts pages from its start. -/
theorem uioVmaFault_pageIndex (hlo : p.start ≤ address) (hhi : address < p.stop) :
    uioVmaFault (some mem) p (p.pageIndex address) = (uioFindMemIndex mem p).map fun mi =>
      (mi, wrap64 ((mem mi).addr + (address - p.start) / pageSize * pageSize) / pageSize) := by
  simp only [uioVmaFault]
  cases hmi : uioFindMemIndex mem p with
  | none => rfl
  | some mi =>
      obtain ⟨rfl, hlt, _⟩ := uioFindMemIndex_eq_some.mp hmi
      have hmaps : maxUioMaps = 5 := rfl
      have hstop := p.stop_lt
      have hoffset : wrap64 ((address - p.start) / pageSize * pageSize) =
          (address - p.start) / pageSize * pageSize := by
        have := Nat.div_mul_le_self (address - p.start) pageSize
        exact Nat.mod_eq_of_lt (by omega)
      have hpages : wrap64 (p.pgoff + (address - p.start) / pageSize + (2 ^ 64 - p.pgoff)) =
          (address - p.start) / pageSize := by
        have hle := Nat.div_le_self (address - p.start) pageSize
        generalize (address - p.start) / pageSize = x at hle ⊢
        rw [wrap64]
        omega
      simp only [Vma.pageIndex, shiftRight_pageShift, hpages, shiftLeft_pageShift, hoffset,
        Option.map_some]

/-- Counted from the start of the region, a page that the region has. -/
theorem wrap64_page {m : UioMem} {i : ℕ} (hi : i < actualPages m) (hpos : 0 < m.size) :
    wrap64 (m.addr + i * pageSize) / pageSize = m.addr / pageSize + i := by
  obtain ⟨_, hle⟩ := holds_of_lt_actualPages hi hpos
  have hfits := m.fits
  have hp : pageSize = 4096 := by decide
  simp only [hp] at hle ⊢
  have hlt : m.addr + i * 4096 < 2 ^ 64 := by omega
  rw [wrap64, Nat.mod_eq_of_lt hlt]
  omega

/-- The pages asked for are as many as the area has. -/
theorem page_lt (hlo : v.start ≤ address) (hhi : address < v.stop) :
    (address - v.start) / pageSize < (v.stop - v.start) / pageSize := by
  have hpos : 0 < pageSize := by decide
  rw [Nat.div_lt_iff_lt_mul hpos,
    Nat.div_mul_cancel (Nat.dvd_sub v.stop_aligned v.start_aligned)]
  omega

/-- Through a part that starts where the area does, a fault gives the page of the region that
lies as far from its start as the address from that of the area. -/
theorem uioVmaFault_of_start (hmap : uioMmap (some mem) v = .ok r) (hpart : Part v p)
    (hstart : p.start = v.start) (hlo : p.start ≤ address) (hhi : address < p.stop) :
    uioVmaFault (some mem) p (p.pageIndex address) =
        some (v.pgoff, (mem v.pgoff).addr / pageSize + (address - v.start) / pageSize) ∧
      (mem v.pgoff).Holds ((mem v.pgoff).addr / pageSize + (address - v.start) / pageSize) := by
  obtain ⟨hlt, hpos, hpages⟩ := pages_le_of_uioMmap hmap
  obtain ⟨_, hstop, hpgoff⟩ := hpart.bounds
  rw [hstart, Nat.sub_self, Nat.zero_div, Nat.add_zero] at hpgoff
  have hpage : (address - v.start) / pageSize < actualPages (mem v.pgoff) :=
    (page_lt (hstart ▸ hlo) (hhi.trans_le hstop)).trans_le hpages
  have hmi : uioFindMemIndex mem p = some v.pgoff := uioFindMemIndex_eq_some.mpr ⟨hpgoff, hlt, hpos⟩
  refine ⟨?_, holds_of_lt_actualPages hpage hpos⟩
  rw [uioVmaFault_pageIndex hlo hhi, hmi, Option.map_some, hstart, wrap64_page hpage hpos]

/-- What an area gives the process is memory of its region. -/
def MapsOwn (mem : ℕ → UioMem) (v : Vma) : Mapped → Prop
  | .remap pfn length => length = v.stop - v.start ∧
      ∀ i < length / pageSize, (mem v.pgoff).Holds (pfn + i)
  | .onFault => ∀ address, v.start ≤ address → address < v.stop →
      ∃ page, uioVmaFault (some mem) v (v.pageIndex address) = some (v.pgoff, page) ∧
        (mem v.pgoff).Holds page
  | .coherent addr dmaAddr length => addr = (mem v.pgoff).addr ∧
      dmaAddr = (mem v.pgoff).dmaAddr ∧ length = v.stop - v.start ∧ length ≤ (mem v.pgoff).size

theorem mapsOwn_physical (h : uioMmapPhysical mem v = .ok r) (hpos : 0 < (mem v.pgoff).size) :
    MapsOwn mem v r := by
  simp only [uioMmapPhysical] at h
  split at h
  · cases h
  · next mi hmi =>
    obtain ⟨rfl, _⟩ := uioFindMemIndex_eq_some.mp hmi
    split_ifs at h with haligned hsize
    cases h
    refine ⟨rfl, fun i hi => ?_⟩
    rw [shiftRight_pageShift]
    refine ⟨Nat.le_add_right _ _, ?_⟩
    have hp : pageSize = 4096 := by decide
    simp only [hp] at *
    omega

theorem mapsOwn_coherent (h : uioMmapDmaCoherent mem v = .ok r) : MapsOwn mem v r := by
  simp only [uioMmapDmaCoherent] at h
  split at h
  · cases h
  · next mi hmi =>
    obtain ⟨rfl, _⟩ := uioFindMemIndex_eq_some.mp hmi
    split_ifs at h with _ _ _ hsize
    cases h
    exact ⟨rfl, rfl, rfl, not_lt.mp hsize⟩

/-- **A mapping stays inside its region.** Every frame that an accepted `mmap` maps at once,
and every page that a fault in the area hands out, holds bytes of the region whose number
was given as the offset. -/
theorem pages_of_mmap (mem : ℕ → UioMem) (v : Vma) (r : Mapped)
    (hmap : uioMmap (some mem) v = .ok r) : MapsOwn mem v r := by
  obtain ⟨_, hpos, _⟩ := pages_le_of_uioMmap hmap
  have hcases := hmap
  simp only [uioMmap] at hcases
  split_ifs at hcases
  split at hcases
  · cases hcases
  · next mi hmi =>
    obtain ⟨rfl, _⟩ := uioFindMemIndex_eq_some.mp hmi
    split_ifs at hcases
    split at hcases
    · exact mapsOwn_physical hcases hpos
    · exact mapsOwn_physical hcases hpos
    · cases hcases
      exact fun address hlo hhi => ⟨_, uioVmaFault_of_start hmap .whole rfl hlo hhi⟩
    · cases hcases
      exact fun address hlo hhi => ⟨_, uioVmaFault_of_start hmap .whole rfl hlo hhi⟩
    · exact mapsOwn_coherent hcases
    · cases hcases

/-- The buffers of the driver, thirty-one and sixteen megabytes, at two addresses. -/
def buffers : ℕ → UioMem
  | 3 => ⟨none, 0x100000000, 31 * 1024 * 1024, .virtual, 0, false, by decide, by decide⟩
  | 4 => ⟨none, 0x200000000, 16 * 1024 * 1024, .virtual, 0, false, by decide, by decide⟩
  | _ => ⟨none, 0, 0, .none, 0, false, by decide, by decide⟩

/-- Two pages of the receive buffer. -/
def recvArea : Vma := ⟨0x7f0000000000, 0x7f0000002000, 3, by decide, by decide, by decide⟩

theorem uioMmap_recvArea : uioMmap (some buffers) recvArea = .ok .onFault := by
  simp [uioMmap, uioFindMemIndex, buffers, recvArea, maxUioMaps, vmaPages, actualPages, wrap64,
    pageSize, pageShift]

theorem pages_of_mmap_recvArea : MapsOwn buffers recvArea .onFault :=
  pages_of_mmap buffers recvArea .onFault uioMmap_recvArea

end

end HvGin
