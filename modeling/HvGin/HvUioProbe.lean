import HvGin.Lib.Ledger
import Mathlib.Data.Set.Basic
import Mathlib.Tactic.Tauto

/-!
# What a probe sets up and a remove takes down

`hv_uio_probe` allocates the ring, two buffers with a GPADL each, and registers the UIO
device, which takes a minor number, adds the device and a kobject for each region, and may
request an interrupt. Any of the calls may fail, and what was set up before is taken down.

A buffer whose pages stay decrypted when its GPADL goes is not freed. `probe_balanced` says
that this is all: a probe that fails, and one that succeeds with a remove behind it, leave
nothing else, whichever calls fail and whatever regions the device has, and nothing is
released that is not held.

## Main definitions

* `Outcomes` — which of the calls fail.
* `uioDevAddAttributes`, `uioRegisterDevice`, `hvUioProbe` — the calls.
* `uioDevDelAttributes`, `uioUnregisterDevice`, `hvUioRemove` — and what undoes them.
-/
namespace HvGin

open Lib

namespace HvUioProbe

/-- The two kinds of attributes, each with a directory of its own. -/
inductive Dir
  | maps | portio
  deriving DecidableEq, Repr

inductive Buffer
  | recv | send
  deriving DecidableEq, Repr

inductive Resource
  | ring
  | buffer (b : Buffer)
  | gpadl (b : Buffer)
  | binFile
  | idev
  | minor
  /-- The device between `device_add` and `device_del`. -/
  | device
  | irq
  /-- `map_dir` or `portio_dir`. -/
  | dir (d : Dir)
  /-- The kobject of a region. -/
  | item (d : Dir) (i : ℕ)
  deriving DecidableEq, Repr

/-- What `vmbus_establish_gpadl` leaves: a handle exactly if it succeeds, and whether the
pages are decrypted, then and after `vmbus_teardown_gpadl`. -/
structure GpadlOutcome where
  ok : Bool
  handle : UInt32
  decrypted : Bool
  decryptedAfter : Bool
  handle_ne : handle ≠ 0 ↔ ok = true

/-- Which calls succeed. -/
structure Outcomes where
  allocRing : Bool
  vzalloc : Buffer → Bool
  establish : Buffer → GpadlOutcome
  kzalloc : Bool
  getMinor : Bool
  /-- `dev_set_name` and `device_add`. -/
  deviceAdd : Bool
  createDir : Dir → Bool
  kzallocItem : Dir → ℕ → Bool
  kobjectAdd : Dir → ℕ → Bool
  kobjectUevent : Dir → ℕ → Bool
  requestIrq : Bool
  createBinFile : Bool

/-- What `struct uio_info` says of the device: the sizes of its regions, and whether it has
an interrupt to request. -/
structure Info where
  size : Dir → ℕ → ℕ
  hasIrq : Bool

/-- `MAX_UIO_MAPS` and `MAX_UIO_PORT_REGIONS`. -/
def maxItems : Dir → ℕ := fun _ => 5

variable (o : Outcomes) (info : Info)

/-! ## Attributes -/

/-- How a loop of `uio_dev_add_attributes` ends, with its index. -/
inductive LoopEnd
  | done (i : ℕ)
  /-- The region has no kobject: to `err_map` or `err_portio`. -/
  | noItem (i : ℕ)
  /-- It has one: to `err_map_kobj` or `err_portio_kobj`. -/
  | badItem (i : ℕ)

/-- The directory is created with the first region. -/
def addDir (d : Dir) (found : Bool) (L : Ledger Resource) : Ledger Resource :=
  if found then L else L.acquire (.dir d)

/-- A loop of `uio_dev_add_attributes`, with the number of turns left; `found` says whether the
directory has been created. -/
def addItems (d : Dir) : ℕ → ℕ → Bool → Ledger Resource → Ledger Resource × Bool × LoopEnd
  | 0, i, found, L => (L, found, .done i)
  | n + 1, i, found, L =>
      if info.size d i = 0 then (L, found, .done i)
      else if !found && !o.createDir d then (L, found, .noItem i)
      else
        let L := addDir d found L
        if !o.kzallocItem d i then (L, true, .noItem i)
        else
          let L := L.acquire (.item d i)
          if !o.kobjectAdd d i then (L, true, .badItem i)
          else if !o.kobjectUevent d i then (L, true, .badItem i)
          else addItems d n (i + 1) true L

/-- `kobject_put` for the first `n` regions, the last one first. -/
def putItems (d : Dir) : ℕ → Ledger Resource → Ledger Resource
  | 0, L => L
  | n + 1, L => putItems d n (L.release (.item d n))

/-- `kobject_put` of a directory, which may not be there. -/
def putDir (d : Dir) (found : Bool) (L : Ledger Resource) : Ledger Resource :=
  if found then L.release (.dir d) else L

/-- From `err_portio` or `err_map` on: the kobjects of the regions, and the directory. -/
def unwindItems (d : Dir) (n : ℕ) (found : Bool) (L : Ledger Resource) : Ledger Resource :=
  putDir d found (putItems d n L)

/-- `uio_dev_add_attributes`: whether it succeeds, and which directories there are. -/
def uioDevAddAttributes (L : Ledger Resource) : Bool × (Dir → Bool) × Ledger Resource :=
  match addItems o info .maps (maxItems .maps) 0 false L with
  | (L, found, .noItem mi) => (false, fun _ => false, unwindItems .maps mi found L)
  | (L, found, .badItem mi) => (false, fun _ => false, unwindItems .maps (mi + 1) found L)
  | (L, mapFound, .done mi) =>
      match addItems o info .portio (maxItems .portio) 0 false L with
      | (L, found, .noItem pi) =>
          (false, fun _ => false, unwindItems .maps mi mapFound (unwindItems .portio pi found L))
      | (L, found, .badItem pi) =>
          (false, fun _ => false,
            unwindItems .maps mi mapFound (unwindItems .portio (pi + 1) found L))
      | (L, portioFound, .done _) =>
          (true, fun d => match d with | .maps => mapFound | .portio => portioFound, L)

/-- A loop of `uio_dev_del_attributes`, with the number of turns left. -/
def delItems (d : Dir) : ℕ → ℕ → Ledger Resource → Ledger Resource
  | 0, _, L => L
  | n + 1, i, L => if info.size d i = 0 then L else delItems d n (i + 1) (L.release (.item d i))

/-- `uio_dev_del_attributes`. -/
def uioDevDelAttributes (found : Dir → Bool) (L : Ledger Resource) : Ledger Resource :=
  let L := putDir .maps (found .maps) (delItems info .maps (maxItems .maps) 0 L)
  putDir .portio (found .portio) (delItems info .portio (maxItems .portio) 0 L)

/-! ## Registration -/

/-- From `err_device_create` on. -/
def errDeviceCreate (L : Ledger Resource) : Ledger Resource := (L.release .minor).release .idev

/-- `__uio_register_device`, with the directories that the attributes leave. -/
def uioRegisterDevice (L : Ledger Resource) : Bool × (Dir → Bool) × Ledger Resource :=
  if !o.kzalloc then (false, fun _ => false, L)
  else
    let L := L.acquire .idev
    if !o.getMinor then (false, fun _ => false, L.release .idev)
    else
      let L := L.acquire .minor
      if !o.deviceAdd then (false, fun _ => false, errDeviceCreate L)
      else
        let L := L.acquire .device
        match uioDevAddAttributes o info L with
        | (false, found, L) => (false, found, errDeviceCreate (L.release .device))
        | (true, found, L) =>
            if !info.hasIrq then (true, found, L)
            else if !o.requestIrq then
              (false, found, errDeviceCreate ((uioDevDelAttributes info found L).release .device))
            else (true, found, L.acquire .irq)

/-- `uio_unregister_device` on a device that no file holds. -/
def uioUnregisterDevice (found : Dir → Bool) (L : Ledger Resource) : Ledger Resource :=
  let L := uioDevDelAttributes info found L
  let L := if info.hasIrq then L.release .irq else L
  ((L.release .minor).release .device).release .idev

/-! ## Probe and remove -/

/-- What is held, and the private data as far as it says what to undo: the handle of each
GPADL, whether its buffer is decrypted, and the directories of the device. -/
structure Pdata where
  ledger : Ledger Resource
  handle : Buffer → UInt32
  decrypted : Buffer → Bool
  found : Dir → Bool

/-- Before the probe. -/
def fresh : Pdata := ⟨.empty, fun _ => 0, fun _ => false, fun _ => false⟩

/-- `vmbus_establish_gpadl`; where it fails the buffer is freed unless it is decrypted. -/
def establishGpadl (b : Buffer) (s : Pdata) : Bool × Pdata :=
  let r := o.establish b
  let s := { s with
    handle := Function.update s.handle b r.handle
    decrypted := Function.update s.decrypted b r.decrypted }
  if r.ok then (true, { s with ledger := s.ledger.acquire (.gpadl b) })
  else if !r.decrypted then (false, { s with ledger := s.ledger.release (.buffer b) })
  else (false, s)

/-- The part of `hv_uio_cleanup` for one buffer. -/
def cleanupBuffer (b : Buffer) (s : Pdata) : Pdata :=
  if s.handle b ≠ 0 then
    let s := { s with
      ledger := s.ledger.release (.gpadl b)
      handle := Function.update s.handle b 0
      decrypted := Function.update s.decrypted b (o.establish b).decryptedAfter }
    if !s.decrypted b then { s with ledger := s.ledger.release (.buffer b) } else s
  else s

/-- `hv_uio_cleanup`. -/
def hvUioCleanup (s : Pdata) : Pdata := cleanupBuffer o .recv (cleanupBuffer o .send s)

/-- From `fail_close` on. -/
def failClose (s : Pdata) : Pdata :=
  let s := hvUioCleanup o s
  { s with ledger := s.ledger.release .ring }

/-- From `uio_register_device` on. -/
def probeRegister (s : Pdata) : Bool × Pdata :=
  match uioRegisterDevice o info s.ledger with
  | (false, _, L) => (false, failClose o { s with ledger := L })
  | (true, found, L) =>
      let L := if o.createBinFile then L.acquire .binFile else L
      (true, { s with ledger := L, found := found })

/-- From the send buffer on. -/
def probeSend (s : Pdata) : Bool × Pdata :=
  if !o.vzalloc .send then (false, failClose o s)
  else
    match establishGpadl o .send { s with ledger := s.ledger.acquire (.buffer .send) } with
    | (false, s) => (false, failClose o s)
    | (true, s) => probeRegister o info s

/-- `hv_uio_probe`; its private data is allocated with the device and goes with it. -/
def hvUioProbe (s : Pdata) : Bool × Pdata :=
  if !o.allocRing then (false, s)
  else
    let s := { s with ledger := s.ledger.acquire .ring }
    if !o.vzalloc .recv then (false, { s with ledger := s.ledger.release .ring })
    else
      match establishGpadl o .recv { s with ledger := s.ledger.acquire (.buffer .recv) } with
      | (false, s) => (false, failClose o s)
      | (true, s) => probeSend o info s

/-- `hv_uio_remove`; removing a file that could not be created does nothing. -/
def hvUioRemove (s : Pdata) : Pdata :=
  let L := if o.createBinFile then s.ledger.release .binFile else s.ledger
  let s := hvUioCleanup o { s with ledger := uioUnregisterDevice info s.found L }
  { s with ledger := s.ledger.release .ring }

/-! ## What the loops hold -/

variable {o info} {L : Ledger Resource} {S : Set Resource} {d : Dir} {n i m : ℕ} {found : Bool}

/-- The kobjects of the regions from `i` to below `m`. -/
def items (d : Dir) (i m : ℕ) : Set Resource := {k | ∃ j, i ≤ j ∧ j < m ∧ k = .item d j}

/-- A directory that may be there. -/
def dirs (d : Dir) (found : Bool) : Set Resource := {k | found = true ∧ k = .dir d}

theorem items_self : items d i i = ∅ := by
  ext k
  simp only [items, Set.mem_ofPred_eq, Set.mem_empty_iff_false, iff_false]
  rintro ⟨j, hij, hji, _⟩
  omega

theorem items_succ_right (h : i ≤ m) : items d i (m + 1) = insert (.item d m) (items d i m) := by
  ext k
  simp only [items, Set.mem_ofPred_eq, Set.mem_insert_iff]
  constructor
  · rintro ⟨j, hij, hjm, rfl⟩
    obtain hlt | rfl := Nat.lt_succ_iff_lt_or_eq.mp hjm
    · exact .inr ⟨j, hij, hlt, rfl⟩
    · exact .inl rfl
  · rintro (rfl | ⟨j, hij, hjm, rfl⟩)
    · exact ⟨m, h, Nat.lt_succ_self m, rfl⟩
    · exact ⟨j, hij, by omega, rfl⟩

theorem items_eq_insert (h : i < m) : items d i m = insert (.item d i) (items d (i + 1) m) := by
  ext k
  simp only [items, Set.mem_ofPred_eq, Set.mem_insert_iff]
  constructor
  · rintro ⟨j, hij, hjm, rfl⟩
    obtain hlt | rfl := Nat.lt_or_eq_of_le hij
    · exact .inr ⟨j, hlt, hjm, rfl⟩
    · exact .inl rfl
  · rintro (rfl | ⟨j, hij, hjm, rfl⟩)
    · exact ⟨i, le_rfl, h, rfl⟩
    · exact ⟨j, by omega, hjm, rfl⟩

theorem item_mem_items {j : ℕ} {d' : Dir} :
    Resource.item d' j ∈ items d i m ↔ d' = d ∧ i ≤ j ∧ j < m := by
  simp only [items, Set.mem_ofPred_eq, Resource.item.injEq]
  constructor
  · rintro ⟨_, hij, hjm, rfl, rfl⟩
    exact ⟨rfl, hij, hjm⟩
  · rintro ⟨rfl, hij, hjm⟩
    exact ⟨j, hij, hjm, rfl, rfl⟩

theorem dirs_false : dirs d false = ∅ := by simp [dirs]

theorem dirs_true : dirs d true = {.dir d} := by simp [dirs]

theorem dir_mem_dirs {d' : Dir} : Resource.dir d' ∈ dirs d found ↔ found = true ∧ d' = d := by
  simp [dirs]

theorem dir_notMem_items {d' : Dir} : Resource.dir d' ∉ items d i m := by simp [items]

theorem item_notMem_dirs {j : ℕ} {d' : Dir} : Resource.item d' j ∉ dirs d found := by simp [dirs]

attribute [simp] items_self dirs_false dirs_true item_mem_items dir_mem_dirs dir_notMem_items
  item_notMem_dirs

theorem holds_putItems (H : L.Holds (S ∪ items d 0 n)) (hS : ∀ j, .item d j ∉ S) :
    (putItems d n L).Holds S := by
  induction n generalizing L with
  | zero => simpa [putItems] using H
  | succ n ih =>
      rw [items_succ_right (Nat.zero_le n), Set.union_insert] at H
      exact ih (H.release_insert (by simp [hS]))

theorem holds_putDir (H : L.Holds (S ∪ dirs d found)) (hS : .dir d ∉ S) :
    (putDir d found L).Holds S := by
  cases found with
  | false => simpa [putDir] using H
  | true =>
      rw [dirs_true, Set.union_singleton] at H
      exact H.release_insert hS

/-- What an error path takes down. -/
theorem holds_unwindItems (H : L.Holds (S ∪ dirs d found ∪ items d 0 n)) (hdir : .dir d ∉ S)
    (hitem : ∀ j, .item d j ∉ S) : (unwindItems d n found L).Holds S := by
  have hput : (putItems d n L).Holds (S ∪ dirs d found) := holds_putItems H (by simp [hitem])
  exact holds_putDir hput hdir

/-- The regions before `m`, from index `i` on, are those before the first of size zero. -/
structure Counts (info : Info) (d : Dir) (i limit m : ℕ) : Prop where
  le : i ≤ m
  le_limit : m ≤ limit
  size_ne : ∀ j, i ≤ j → j < m → info.size d j ≠ 0
  size_end : m < limit → info.size d m = 0

theorem Counts.tail (hm : Counts info d i n m) (h : i < m) : Counts info d (i + 1) n m :=
  ⟨h, hm.le_limit, fun j hij hjm => hm.size_ne j (by omega) hjm, hm.size_end⟩

theorem Counts.cons (hm : Counts info d (i + 1) n m) (h : info.size d i ≠ 0) :
    Counts info d i n m where
  le := Nat.le_of_succ_le hm.le
  le_limit := hm.le_limit
  size_ne := by
    intro j hij hjm
    obtain hlt | rfl := Nat.lt_or_eq_of_le hij
    · exact hm.size_ne j hlt hjm
    · exact h
  size_end := hm.size_end

theorem holds_delItems (hm : Counts info d i (n + i) m) (H : L.Holds (S ∪ items d i m))
    (hS : ∀ j, .item d j ∉ S) : (delItems info d n i L).Holds S := by
  induction n generalizing i L with
  | zero =>
      obtain rfl : m = i := by have := hm.le; have := hm.le_limit; omega
      simpa [delItems] using H
  | succ n ih =>
      simp only [delItems]
      split_ifs with hsize
      · obtain rfl : i = m := by
          by_contra hne
          exact hm.size_ne i le_rfl (Nat.lt_of_le_of_ne hm.le hne) hsize
        simpa using H
      · have hlt : i < m := by
          by_contra hge
          obtain rfl : m = i := by have := hm.le; omega
          exact hsize (hm.size_end (by omega))
        rw [items_eq_insert hlt, Set.union_insert] at H
        have hlimit : n + 1 + i = n + (i + 1) := by omega
        exact ih (hlimit ▸ hm.tail hlt) (H.release_insert (by simp [hS]))

theorem holds_addDir (H : L.Holds (S ∪ dirs d found ∪ items d 0 i)) (hdir : .dir d ∉ S) :
    (addDir d found L).Holds (S ∪ dirs d true ∪ items d 0 i) := by
  cases found with
  | true => exact H
  | false =>
      have hacquire := H.acquire (k := .dir d) (by simp [hdir])
      simpa [addDir, Set.insert_union] using hacquire

/-- What a loop of `uio_dev_add_attributes` holds where it ends. -/
def LoopPost (info : Info) (d : Dir) (i limit : ℕ) (S : Set Resource) :
    Ledger Resource × Bool × LoopEnd → Prop
  | (L, found, .done m) => L.Holds (S ∪ dirs d found ∪ items d 0 m) ∧ Counts info d i limit m
  | (L, found, .noItem m) => L.Holds (S ∪ dirs d found ∪ items d 0 m)
  | (L, found, .badItem m) => L.Holds (S ∪ dirs d found ∪ items d 0 (m + 1))

theorem holds_addItems (o : Outcomes) (info : Info)
    (H : L.Holds (S ∪ dirs d found ∪ items d 0 i)) (hdir : .dir d ∉ S)
    (hitem : ∀ j, .item d j ∉ S) :
    LoopPost info d i (n + i) S (addItems o info d n i found L) := by
  induction n generalizing i found L with
  | zero => exact ⟨H, ⟨le_rfl, by omega, fun j hij hji => by omega, fun h => by omega⟩⟩
  | succ n ih =>
      -- The directory, and then the kobject, as they are there unless a call fails.
      have hfound := holds_addDir H hdir
      have hacquire : ((addDir d found L).acquire (.item d i)).Holds
          (S ∪ dirs d true ∪ items d 0 (i + 1)) := by
        rw [items_succ_right (Nat.zero_le i), Set.union_insert]
        exact hfound.acquire (by simp [hitem])
      simp only [addItems]
      split_ifs with hsize
      · exact ⟨H, ⟨le_rfl, by omega, fun j hij hji => by omega, fun _ => hsize⟩⟩
      · exact H
      · exact hfound
      · exact hacquire
      · exact hacquire
      · have hrest := ih hacquire
        revert hrest
        generalize addItems o info d n (i + 1) true ((addDir d found L).acquire (.item d i)) = r
        obtain ⟨L'', found'', e⟩ := r
        cases e with
        | done m =>
            rintro ⟨hholds, hcounts⟩
            have hlimit : n + (i + 1) = n + 1 + i := by omega
            exact ⟨hholds, hlimit ▸ hcounts.cons hsize⟩
        | noItem m => exact id
        | badItem m => exact id

/-! ## What registration holds -/

/-- How many kobjects each directory gets. -/
def Regions (info : Info) (m : Dir → ℕ) : Prop := ∀ d, Counts info d 0 (maxItems d) (m d)

def attributes (found : Dir → Bool) (m : Dir → ℕ) : Set Resource :=
  dirs .maps (found .maps) ∪ items .maps 0 (m .maps) ∪
    (dirs .portio (found .portio) ∪ items .portio 0 (m .portio))

/-- What belongs to the UIO device. -/
def OfDevice : Resource → Prop
  | .idev | .minor | .device | .irq | .dir _ | .item _ _ => True
  | .ring | .buffer _ | .gpadl _ | .binFile => False

/-- The device, with its interrupt if it has one. -/
def registered (info : Info) (found : Dir → Bool) (m : Dir → ℕ) : Set Resource :=
  {.idev, .minor, .device} ∪ {k | info.hasIrq = true ∧ k = .irq} ∪ attributes found m

/-- A call that takes `T` if it succeeds, and nothing if it fails. -/
def TakesOr (info : Info) (S : Set Resource) (T : (Dir → Bool) → (Dir → ℕ) → Set Resource) :
    Bool × (Dir → Bool) × Ledger Resource → Prop
  | (false, _, L) => L.Holds S
  | (true, found, L) => ∃ m, Regions info m ∧ L.Holds (S ∪ T found m)

theorem holds_uioDevAddAttributes (o : Outcomes) (info : Info) (H : L.Holds S)
    (hdir : ∀ d, .dir d ∉ S) (hitem : ∀ d j, .item d j ∉ S) :
    TakesOr info S attributes (uioDevAddAttributes o info L) := by
  have hmaps := holds_addItems o info (n := maxItems .maps)
    (by simpa using H : L.Holds (S ∪ dirs .maps false ∪ items .maps 0 0)) (hdir _) (hitem _)
  simp only [uioDevAddAttributes]
  revert hmaps
  generalize addItems o info .maps (maxItems .maps) 0 false L = r
  obtain ⟨L, mapFound, e⟩ := r
  cases e with
  | noItem mi => exact fun hmaps => holds_unwindItems hmaps (hdir _) (hitem _)
  | badItem mi => exact fun hmaps => holds_unwindItems hmaps (hdir _) (hitem _)
  | done mi =>
      rintro ⟨hmaps, hmi⟩
      dsimp only
      have hdir' : .dir .portio ∉ S ∪ dirs .maps mapFound ∪ items .maps 0 mi := by simp [hdir]
      have hitem' : ∀ j, .item .portio j ∉ S ∪ dirs .maps mapFound ∪ items .maps 0 mi := by
        simp [hitem]
      have hnone : L.Holds (S ∪ dirs .maps mapFound ∪ items .maps 0 mi ∪ dirs .portio false ∪
          items .portio 0 0) := by
        simpa using hmaps
      have hportio := holds_addItems o info (n := maxItems .portio) hnone hdir' hitem'
      revert hportio
      generalize addItems o info .portio (maxItems .portio) 0 false L = r
      obtain ⟨L, portioFound, e⟩ := r
      cases e with
      | noItem pi =>
          intro hportio
          exact holds_unwindItems (holds_unwindItems hportio hdir' hitem') (hdir _) (hitem _)
      | badItem pi =>
          intro hportio
          exact holds_unwindItems (holds_unwindItems hportio hdir' hitem') (hdir _) (hitem _)
      | done pi =>
          rintro ⟨hportio, hpi⟩
          refine ⟨fun d => match d with | .maps => mi | .portio => pi, ?_, ?_⟩
          · intro d
            cases d with
            | maps => exact hmi
            | portio => exact hpi
          · simpa only [attributes, Set.union_assoc] using hportio

theorem holds_uioDevDelAttributes {found : Dir → Bool} {m : Dir → ℕ} (hm : Regions info m)
    (H : L.Holds (S ∪ attributes found m)) (hdir : ∀ d, .dir d ∉ S)
    (hitem : ∀ d j, .item d j ∉ S) : (uioDevDelAttributes info found L).Holds S := by
  -- In the order in which they go, the last first.
  have hsplit : S ∪ attributes found m = S ∪ dirs .portio (found .portio) ∪
      items .portio 0 (m .portio) ∪ dirs .maps (found .maps) ∪ items .maps 0 (m .maps) := by
    simp only [attributes]
    ac_rfl
  rw [hsplit] at H
  have hmaps := holds_putDir (holds_delItems (hm .maps) H (by simp [hitem])) (by simp [hdir])
  exact holds_putDir (holds_delItems (hm .portio) hmaps (by simp [hitem])) (hdir .portio)

/-- A device that has been added, without attributes or an interrupt. -/
def added (S : Set Resource) : Set Resource := insert .device (insert .minor (insert .idev S))

theorem notMem_added {k : Resource} (hS : k ∉ S) (hidev : k ≠ .idev) (hminor : k ≠ .minor)
    (hdevice : k ≠ .device) : k ∉ added S := by
  simp [added, hidev, hminor, hdevice, hS]

theorem added_union_registered {found : Dir → Bool} {m : Dir → ℕ} :
    S ∪ registered info found m =
      added S ∪ attributes found m ∪ {k | info.hasIrq = true ∧ k = .irq} := by
  ext k
  simp only [added, registered, Set.mem_union, Set.mem_insert_iff, Set.mem_singleton_iff]
  tauto

theorem holds_errDeviceCreate (H : L.Holds (insert .minor (insert .idev S))) (hidev : .idev ∉ S)
    (hminor : .minor ∉ S) : (errDeviceCreate L).Holds S := by
  have hput := H.release_insert (by simp [hminor])
  exact hput.release_insert hidev

theorem holds_uioRegisterDevice (o : Outcomes) (info : Info) (H : L.Holds S)
    (hS : ∀ k, OfDevice k → k ∉ S) :
    TakesOr info S (registered info) (uioRegisterDevice o info L) := by
  have hidev := H.acquire (hS .idev trivial)
  have hminor := hidev.acquire (k := .minor) (by simp [hS .minor trivial])
  have hdevice : (((L.acquire .idev).acquire .minor).acquire .device).Holds (added S) :=
    hminor.acquire (by simp [hS .device trivial])
  have hdir (d) : .dir d ∉ added S := notMem_added (hS _ trivial) nofun nofun nofun
  have hitem (d j) : .item d j ∉ added S := notMem_added (hS _ trivial) nofun nofun nofun
  have hirq : .irq ∉ added S := notMem_added (hS _ trivial) nofun nofun nofun
  -- `device_del`, whatever led to it.
  have hundo {L : Ledger Resource} (hL : L.Holds (added S)) :
      (errDeviceCreate (L.release .device)).Holds S := by
    have hdel := Ledger.Holds.release_insert hL (by simp [hS .device trivial])
    exact holds_errDeviceCreate hdel (hS _ trivial) (hS _ trivial)
  simp only [uioRegisterDevice, Bool.not_eq_true']
  by_cases hkzalloc : o.kzalloc = false
  · rw [if_pos hkzalloc]
    exact H
  rw [if_neg hkzalloc]
  by_cases hgetMinor : o.getMinor = false
  · rw [if_pos hgetMinor]
    exact hidev.release_insert (hS .idev trivial)
  rw [if_neg hgetMinor]
  by_cases hadd : o.deviceAdd = false
  · rw [if_pos hadd]
    exact holds_errDeviceCreate hminor (hS _ trivial) (hS _ trivial)
  rw [if_neg hadd]
  have hattributes := holds_uioDevAddAttributes o info hdevice hdir hitem
  revert hattributes
  generalize uioDevAddAttributes o info (((L.acquire .idev).acquire .minor).acquire .device) = r
  obtain ⟨ok, found, L⟩ := r
  cases ok with
  | false => exact hundo
  | true =>
      rintro ⟨m, hm, hattributes⟩
      dsimp only
      split_ifs with hnone hrequest
      · refine ⟨m, hm, ?_⟩
        rw [added_union_registered]
        simpa [hnone] using hattributes
      · exact hundo (holds_uioDevDelAttributes hm hattributes hdir hitem)
      · have hacquire := hattributes.acquire (k := .irq) (by simp [attributes, dirs, items, hirq])
        refine ⟨m, hm, ?_⟩
        rw [added_union_registered]
        simpa [hnone] using hacquire

theorem holds_uioUnregisterDevice {found : Dir → Bool} {m : Dir → ℕ} (hm : Regions info m)
    (H : L.Holds (S ∪ registered info found m)) (hS : ∀ k, OfDevice k → k ∉ S) :
    (uioUnregisterDevice info found L).Holds S := by
  have hirq : .irq ∉ added S := notMem_added (hS _ trivial) nofun nofun nofun
  have hsplit : S ∪ registered info found m =
      added S ∪ {k | info.hasIrq = true ∧ k = .irq} ∪ attributes found m := by
    rw [added_union_registered, Set.union_right_comm]
  rw [hsplit] at H
  have hdel := holds_uioDevDelAttributes hm H
    (fun d => by simp [notMem_added (hS (.dir d) trivial) nofun nofun nofun])
    (fun d j => by simp [notMem_added (hS (.item d j) trivial) nofun nofun nofun])
  have hfree : (if info.hasIrq then (uioDevDelAttributes info found L).release .irq
      else uioDevDelAttributes info found L).Holds (added S) := by
    split_ifs with hhas
    · have hinsert : (uioDevDelAttributes info found L).Holds (insert .irq (added S)) := by
        simpa [hhas] using hdel
      exact hinsert.release_insert hirq
    · simpa [hhas] using hdel
  -- The minor number goes before the device does.
  have hcomm : added S = insert .minor (insert .device (insert .idev S)) := Set.insert_comm ..
  rw [hcomm] at hfree
  have hminor := hfree.release_insert (by simp [hS .minor trivial])
  have hdevice := hminor.release_insert (by simp [hS .device trivial])
  exact hdevice.release_insert (hS .idev trivial)

/-! ## What a probe holds -/

variable {s s' : Pdata} {b : Buffer}

/-- What there is of a buffer, as the private data has it. The buffer outlives its GPADL if its
pages are still decrypted. -/
def OfBuffer (s : Pdata) (b : Buffer) (k : Resource) : Prop :=
  (k = .buffer b ∧ (s.handle b ≠ 0 ∨ s.decrypted b = true)) ∨ (k = .gpadl b ∧ s.handle b ≠ 0)

def buffers (s : Pdata) : Set Resource := {k | ∃ b, OfBuffer s b k}

/-- What there is of the other buffer. -/
def others (s : Pdata) (b : Buffer) : Set Resource := {k | ∃ b', b' ≠ b ∧ OfBuffer s b' k}

/-- The buffers that are not freed. -/
def leaked (s : Pdata) : Set Resource := {k | ∃ b, k = .buffer b ∧ s.decrypted b = true}

theorem buffers_eq_leaked (h : ∀ b, s.handle b = 0) : buffers s = leaked s := by
  simp [buffers, leaked, OfBuffer, h]

theorem notMem_of_ofDevice {k : Resource} (hk : OfDevice k) :
    k ∉ ({.ring} ∪ buffers s : Set Resource) := by
  rintro (rfl | ⟨b, ⟨rfl, _⟩ | ⟨rfl, _⟩⟩)
  · exact hk
  · exact hk
  · exact hk

theorem mem_buffers_iff (k : Resource) : k ∈ buffers s ↔ OfBuffer s b k ∨ k ∈ others s b := by
  constructor
  · rintro ⟨b', hb'⟩
    by_cases hbb : b' = b
    · exact .inl (hbb ▸ hb')
    · exact .inr ⟨b', hbb, hb'⟩
  · rintro (hk | ⟨b', _, hk⟩)
    · exact ⟨b, hk⟩
    · exact ⟨b', hk⟩

theorem buffers_of_handle (h : s.handle b ≠ 0) :
    buffers s = insert (.gpadl b) (insert (.buffer b) (others s b)) := by
  ext k
  rw [mem_buffers_iff (b := b)]
  simp only [OfBuffer, Set.mem_insert_iff]
  tauto

theorem buffers_of_decrypted (h : s.handle b = 0) (hd : s.decrypted b = true) :
    buffers s = insert (.buffer b) (others s b) := by
  ext k
  rw [mem_buffers_iff (b := b)]
  simp [OfBuffer, h, hd]

theorem buffers_of_freed (h : s.handle b = 0) (hd : s.decrypted b = false) :
    buffers s = others s b := by
  ext k
  rw [mem_buffers_iff (b := b)]
  simp [OfBuffer, h, hd]

theorem others_congr (hh : ∀ b' ≠ b, s'.handle b' = s.handle b')
    (hd : ∀ b' ≠ b, s'.decrypted b' = s.decrypted b') : others s' b = others s b := by
  ext k
  simp only [others, OfBuffer, Set.mem_ofPred_eq]
  refine exists_congr fun b' => and_congr_right fun hb' => ?_
  rw [hh b' hb', hd b' hb']

theorem buffer_notMem_others : .buffer b ∉ others s b := by
  rintro ⟨b', hb', ⟨h, _⟩ | ⟨h, _⟩⟩
  · exact hb' (Resource.buffer.inj h).symm
  · cases h

theorem gpadl_notMem_others : .gpadl b ∉ others s b := by
  rintro ⟨b', hb', ⟨h, _⟩ | ⟨h, _⟩⟩
  · cases h
  · exact hb' (Resource.gpadl.inj h).symm

theorem handle_establishGpadl : (establishGpadl o b s).2.handle =
    Function.update s.handle b (o.establish b).handle := by
  simp only [establishGpadl]
  split_ifs <;> rfl

theorem decrypted_establishGpadl : (establishGpadl o b s).2.decrypted =
    Function.update s.decrypted b (o.establish b).decrypted := by
  simp only [establishGpadl]
  split_ifs <;> rfl

/-- Whether the GPADL is established or not, the buffer is accounted for. -/
theorem holds_establishGpadl (H : s.ledger.Holds (insert (.buffer b) (S ∪ buffers s)))
    (hhandle : s.handle b = 0) (hdecrypted : s.decrypted b = false) (hbuffer : .buffer b ∉ S)
    (hgpadl : .gpadl b ∉ S) :
    (establishGpadl o b s).2.ledger.Holds (S ∪ buffers (establishGpadl o b s).2) := by
  have hok := (o.establish b).handle_ne
  rw [buffers_of_freed hhandle hdecrypted] at H
  have hothers : others (establishGpadl o b s).2 b = others s b := by
    refine others_congr ?_ ?_
    · intro b' hb'
      rw [handle_establishGpadl, Function.update_of_ne hb']
    · intro b' hb'
      rw [decrypted_establishGpadl, Function.update_of_ne hb']
  have hhandle' : (establishGpadl o b s).2.handle b = (o.establish b).handle := by
    rw [handle_establishGpadl, Function.update_self]
  have hdecrypted' : (establishGpadl o b s).2.decrypted b = (o.establish b).decrypted := by
    rw [decrypted_establishGpadl, Function.update_self]
  by_cases hsucceeds : (o.establish b).ok = true
  · have hacquire := H.acquire (k := .gpadl b) (by simp [hgpadl, gpadl_notMem_others])
    rw [buffers_of_handle (hhandle'.trans_ne (hok.mpr hsucceeds)), hothers]
    simpa [establishGpadl, hsucceeds, Set.union_insert] using hacquire
  · have hnone := hhandle'.trans (not_not.mp (mt hok.mp hsucceeds))
    by_cases hlost : (o.establish b).decrypted = true
    · rw [buffers_of_decrypted hnone (hdecrypted'.trans hlost), hothers]
      simpa [establishGpadl, hsucceeds, hlost, Set.union_insert] using H
    · have hrelease := H.release_insert (by simp [hbuffer, buffer_notMem_others])
      rw [buffers_of_freed hnone (hdecrypted'.trans (Bool.eq_false_of_not_eq_true hlost)), hothers]
      simpa [establishGpadl, hsucceeds, hlost] using hrelease

theorem handle_cleanupBuffer : (cleanupBuffer o b s).handle = Function.update s.handle b 0 := by
  simp only [cleanupBuffer]
  split_ifs with hhandle hlost
  · rfl
  · rfl
  · rw [← not_not.mp hhandle, Function.update_eq_self]

theorem decrypted_cleanupBuffer_of_ne {b' : Buffer} (h : b' ≠ b) :
    (cleanupBuffer o b s).decrypted b' = s.decrypted b' := by
  simp only [cleanupBuffer]
  split_ifs
  · exact Function.update_of_ne h ..
  · exact Function.update_of_ne h ..
  · rfl

/-- A buffer without a GPADL has been seen to already. -/
theorem holds_cleanupBuffer (H : s.ledger.Holds (S ∪ buffers s)) (hbuffer : .buffer b ∉ S)
    (hgpadl : .gpadl b ∉ S) :
    (cleanupBuffer o b s).ledger.Holds (S ∪ buffers (cleanupBuffer o b s)) := by
  by_cases hhandle : s.handle b = 0
  · simpa [cleanupBuffer, hhandle] using H
  have hothers : others (cleanupBuffer o b s) b = others s b := by
    refine others_congr ?_ fun b' hb' => decrypted_cleanupBuffer_of_ne hb'
    intro b' hb'
    rw [handle_cleanupBuffer, Function.update_of_ne hb']
  have hhandle' : (cleanupBuffer o b s).handle b = 0 := by
    rw [handle_cleanupBuffer, Function.update_self]
  have hdecrypted' : (cleanupBuffer o b s).decrypted b = (o.establish b).decryptedAfter := by
    simp only [cleanupBuffer, ne_eq, hhandle, not_false_eq_true, if_true]
    split_ifs <;> exact Function.update_self ..
  rw [buffers_of_handle hhandle, Set.union_insert, Set.union_insert] at H
  have hteardown := H.release_insert (by simp [hgpadl, gpadl_notMem_others])
  by_cases hlost : (o.establish b).decryptedAfter = true
  · rw [buffers_of_decrypted hhandle' (hdecrypted'.trans hlost), hothers, Set.union_insert]
    simpa [cleanupBuffer, hhandle, hlost] using hteardown
  · have hfree := hteardown.release_insert (by simp [hbuffer, buffer_notMem_others])
    rw [buffers_of_freed hhandle' (hdecrypted'.trans (Bool.eq_false_of_not_eq_true hlost)), hothers]
    simpa [cleanupBuffer, hhandle, hlost] using hfree

theorem holds_hvUioCleanup (H : s.ledger.Holds (S ∪ buffers s)) (hbuffer : ∀ b, .buffer b ∉ S)
    (hgpadl : ∀ b, .gpadl b ∉ S) :
    (hvUioCleanup o s).ledger.Holds (S ∪ leaked (hvUioCleanup o s)) := by
  have hsend := holds_cleanupBuffer (o := o) H (hbuffer .send) (hgpadl .send)
  have hrecv := holds_cleanupBuffer (o := o) hsend (hbuffer .recv) (hgpadl .recv)
  rw [← buffers_eq_leaked]
  · exact hrecv
  · intro b
    simp only [hvUioCleanup, handle_cleanupBuffer]
    cases b <;> rfl

theorem holds_failClose (H : s.ledger.Holds ({.ring} ∪ buffers s)) :
    (failClose o s).ledger.Holds (leaked (failClose o s)) := by
  have hcleanup := holds_hvUioCleanup (o := o) H (by simp) (by simp)
  rw [Set.singleton_union] at hcleanup
  exact hcleanup.release_insert (by simp [leaked])

/-- What a probe that succeeds leaves to be undone. -/
def Probed (o : Outcomes) (info : Info) (s : Pdata) : Prop :=
  ∃ m, Regions info m ∧ s.ledger.Holds ({.ring} ∪ buffers s ∪ {k | o.createBinFile = true ∧
    k = .binFile} ∪ registered info s.found m)

/-- A probe that fails keeps only what may not be freed. -/
def ProbePost (o : Outcomes) (info : Info) : Bool × Pdata → Prop
  | (false, s) => s.ledger.Holds (leaked s)
  | (true, s) => Probed o info s

theorem buffers_of_fresh (hh : ∀ b, s.handle b = 0) (hd : ∀ b, s.decrypted b = false) :
    buffers s = ∅ := by
  simp [buffers, OfBuffer, hh, hd]

theorem holds_probeRegister (H : s.ledger.Holds ({.ring} ∪ buffers s)) :
    ProbePost o info (probeRegister o info s) := by
  have hregister := holds_uioRegisterDevice o info H fun k => notMem_of_ofDevice
  simp only [probeRegister]
  revert hregister
  generalize uioRegisterDevice o info s.ledger = r
  obtain ⟨ok, found, L⟩ := r
  cases ok with
  | false =>
      intro hregister
      exact holds_failClose (s := { s with ledger := L }) hregister
  | true =>
      rintro ⟨m, hm, hregister⟩
      refine ⟨m, hm, ?_⟩
      dsimp only
      rw [Set.union_right_comm]
      split_ifs with hbin
      · have hacquire := hregister.acquire (k := .binFile)
          (by simp [registered, attributes, dirs, items, buffers, OfBuffer])
        simpa [hbin, buffers, OfBuffer] using hacquire
      · simpa [hbin, buffers, OfBuffer] using hregister

theorem holds_probeSend (H : s.ledger.Holds ({.ring} ∪ buffers s)) (hhandle : s.handle .send = 0)
    (hdecrypted : s.decrypted .send = false) : ProbePost o info (probeSend o info s) := by
  have hbuffer := H.acquire (k := .buffer .send) (by simp [buffers, OfBuffer, hhandle, hdecrypted])
  have hestablish := holds_establishGpadl (o := o) (b := .send) (S := {.ring})
    (s := { s with ledger := s.ledger.acquire (.buffer .send) }) hbuffer hhandle hdecrypted
    (by simp) (by simp)
  simp only [probeSend]
  split_ifs with hsend
  · exact holds_failClose H
  revert hestablish
  generalize establishGpadl o .send { s with ledger := s.ledger.acquire (.buffer .send) } = r
  obtain ⟨ok, s⟩ := r
  cases ok with
  | false => exact holds_failClose
  | true => exact holds_probeRegister

theorem holds_hvUioProbe (o : Outcomes) (info : Info) :
    ProbePost o info (hvUioProbe o info fresh) := by
  have hempty : fresh.ledger.Holds ∅ := Ledger.holds_empty
  have hring := hempty.acquire (k := .ring) (Set.notMem_empty _)
  have hbuffer := hring.acquire (k := .buffer .recv) (by simp)
  let s : Pdata := { fresh with ledger := (fresh.ledger.acquire .ring).acquire (.buffer .recv) }
  have hnone : buffers s = ∅ := buffers_of_fresh (fun _ => rfl) (fun _ => rfl)
  have hestablish := holds_establishGpadl (o := o) (b := .recv) (S := {.ring}) (s := s)
    (by simpa [hnone] using hbuffer) rfl rfl (by simp) (by simp)
  have hhandle : (establishGpadl o .recv s).2.handle .send = 0 := by
    rw [handle_establishGpadl]
    rfl
  have hdecrypted : (establishGpadl o .recv s).2.decrypted .send = false := by
    rw [decrypted_establishGpadl]
    rfl
  simp only [hvUioProbe]
  split_ifs with halloc hrecv
  · exact hempty.congr fun k => by simp [leaked, fresh]
  · have hrelease := hring.release_insert (Set.notMem_empty _)
    exact hrelease.congr fun k => by simp [leaked, fresh]
  · change ProbePost o info (match establishGpadl o .recv s with
      | (false, s) => (false, failClose o s)
      | (true, s) => probeSend o info s)
    revert hestablish hhandle hdecrypted
    generalize establishGpadl o .recv s = r
    obtain ⟨ok, s⟩ := r
    cases ok with
    | false => exact fun hestablish _ _ => holds_failClose hestablish
    | true => exact holds_probeSend

/-- A probe, and a remove behind it if it succeeds, when no file holds the device. -/
def probeThenRemove (o : Outcomes) (info : Info) : Pdata :=
  match hvUioProbe o info fresh with
  | (false, s) => s
  | (true, s) => hvUioRemove o info s

theorem holds_hvUioRemove (h : Probed o info s) :
    (hvUioRemove o info s).ledger.Holds (leaked (hvUioRemove o info s)) := by
  obtain ⟨m, hm, H⟩ := h
  have hbin : (if o.createBinFile then s.ledger.release .binFile else s.ledger).Holds
      ({.ring} ∪ buffers s ∪ registered info s.found m) := by
    rw [Set.union_right_comm] at H
    split_ifs with hbin
    · refine Ledger.Holds.release_insert (k := Resource.binFile) ?_
        (by simp [registered, attributes, dirs, items, buffers, OfBuffer])
      simpa [hbin] using H
    · simpa [hbin] using H
  have hunregister := holds_uioUnregisterDevice hm hbin fun k => notMem_of_ofDevice
  exact holds_failClose (s := { s with ledger := uioUnregisterDevice info s.found _ }) hunregister

/-- Whichever calls fail and whatever regions there are, what is set up is taken down, once. -/
theorem probe_balanced (o : Outcomes) (info : Info) :
    (probeThenRemove o info).ledger.Holds (leaked (probeThenRemove o info)) := by
  have hprobe := holds_hvUioProbe o info
  simp only [probeThenRemove]
  revert hprobe
  generalize hvUioProbe o info fresh = r
  obtain ⟨ok, s⟩ := r
  cases ok with
  | false => exact id
  | true => exact holds_hvUioRemove

/-- Everything succeeds, on a device with two regions and an interrupt. -/
def allSucceed : Outcomes where
  allocRing := true
  vzalloc := fun _ => true
  establish := fun _ => ⟨true, 0xE1E10, true, false, by decide⟩
  kzalloc := true
  getMinor := true
  deviceAdd := true
  createDir := fun _ => true
  kzallocItem := fun _ _ => true
  kobjectAdd := fun _ _ => true
  kobjectUevent := fun _ _ => true
  requestIrq := true
  createBinFile := true

/-- The GPADL of the send buffer is not established, and its pages stay decrypted. -/
def lostSend : Outcomes where
  __ := allSucceed
  establish := fun b => match b with
    | .recv => ⟨true, 0xE1E10, true, false, by decide⟩
    | .send => ⟨false, 0, true, true, by decide⟩

def twoRegions : Info := ⟨fun d i => if d = .maps ∧ i < 2 then 4096 else 0, true⟩

/-- A probe and a remove of which all succeeds leave nothing, and a probe that fails at the
second GPADL leaves the buffer whose pages stay decrypted. -/
theorem probe_balanced_lostSend :
    (hvUioProbe allSucceed twoRegions fresh).1 = true ∧
    (hvUioProbe allSucceed twoRegions fresh).2.ledger.held (.item .maps 1) = 1 ∧
    (probeThenRemove allSucceed twoRegions).ledger.Holds ∅ ∧
    (hvUioProbe lostSend twoRegions fresh).1 = false ∧
    (probeThenRemove lostSend twoRegions).ledger.Holds {.buffer .send} := by
  have hall : leaked (probeThenRemove allSucceed twoRegions) = ∅ := by
    have hdecrypted : ∀ b, (probeThenRemove allSucceed twoRegions).decrypted b = false := by
      intro b
      cases b <;> rfl
    simp [leaked, hdecrypted]
  have hlost : leaked (probeThenRemove lostSend twoRegions) = {.buffer .send} := by
    have hrecv : (probeThenRemove lostSend twoRegions).decrypted .recv = false := rfl
    have hsend : (probeThenRemove lostSend twoRegions).decrypted .send = true := rfl
    ext k
    simp only [leaked, Set.mem_ofPred_eq, Set.mem_singleton_iff]
    constructor
    · rintro ⟨b, rfl, hb⟩
      cases b with
      | recv => rw [hrecv] at hb; cases hb
      | send => rfl
    · rintro rfl
      exact ⟨.send, rfl, hsend⟩
  refine ⟨rfl, rfl, ?_, rfl, ?_⟩
  · rw [← hall]
    exact probe_balanced allSucceed twoRegions
  · rw [← hlost]
    exact probe_balanced lostSend twoRegions

end HvUioProbe

end HvGin
