import HvGin.Lib.Exec
import HvGin.Lib.Tally
import Mathlib.Logic.Function.Basic

/-!
# The lifetime of a UIO device

The driver binds to a channel with `hv_uio_probe`, which registers a UIO device, and unbinds
with `hv_uio_remove`. Meanwhile and afterwards processes open, use and close the device, and
the host signals events. The driver's data goes away with the binding, the device with its
last reference, and the channel's ring is connected from the first open to the last close.

A binding goes through the code once, so that a pointer to freed memory is told from one to
what was allocated later. Every file belongs to the binding whose device `uio_open` found,
and the steps of all of them interleave, except that what a lock holds together is one step.

## Main definitions

* `Binding` — one run of the driver from probe to remove, its device and its files.
* `UioCore` — the bindings and the minor numbers.
* `Careful` — the condition on a step under which nothing freed is touched.
-/
namespace HvGin

open Lib

namespace Binding

/-- `struct uio_device`: the reference count is that of the embedded device, and zero before
`device_initialize`; `info` says whether the pointer is set. -/
structure Idev where
  minor : ℕ
  refs : ℕ
  info : Bool
  deriving DecidableEq, Repr

/-- `struct hv_uio_private_data`: whether `info.uio_dev` is set, and the number of opens. -/
structure Pdata where
  uioDev : Bool
  refcnt : ℕ
  deriving DecidableEq, Repr

/-- Where the driver stands between probe and remove. -/
inductive Stage
  | unbound
  /-- In `hv_uio_probe`, in front of `uio_register_device`. -/
  | probing
  /-- Behind `uio_get_minor`. -/
  | gotMinor
  /-- Behind `device_initialize`. -/
  | initialized
  /-- Behind `device_add`. -/
  | added
  /-- Behind `__uio_register_device`. -/
  | registered
  | bound
  /-- In front of `uio_free_minor`, in a registration that fails or an unregistration. -/
  | closing
  /-- In front of the last `put_device`. -/
  | putting
  /-- In front of the release of the driver's data. -/
  | finishing
  | gone
  deriving DecidableEq, Repr

/-- Where a file stands. -/
inductive FilePc
  | closed
  /-- In `uio_open`, behind `get_device`. -/
  | opening
  | opened
  /-- In front of the `put_device` at the end of `uio_release`, or of an open that fails. -/
  | dropping
  deriving DecidableEq, Repr

end Binding

/-- One binding of the driver to a channel: the device and the private data while they are
allocated, the files, and the channel: its driver data, its ring and its callbacks. -/
structure Binding where
  stage : Binding.Stage
  idev : Option Binding.Idev
  pdata : Option Binding.Pdata
  files : ℕ → Binding.FilePc
  drvdata : Bool
  connected : Bool
  rescindCallback : Bool
  rescinded : Bool
  fault : Bool

namespace Binding

/-- Nothing is allocated. -/
def fresh : Binding where
  stage := .unbound
  idev := none
  pdata := none
  files := fun _ => .closed
  drvdata := false
  connected := false
  rescindCallback := false
  rescinded := false
  fault := false

/-- `get_device`. A count that is not initialised yet saturates, and is set to one later. -/
def Idev.get (d : Idev) : Idev := { d with refs := if d.refs = 0 then 0 else d.refs + 1 }

/-- `put_device`: the last reference frees the device. -/
def Idev.put (d : Idev) : Option Idev :=
  match d.refs with
  | 0 => some d
  | 1 => none
  | n + 2 => some { d with refs := n + 1 }

/-- Follow a pointer. It is a fault if it does not point to anything allocated. -/
def deref {α : Type} (b : Binding) (p : Option α) (f : α → Binding) : Binding :=
  match p with
  | some x => f x
  | none => { b with fault := true }

/-- A file moves on. -/
def setFile (b : Binding) (i : ℕ) (pc : FilePc) : Binding :=
  { b with files := Function.update b.files i pc }

/-- `hv_uio_channel_cb` and `hv_uio_rescind` go from the driver data over `info.uio_dev` to
the device. -/
def notifies (b : Binding) : Binding :=
  if b.drvdata then
    b.deref b.pdata fun q =>
      if q.uioDev then b.deref b.idev fun _ => b else { b with fault := true }
  else { b with fault := true }

/-- `hv_uio_open`, under `info_lock`; connecting the ring may fail. -/
def hvUioOpen (b : Binding) (i : ℕ) (ok : Bool) (q : Pdata) : Binding :=
  if q.refcnt ≠ 0 then
    { b.setFile i .opened with pdata := some { q with refcnt := q.refcnt + 1 } }
  else if ok then
    { b.setFile i .opened with
      pdata := some { q with refcnt := 1 }, connected := true, rescindCallback := true }
  else { b.setFile i .dropping with rescindCallback := true }

/-- `hv_uio_release`, under `info_lock`. -/
def hvUioRelease (b : Binding) (i : ℕ) (q : Pdata) : Binding :=
  { b.setFile i .dropping with
    pdata := some { q with refcnt := q.refcnt - 1 }
    connected := if q.refcnt = 1 then false else b.connected }

/-- `uio_get_minor`: the device is allocated, and the minor number points to it. -/
def getMinor (b : Binding) (minor : ℕ) : Option Binding :=
  if b.stage = .probing then some { b with stage := .gotMinor, idev := some ⟨minor, 0, true⟩ }
  else none

/-- `uio_free_minor`: the binding moves on. -/
def freeMinor (b : Binding) : Option Binding :=
  if b.stage = .closing then some (b.deref b.idev fun _ => { b with stage := .putting }) else none

/-- `uio_open` up to `get_device`, under `minor_lock`. -/
def find (b : Binding) (i : ℕ) : Option Binding :=
  if b.files i = .closed then
    some (b.deref b.idev fun d => { b.setFile i .opening with idev := some d.get })
  else none

inductive Label
  /-- `hv_uio_probe` up to `uio_register_device`. -/
  | probe
  /-- `uio_register_device` gets no memory or no minor number. -/
  | noMinor
  /-- `device_initialize`. -/
  | deviceInitialize
  /-- `dev_set_name` and `device_add`, one of which may fail. -/
  | add (ok : Bool)
  /-- `uio_dev_add_attributes`, which may fail, up to the end of `__uio_register_device`. -/
  | addAttributes (ok : Bool)
  /-- `hv_set_drvdata`, at the end of `hv_uio_probe`. -/
  | setDrvdata
  /-- `uio_unregister_device` in `hv_uio_remove` clears `info`, under `info_lock`. -/
  | unregister
  /-- `device_unregister`, or the `put_device` of a registration that fails. -/
  | putDevice
  /-- The private data is released behind `hv_uio_remove` or a probe that fails. -/
  | finish
  /-- `uio_open` gets no module reference or no memory. -/
  | fail (i : ℕ)
  /-- `uio_open` from its test of `info` on, under `info_lock`. -/
  | enter (i : ℕ) (ok : Bool)
  /-- A read, write, poll, mapping or page fault looks at `info` under `info_lock`. -/
  | use (i : ℕ)
  /-- `uio_release`, under `info_lock`. -/
  | release (i : ℕ)
  /-- The `put_device` at the end of `uio_release` or of an open that fails. -/
  | put (i : ℕ)
  /-- The host signals the channel. -/
  | event
  /-- The host rescinds the channel. -/
  | rescind

/-- Where the binding or the file has to stand for a step. -/
def Enabled (b : Binding) : Label → Prop
  | .probe => b.stage = .unbound
  | .noMinor => b.stage = .probing
  | .deviceInitialize => b.stage = .gotMinor
  | .add _ => b.stage = .initialized
  | .addAttributes _ => b.stage = .added
  | .setDrvdata => b.stage = .registered
  | .unregister => b.stage = .bound
  | .putDevice => b.stage = .putting
  | .finish => b.stage = .finishing
  | .fail i | .enter i _ => b.files i = .opening
  | .use i | .release i => b.files i = .opened
  | .put i => b.files i = .dropping
  | .event => b.connected = true ∧ b.rescinded = false
  | .rescind => b.rescinded = false

instance (b : Binding) (l : Label) : Decidable (b.Enabled l) := by
  cases l <;> dsimp only [Enabled] <;> infer_instance

/-- What the step does. -/
def next (b : Binding) : Label → Binding
  | .probe => { b with stage := .probing, pdata := some ⟨false, 0⟩ }
  | .noMinor => { b with stage := .finishing }
  | .deviceInitialize =>
      b.deref b.idev fun d => { b with stage := .initialized, idev := some { d with refs := 1 } }
  | .add ok => b.deref b.idev fun _ => { b with stage := if ok then .added else .closing }
  | .addAttributes ok =>
      b.deref b.idev fun _ => b.deref b.pdata fun q =>
        if ok then { b with stage := .registered, pdata := some { q with uioDev := true } }
        else { b with stage := .closing }
  | .setDrvdata => { b with stage := .bound, drvdata := true }
  | .unregister =>
      b.deref b.pdata fun q =>
        if q.uioDev then
          b.deref b.idev fun d =>
            { b with stage := .closing, idev := some { d with info := false } }
        else { b with stage := .finishing }
  | .putDevice => b.deref b.idev fun d => { b with stage := .finishing, idev := d.put }
  | .finish => { b with stage := .gone, pdata := none, drvdata := false }
  | .fail i => b.deref b.idev fun _ => b.setFile i .dropping
  | .enter i ok =>
      b.deref b.idev fun d =>
        if d.info then b.deref b.pdata fun q => b.hvUioOpen i ok q else b.setFile i .dropping
  | .use _ => b.deref b.idev fun d => if d.info then b.deref b.pdata fun _ => b else b
  | .release i =>
      b.deref b.idev fun d =>
        if d.info then b.deref b.pdata fun q => b.hvUioRelease i q else b.setFile i .dropping
  | .put i => b.deref b.idev fun d => { b.setFile i .closed with idev := d.put }
  | .event => b.notifies
  | .rescind => { (if b.rescindCallback then b.notifies else b) with rescinded := true }

def step (b : Binding) (l : Label) : Option Binding := if b.Enabled l then some (b.next l) else none

end Binding

/-- The bindings, and the minor numbers with the binding whose device each points to. -/
structure UioCore where
  idr : ℕ → Option ℕ
  bindings : ℕ → Binding

namespace UioCore

inductive Label
  /-- `uio_get_minor` gives binding `n` the minor number. -/
  | getMinor (n minor : ℕ)
  /-- `uio_free_minor`. -/
  | freeMinor (n : ℕ)
  /-- A process opens a minor number as file `i` of the device found. -/
  | find (minor i : ℕ)
  /-- Any other step of a binding or of one of its files. -/
  | binding (n : ℕ) (l : Binding.Label)

/-- No driver is bound and no file open. -/
def start : UioCore := ⟨fun _ => none, fun _ => .fresh⟩

/-- `idr_alloc` takes the first minor number that is free, below `UIO_MAX_DEVICES`. -/
def IsFirstFree (idr : ℕ → Option ℕ) (minor : ℕ) : Prop :=
  minor < 2 ^ 20 ∧ idr minor = none ∧ ∀ k < minor, idr k ≠ none

instance (idr : ℕ → Option ℕ) (minor : ℕ) : Decidable (IsFirstFree idr minor) :=
  inferInstanceAs (Decidable (_ ∧ _ ∧ _))

def setBinding (s : UioCore) (n : ℕ) (b : Binding) : UioCore :=
  { s with bindings := Function.update s.bindings n b }

/-- The minor numbers without that of the device of binding `n`. -/
def idrRemove (s : UioCore) (n : ℕ) : ℕ → Option ℕ :=
  match (s.bindings n).idev with
  | some d => Function.update s.idr d.minor none
  | none => s.idr

def step (s : UioCore) : Label → Option UioCore
  | .getMinor n minor =>
      if IsFirstFree s.idr minor then
        ((s.bindings n).getMinor minor).map fun b =>
          { s.setBinding n b with idr := Function.update s.idr minor (some n) }
      else none
  | .freeMinor n =>
      (s.bindings n).freeMinor.map fun b => { s.setBinding n b with idr := s.idrRemove n }
  | .find minor i =>
      match s.idr minor with
      | some n => ((s.bindings n).find i).map fun b => s.setBinding n b
      | none => some s
  | .binding n l => ((s.bindings n).step l).map fun b => s.setBinding n b

end UioCore

/-! ## What holds of a binding -/

namespace Binding

/-- The driver holds a reference of the device. -/
@[grind] def Stage.owns : Stage → Bool
  | .initialized | .added | .registered | .bound | .closing | .putting => true
  | _ => false

/-- A minor number points to the device. -/
@[grind] def Stage.listed : Stage → Bool
  | .gotMinor | .initialized | .added | .registered | .bound | .closing => true
  | _ => false

theorem Stage.owns_of_listed {stage : Stage} (h : stage.listed = true)
    (hstage : stage ≠ .gotMinor) : stage.owns = true := by
  cases stage <;> simp_all [listed, owns]

/-- The file goes through `info`, or is about to. -/
@[grind] def FilePc.opens : FilePc → Bool
  | .opening | .opened => true
  | _ => false

/-- References, pointers and the connection are as they are meant to be. -/
structure Sound (b : Binding) : Prop where
  faultless : b.fault = false
  /-- Each file and the driver hold one reference. -/
  refs : ∀ d, b.idev = some d → ∃ c, Tally (· ≠ .closed) b.files c ∧ d.refs = c + b.stage.owns.toNat
  counting : ∀ d, b.idev = some d → (d.refs = 0 ↔ b.stage = .gotMinor)
  present : b.stage = .gotMinor ∨ b.stage.owns = true → b.idev ≠ none
  closed : b.idev = none → ∀ i, b.files i = .closed
  unopened : b.stage = .unbound ∨ b.stage = .probing →
    b.idev = none ∧ b.connected = false ∧ ∀ q, b.pdata = some q → q.refcnt = 0
  private_data : b.pdata = none ↔ b.stage = .unbound ∨ b.stage = .gone
  attached : ∀ d, b.idev = some d → b.stage.listed = true → b.stage ≠ .closing → d.info = true
  /-- No file goes through `info` to private data that is released. -/
  opens : ∀ d, b.idev = some d → d.info = true → b.pdata = none → ∀ i, (b.files i).opens = false
  /-- The opens are counted, and the ring is connected while there are any. -/
  counted : ∀ d q, b.idev = some d → d.info = true → b.pdata = some q →
    Tally (· = .opened) b.files q.refcnt ∧ (b.connected = true ↔ 0 < q.refcnt)
  connection : b.connected = true →
    b.rescinded = true ∨ ∃ d q, b.idev = some d ∧ d.info = true ∧ b.pdata = some q
  uio_dev : b.drvdata = true ∨ b.stage = .registered → ∃ q, b.pdata = some q ∧ q.uioDev = true
  drvdata_stage : b.drvdata = true → b.stage = .bound ∨ b.stage = .closing ∨ b.stage = .putting ∨
    b.stage = .finishing
  bound : b.stage = .bound → b.drvdata = true

/-- The condition on a step: the host signals no event before the driver data is set and
rescinds the channel only between there and the last `put_device`, the device is not
unregistered with an open file unless the channel is rescinded, and a registration does not
fail under a file that goes through `info`. -/
def Careful (b : Binding) : Label → Prop
  | .event => b.drvdata = true
  | .rescind => b.rescindCallback = true →
      b.drvdata = true ∧ (b.stage = .finishing → ∃ i, b.files i ≠ .closed)
  | .unregister => (∀ i, b.files i ≠ .opened) ∨ b.rescinded = true
  | .finish => ∀ d, b.idev = some d → d.info = true → ∀ i, (b.files i).opens = false
  | _ => True

variable {b b' : Binding} {l : Label} {i minor : ℕ} {d : Idev} {q : Pdata}

theorem deref_some {α : Type} {p : Option α} {x : α} {f : α → Binding} (h : p = some x) :
    b.deref p f = f x := by rw [h, deref]

/-- With more than one reference `put_device` counts down. -/
theorem Idev.put_of_lt (h : 1 < d.refs) : d.put = some { d with refs := d.refs - 1 } := by
  obtain ⟨n, hn⟩ := Nat.exists_eq_add_of_le' h
  simp only [put, hn]
  rfl

theorem Idev.put_of_eq (h : d.refs = 1) : d.put = none := by simp only [put, h]

theorem Idev.get_of_ne (h : d.refs ≠ 0) : d.get = { d with refs := d.refs + 1 } := by
  rw [get, if_neg h]

namespace Sound

/-- A file holds the device. -/
theorem idev_of_file (H : b.Sound) (h : b.files i ≠ .closed) : ∃ d, b.idev = some d :=
  Option.ne_none_iff_exists'.mp fun hnone => h (H.closed hnone i)

theorem idev_of_stage (H : b.Sound) (h : b.stage = .gotMinor ∨ b.stage.owns = true) :
    ∃ d, b.idev = some d := Option.ne_none_iff_exists'.mp (H.present h)

theorem pdata_of_stage (H : b.Sound) (hunbound : b.stage ≠ .unbound) (hgone : b.stage ≠ .gone) :
    ∃ q, b.pdata = some q :=
  Option.ne_none_iff_exists'.mp fun hnone => (H.private_data.mp hnone).elim hunbound hgone

/-- A file that goes through `info` finds the private data. -/
theorem pdata_of_file (H : b.Sound) (hd : b.idev = some d) (hinfo : d.info = true)
    (h : (b.files i).opens = true) : ∃ q, b.pdata = some q := by
  refine Option.ne_none_iff_exists'.mp fun hnone => ?_
  rw [H.opens d hd hinfo hnone i] at h
  cases h

/-- While the driver data is set, the driver or a file holds the device. -/
theorem idev_of_drvdata (H : b.Sound) (hdrvdata : b.drvdata = true)
    (hfile : b.stage = .finishing → ∃ i, b.files i ≠ .closed) : ∃ d, b.idev = some d := by
  rcases H.drvdata_stage hdrvdata with h | h | h | h
  · exact H.idev_of_stage (.inr (by rw [h]; rfl))
  · exact H.idev_of_stage (.inr (by rw [h]; rfl))
  · exact H.idev_of_stage (.inr (by rw [h]; rfl))
  · obtain ⟨i, hi⟩ := hfile h
    exact H.idev_of_file hi

/-- With no open file the ring is disconnected, or the channel was rescinded. -/
theorem disconnected (H : b.Sound) (hnone : ∀ i, b.files i ≠ .opened) :
    b.connected = true → b.rescinded = true := by
  intro hconnected
  rcases H.connection hconnected with hrescinded | ⟨d', q, hd', hinfo', hq⟩
  · exact hrescinded
  · obtain ⟨hcount, hiff⟩ := H.counted d' q hd' hinfo' hq
    obtain ⟨i, hi⟩ := hcount.pos_iff.mp (hiff.mp hconnected)
    exact absurd hi (hnone i)

/-- A file that stays open keeps its reference. -/
theorem refs_update {pc : FilePc} (H : b.Sound) (h : b.files i ≠ .closed) (hpc : pc ≠ .closed) :
    ∀ d, b.idev = some d →
      ∃ c, Tally (· ≠ .closed) (Function.update b.files i pc) c ∧
        d.refs = c + b.stage.owns.toNat := by
  intro d hd
  obtain ⟨c, hc, hrefs⟩ := H.refs d hd
  exact ⟨c, hc.stay (iff_of_true hpc h), hrefs⟩

/-- A file that is not counted by the driver, before and after. -/
theorem counted_update {pc : FilePc} (H : b.Sound) (h : b.files i ≠ .opened) (hpc : pc ≠ .opened) :
    ∀ d q, b.idev = some d → d.info = true → b.pdata = some q →
      Tally (· = .opened) (Function.update b.files i pc) q.refcnt ∧
        (b.connected = true ↔ 0 < q.refcnt) := by
  intro d q hd hinfo hq
  obtain ⟨hcount, hiff⟩ := H.counted d q hd hinfo hq
  exact ⟨hcount.stay (iff_of_false hpc h), hiff⟩

/-! ### The steps of the driver -/

theorem probe (H : b.Sound) (h : b.stage = .unbound) :
    Sound { b with stage := .probing, pdata := some ⟨false, 0⟩ } := by
  constructor <;> grind [Sound]

theorem noMinor (H : b.Sound) (h : b.stage = .probing) :
    Sound { b with stage := .finishing } := by
  constructor <;> grind [Sound]

theorem getMinor (H : b.Sound) (h : b.stage = .probing) :
    Sound { b with stage := .gotMinor, idev := some ⟨minor, 0, true⟩ } := by
  obtain ⟨hidev, hdisconnected, hzero⟩ := H.unopened (.inr h)
  have hclosed := H.closed hidev
  constructor
  case refs =>
    intro d hd
    cases hd
    exact ⟨0, tally_zero.mpr (by simp [hclosed]), rfl⟩
  case counted =>
    intro d q hd _ hq
    rw [hzero q hq, hdisconnected]
    exact ⟨tally_zero.mpr (by simp [hclosed]), by simp⟩
  all_goals grind [Sound]

/-- The count starts with the reference of the driver. -/
theorem deviceInitialize (H : b.Sound) (h : b.stage = .gotMinor) (hd : b.idev = some d) :
    Sound { b with stage := .initialized, idev := some { d with refs := 1 } } := by
  obtain ⟨c, hc, hrefs⟩ := H.refs d hd
  have hzero : c = 0 := by
    have := (H.counting d hd).mpr h
    omega
  subst hzero
  constructor
  case refs =>
    intro d' hd'
    cases hd'
    exact ⟨0, hc, rfl⟩
  all_goals grind [Sound]

theorem add (H : b.Sound) (ok : Bool) (h : b.stage = .initialized) :
    Sound { b with stage := if ok then .added else .closing } := by
  cases ok <;> constructor <;> grind [Sound]

theorem addAttributes (H : b.Sound) (ok : Bool) (h : b.stage = .added) (hq : b.pdata = some q) :
    Sound (if ok then { b with stage := .registered, pdata := some { q with uioDev := true } }
      else { b with stage := .closing }) := by
  cases ok <;> constructor <;> grind [Sound]

theorem setDrvdata (H : b.Sound) (h : b.stage = .registered) :
    Sound { b with stage := .bound, drvdata := true } := by
  constructor <;> grind [Sound]

/-- Where `info` is cleared under no open file, the ring is disconnected. -/
theorem unregister (H : b.Sound) (h : b.stage = .bound) (hd : b.idev = some d)
    (hcareful : (∀ i, b.files i ≠ .opened) ∨ b.rescinded = true) :
    Sound { b with stage := .closing, idev := some { d with info := false } } := by
  have hconnection : b.connected = true → b.rescinded = true := by
    rcases hcareful with hnone | hrescinded
    · exact H.disconnected hnone
    · exact fun _ => hrescinded
  constructor
  case connection => exact fun hconnected => .inl (hconnection hconnected)
  all_goals grind [Sound]

theorem freeMinor (H : b.Sound) (h : b.stage = .closing) : Sound { b with stage := .putting } := by
  constructor <;> grind [Sound]

/-- The driver drops its reference; if it is the last one there is no file. -/
theorem putDevice (H : b.Sound) (h : b.stage = .putting) (hd : b.idev = some d) :
    Sound { b with stage := .finishing, idev := d.put } := by
  obtain ⟨c, hc, hrefs⟩ := H.refs d hd
  rw [h] at hrefs
  change d.refs = c + 1 at hrefs
  by_cases hlast : c = 0
  · subst hlast
    have hnone : ∀ i, b.files i = .closed := by simpa using tally_zero.mp hc
    rw [Idev.put_of_eq (by omega)]
    constructor
    case connection =>
      exact fun hconnected => .inl (H.disconnected (fun i => by simp [hnone]) hconnected)
    all_goals grind [Sound]
  · rw [Idev.put_of_lt (by omega)]
    constructor
    case refs =>
      intro d' hd'
      cases hd'
      exact ⟨c, hc, by simp [hrefs, Stage.owns]⟩
    all_goals grind [Sound]

theorem finish (H : b.Sound) (h : b.stage = .finishing)
    (hcareful : ∀ d, b.idev = some d → d.info = true → ∀ i, (b.files i).opens = false) :
    Sound { b with stage := .gone, pdata := none, drvdata := false } := by
  have hconnection : b.connected = true → b.rescinded = true := by
    intro hconnected
    rcases H.connection hconnected with hrescinded | ⟨d, q, hd, hinfo, _⟩
    · exact hrescinded
    · refine H.disconnected ?_ hconnected
      intro i hopened
      have := hcareful d hd hinfo i
      rw [hopened] at this
      cases this
  constructor
  case connection => exact fun hconnected => .inl (hconnection hconnected)
  all_goals grind [Sound]

/-! ### The steps of a file -/

/-- `uio_open` finds a device with a reference of the driver, and takes one more. -/
theorem find (H : b.Sound) (h : b.files i = .closed) (hd : b.idev = some d)
    (hlisted : b.stage.listed = true) (hcareful : b.stage ≠ .gotMinor) :
    Sound { b.setFile i .opening with idev := some d.get } := by
  obtain ⟨c, hc, hrefs⟩ := H.refs d hd
  have hpos : d.refs ≠ 0 := fun hzero => hcareful ((H.counting d hd).mp hzero)
  rw [Idev.get_of_ne hpos]
  simp only [setFile]
  constructor
  case refs =>
    intro d' hd'
    cases hd'
    exact ⟨c + 1, hc.enter (by simp [h]) (by simp), by simp only; omega⟩
  case counted =>
    intro d' q hd' hinfo hq
    cases hd'
    exact H.counted_update (by simp [h]) (by simp) d q hd hinfo hq
  all_goals grind [Sound]

/-- A file that goes on without going through `info` keeps its reference. -/
theorem setFile_dropping (H : b.Sound) (h : b.files i = .opening) :
    Sound (b.setFile i .dropping) := by
  simp only [setFile]
  constructor
  case refs => exact H.refs_update (by simp [h]) (by simp)
  case counted => exact H.counted_update (by simp [h]) (by simp)
  all_goals grind [Sound]

theorem setFile_dropping_of_detached (H : b.Sound) (h : b.files i ≠ .closed) (hd : b.idev = some d)
    (hinfo : d.info = false) : Sound (b.setFile i .dropping) := by
  simp only [setFile]
  constructor
  case refs => exact H.refs_update (by simp [h]) (by simp)
  all_goals grind [Sound]

/-- The first open connects the ring, and every open is counted. -/
theorem hvUioOpen (H : b.Sound) (ok : Bool) (h : b.files i = .opening) (hd : b.idev = some d)
    (hinfo : d.info = true) (hq : b.pdata = some q) : Sound (b.hvUioOpen i ok q) := by
  obtain ⟨c, hc, hrefs⟩ := H.refs d hd
  obtain ⟨hcount, hiff⟩ := H.counted d q hd hinfo hq
  simp only [Binding.hvUioOpen, setFile]
  split_ifs with hfirst
  · constructor
    case refs => exact H.refs_update (by simp [h]) (by simp)
    case counted =>
      intro d' q' _ _ hq'
      cases hq'
      exact ⟨hcount.enter (by simp [h]) rfl, by simp [hiff]; omega⟩
    all_goals grind [Sound]
  · constructor
    case refs => exact H.refs_update (by simp [h]) (by simp)
    case counted =>
      intro d' q' _ _ hq'
      cases hq'
      have := hcount.enter (i := i) (x := .opened) (by simp [h]) rfl
      exact ⟨by grind, by simp⟩
    all_goals grind [Sound]
  · have := H.setFile_dropping h
    simp only [setFile] at this
    constructor <;> grind [Sound]

theorem hvUioRelease (H : b.Sound) (h : b.files i = .opened) (hd : b.idev = some d)
    (hinfo : d.info = true) (hq : b.pdata = some q) : Sound (b.hvUioRelease i q) := by
  obtain ⟨hcount, hiff⟩ := H.counted d q hd hinfo hq
  have hpos : 0 < q.refcnt := hcount.pos h
  simp only [Binding.hvUioRelease, setFile]
  constructor
  case refs => exact H.refs_update (by simp [h]) (by simp)
  case counted =>
    intro d' q' _ _ hq'
    cases hq'
    refine ⟨hcount.leave h (by simp), ?_⟩
    simp only
    split_ifs <;> grind
  all_goals grind [Sound]

/-- A file drops its reference. -/
theorem put (H : b.Sound) (h : b.files i = .dropping) (hd : b.idev = some d) :
    Sound { b.setFile i .closed with idev := d.put } := by
  obtain ⟨c, hc, hrefs⟩ := H.refs d hd
  have hpos : 0 < c := hc.pos (i := i) (by simp [h])
  have hleave : Tally (· ≠ .closed) (Function.update b.files i .closed) (c - 1) :=
    hc.leave (by simp [h]) (by simp)
  simp only [setFile]
  by_cases hlast : d.refs = 1
  · have hnone : ∀ j, Function.update b.files i .closed j = .closed := by
      obtain rfl : c = 1 := by omega
      simpa using tally_zero.mp hleave
    rw [Idev.put_of_eq hlast]
    constructor
    case connection =>
      intro hconnected
      refine .inl (H.disconnected (fun j hj => ?_) hconnected)
      have hne : j ≠ i := by
        rintro rfl
        rw [h] at hj
        cases hj
      have := hnone j
      rw [Function.update_of_ne hne, hj] at this
      cases this
    all_goals grind [Sound]
  · rw [Idev.put_of_lt (by omega)]
    constructor
    case refs =>
      intro d' hd'
      cases hd'
      exact ⟨c - 1, hleave, by simp only; omega⟩
    case counted =>
      intro d' q hd' hinfo hq
      cases hd'
      exact H.counted_update (by simp [h]) (by simp) d q hd hinfo hq
    all_goals grind [Sound]

/-! ### The steps of the host -/

/-- The callbacks reach the device. -/
theorem notifies (H : b.Sound) (hdrvdata : b.drvdata = true) (hd : b.idev = some d) :
    b.notifies = b := by
  obtain ⟨q, hq, hset⟩ := H.uio_dev (.inl hdrvdata)
  rw [Binding.notifies, if_pos hdrvdata, deref_some hq, if_pos hset, deref_some hd]

theorem rescind (H : b.Sound) : Sound { b with rescinded := true } := by
  constructor <;> grind [Sound]

end Sound

/-- The binding has a device with this minor number, which points to it. -/
def Has (b : Binding) (minor : ℕ) : Prop :=
  b.stage.listed = true ∧ ∃ d, b.idev = some d ∧ d.minor = minor

theorem has_congr (hstage : b'.stage.listed = b.stage.listed)
    (hidev : b.stage.listed = true → b'.idev.map Idev.minor = b.idev.map Idev.minor) :
    b'.Has minor ↔ b.Has minor := by
  rw [Has, Has, hstage]
  refine and_congr_right fun hlisted => ?_
  have := hidev hlisted
  cases hb : b.idev <;> cases hb' : b'.idev <;> simp_all

theorem has_hvUioOpen {ok : Bool} : (b.hvUioOpen i ok q).Has minor ↔ b.Has minor := by
  simp only [hvUioOpen]
  split_ifs <;> exact Iff.rfl

namespace Sound

/-- A file does not free a device that the driver holds. -/
theorem minor_put (H : b.Sound) (h : b.files i ≠ .closed) (hd : b.idev = some d)
    (hlisted : b.stage.listed = true) : d.put.map Idev.minor = some d.minor := by
  obtain ⟨c, hc, hrefs⟩ := H.refs d hd
  have hpos : 0 < c := hc.pos h
  have howns : b.stage.owns = true := by
    refine Stage.owns_of_listed hlisted fun hstage => ?_
    have := (H.counting d hd).mpr hstage
    omega
  rw [howns] at hrefs
  rw [Idev.put_of_lt (by simp at hrefs; omega)]
  rfl

/-- Every careful step keeps a binding sound, and gives, takes or changes no minor number. -/
theorem next (H : b.Sound) (hcareful : b.Careful l) (h : b.Enabled l) :
    (b.next l).Sound ∧ ∀ minor, (b.next l).Has minor ↔ b.Has minor := by
  cases l with
  | probe =>
      have hstage : b.stage = .unbound := h
      exact ⟨H.probe h, fun _ => has_congr (by rw [hstage]; rfl) fun _ => rfl⟩
  | noMinor =>
      have hstage : b.stage = .probing := h
      exact ⟨H.noMinor h, fun _ => has_congr (by rw [hstage]; rfl) fun _ => rfl⟩
  | deviceInitialize =>
      have hstage : b.stage = .gotMinor := h
      obtain ⟨d, hd⟩ := H.idev_of_stage (.inl h)
      rw [Binding.next, deref_some hd]
      exact ⟨H.deviceInitialize h hd, fun _ => has_congr (by rw [hstage]; rfl) (by simp [hd])⟩
  | add ok =>
      have hstage : b.stage = .initialized := h
      obtain ⟨d, hd⟩ := H.idev_of_stage (.inr (by rw [hstage]; rfl))
      rw [Binding.next, deref_some hd]
      exact ⟨H.add ok h, fun _ => has_congr (by rw [hstage]; cases ok <;> rfl) fun _ => rfl⟩
  | addAttributes ok =>
      have hstage : b.stage = .added := h
      obtain ⟨d, hd⟩ := H.idev_of_stage (.inr (by rw [hstage]; rfl))
      obtain ⟨q, hq⟩ := H.pdata_of_stage (by simp [hstage]) (by simp [hstage])
      rw [Binding.next, deref_some hd, deref_some hq]
      refine ⟨H.addAttributes ok h hq, fun _ => has_congr ?_ ?_⟩
      · rw [hstage]
        cases ok <;> rfl
      · cases ok <;> exact fun _ => rfl
  | setDrvdata =>
      have hstage : b.stage = .registered := h
      exact ⟨H.setDrvdata h, fun _ => has_congr (by rw [hstage]; rfl) fun _ => rfl⟩
  | unregister =>
      have hstage : b.stage = .bound := h
      obtain ⟨d, hd⟩ := H.idev_of_stage (.inr (by rw [hstage]; rfl))
      obtain ⟨q, hq, hset⟩ := H.uio_dev (.inl (H.bound h))
      rw [Binding.next, deref_some hq, if_pos hset, deref_some hd]
      exact ⟨H.unregister h hd hcareful, fun _ => has_congr (by rw [hstage]; rfl) (by simp [hd])⟩
  | putDevice =>
      have hstage : b.stage = .putting := h
      obtain ⟨d, hd⟩ := H.idev_of_stage (.inr (by rw [hstage]; rfl))
      rw [Binding.next, deref_some hd]
      refine ⟨H.putDevice h hd, fun _ => has_congr (by rw [hstage]; rfl) ?_⟩
      rw [hstage]
      intro hlisted
      cases hlisted
  | finish =>
      have hstage : b.stage = .finishing := h
      exact ⟨H.finish h hcareful, fun _ => has_congr (by rw [hstage]; rfl) fun _ => rfl⟩
  | fail i =>
      have hfile : b.files i = .opening := h
      obtain ⟨d, hd⟩ := H.idev_of_file (i := i) (by simp [hfile])
      rw [Binding.next, deref_some hd]
      exact ⟨H.setFile_dropping h, fun _ => Iff.rfl⟩
  | enter i ok =>
      have hfile : b.files i = .opening := h
      obtain ⟨d, hd⟩ := H.idev_of_file (i := i) (by simp [hfile])
      rw [Binding.next, deref_some hd]
      split_ifs with hinfo
      · obtain ⟨q, hq⟩ := H.pdata_of_file hd hinfo (i := i) (by rw [hfile]; rfl)
        rw [deref_some hq]
        exact ⟨H.hvUioOpen ok h hd hinfo hq, fun _ => has_hvUioOpen⟩
      · exact ⟨H.setFile_dropping h, fun _ => Iff.rfl⟩
  | use i =>
      have hfile : b.files i = .opened := h
      obtain ⟨d, hd⟩ := H.idev_of_file (i := i) (by simp [hfile])
      rw [Binding.next, deref_some hd]
      split_ifs with hinfo
      · obtain ⟨q, hq⟩ := H.pdata_of_file hd hinfo (i := i) (by rw [hfile]; rfl)
        rw [deref_some hq]
        exact ⟨H, fun _ => Iff.rfl⟩
      · exact ⟨H, fun _ => Iff.rfl⟩
  | release i =>
      have hfile : b.files i = .opened := h
      obtain ⟨d, hd⟩ := H.idev_of_file (i := i) (by simp [hfile])
      rw [Binding.next, deref_some hd]
      split_ifs with hinfo
      · obtain ⟨q, hq⟩ := H.pdata_of_file hd hinfo (i := i) (by rw [hfile]; rfl)
        rw [deref_some hq]
        exact ⟨H.hvUioRelease h hd hinfo hq, fun _ => Iff.rfl⟩
      · exact ⟨H.setFile_dropping_of_detached (by simp [hfile]) hd (by simpa using hinfo),
          fun _ => Iff.rfl⟩
  | put i =>
      have hfile : b.files i = .dropping := h
      obtain ⟨d, hd⟩ := H.idev_of_file (i := i) (by simp [hfile])
      rw [Binding.next, deref_some hd]
      refine ⟨H.put h hd, fun _ => has_congr rfl fun hlisted => ?_⟩
      rw [hd]
      exact H.minor_put (i := i) (by simp [hfile]) hd hlisted
  | event =>
      obtain ⟨hconnected, hrescinded⟩ := h
      rcases H.connection hconnected with hyes | ⟨d, q, hd, _⟩
      · rw [hrescinded] at hyes
        cases hyes
      · rw [Binding.next, H.notifies hcareful hd]
        exact ⟨H, fun _ => Iff.rfl⟩
  | rescind =>
      rw [Binding.next]
      split_ifs with hcallback
      · obtain ⟨hdrvdata, hfile⟩ := hcareful hcallback
        obtain ⟨d, hd⟩ := H.idev_of_drvdata hdrvdata hfile
        rw [H.notifies hdrvdata hd]
        exact ⟨H.rescind, fun _ => Iff.rfl⟩
      · exact ⟨H.rescind, fun _ => Iff.rfl⟩

/-- A device that nobody holds is freed. -/
theorem idev_eq_none (H : b.Sound) (hstage : b.stage ≠ .gotMinor) (howns : b.stage.owns = false)
    (hnone : ∀ i, b.files i = .closed) : b.idev = none := by
  by_contra hidev
  obtain ⟨d, hd⟩ := Option.ne_none_iff_exists'.mp hidev
  obtain ⟨c, hc, hrefs⟩ := H.refs d hd
  rw [howns, hc.unique (tally_zero.mpr (by simp [hnone]))] at hrefs
  exact hstage ((H.counting d hd).mp hrefs)

end Sound

/-! ### What goes wrong -/

end Binding

namespace UioCore

/-- The condition on a step: an open does not find a device before `device_initialize`, and
those on the steps of a binding. -/
def Careful (s : UioCore) : Label → Prop
  | .find minor _ => ∀ n, s.idr minor = some n → (s.bindings n).stage ≠ .gotMinor
  | .binding n l => (s.bindings n).Careful l
  | _ => True

/-- Every binding is sound, and each minor number points to the device that has it. -/
structure Inv (s : UioCore) : Prop where
  sound : ∀ n, (s.bindings n).Sound
  has : ∀ minor n, s.idr minor = some n ↔ (s.bindings n).Has minor
  bounded : ∀ minor n, s.idr minor = some n → minor < 2 ^ 20

variable {s t : UioCore} {l : Label} {n minor i : ℕ} {b : Binding}

/-- A binding that nothing has happened to is sound. -/
theorem inv_start : start.Inv where
  sound := by
    intro n
    constructor <;> simp [start, Binding.fresh, Binding.Stage.owns]
  has := by simp [start, Binding.Has, Binding.fresh, Binding.Stage.listed]
  bounded := by simp [start]

theorem bindings_setBinding_self (s : UioCore) (n : ℕ) (b : Binding) :
    (s.setBinding n b).bindings n = b := Function.update_self ..

theorem bindings_setBinding_of_ne {k : ℕ} (h : k ≠ n) :
    (s.setBinding n b).bindings k = s.bindings k :=
  Function.update_of_ne h ..

/-- One binding changes, and the minor numbers only where its device has them. -/
theorem Inv.update {idr : ℕ → Option ℕ} (H : s.Inv) (hsound : b.Sound)
    (hself : ∀ minor, idr minor = some n ↔ b.Has minor)
    (hother : ∀ minor k, k ≠ n → (idr minor = some k ↔ s.idr minor = some k))
    (hbounded : ∀ minor, b.Has minor → minor < 2 ^ 20) :
    Inv { s.setBinding n b with idr := idr } where
  sound := by
    intro k
    by_cases hk : k = n
    · subst hk
      exact (bindings_setBinding_self s k b).symm ▸ hsound
    · exact (bindings_setBinding_of_ne hk).symm ▸ H.sound k
  has := by
    intro minor k
    by_cases hk : k = n
    · subst hk
      exact (hself minor).trans (by rw [bindings_setBinding_self])
    · exact (hother minor k hk).trans ((H.has minor k).trans (by rw [bindings_setBinding_of_ne hk]))
  bounded := by
    intro minor k hk
    by_cases hkn : k = n
    · subst hkn
      exact hbounded minor ((hself minor).mp hk)
    · exact H.bounded minor k ((hother minor k hkn).mp hk)

/-- The minor numbers stay as they are. -/
theorem Inv.setBinding (H : s.Inv) (hsound : b.Sound)
    (hhas : ∀ minor, b.Has minor ↔ (s.bindings n).Has minor) : (s.setBinding n b).Inv :=
  H.update hsound (fun minor => (H.has minor n).trans (hhas minor).symm) (fun _ _ _ => Iff.rfl)
    fun minor h => H.bounded minor n ((H.has minor n).mpr ((hhas minor).mp h))

/-- Every careful step keeps the invariant. -/
theorem Inv.step (H : s.Inv) (hcareful : s.Careful l) (h : s.step l = some t) : t.Inv := by
  cases l with
  | getMinor n minor =>
      rw [UioCore.step] at h
      split_ifs at h with hfree
      obtain ⟨hbound, hnone, _⟩ := hfree
      obtain ⟨b, hb, rfl⟩ := Option.map_eq_some_iff.mp h
      obtain ⟨hstage, rfl⟩ : (s.bindings n).stage = .probing ∧ _ = b := by
        simpa [Binding.getMinor] using hb
      have hnot : ∀ m, ¬ (s.bindings n).Has m := by
        intro m hm
        rw [Binding.Has, hstage] at hm
        cases hm.1
      refine H.update ((H.sound n).getMinor hstage) ?_ ?_ ?_
      · intro m
        have hm : s.idr m ≠ some n := fun h => hnot m ((H.has m n).mp h)
        by_cases hminor : m = minor
        · subst hminor
          simp [Binding.Has, Binding.Stage.listed]
        · simp [Binding.Has, Function.update_of_ne hminor, hm, Ne.symm hminor]
      · intro m k hk
        by_cases hminor : m = minor
        · subst hminor
          simp [hnone, hk.symm]
        · rw [Function.update_of_ne hminor]
      · rintro m ⟨_, d, hd, rfl⟩
        cases hd
        exact hbound
  | freeMinor n =>
      obtain ⟨b, hb, rfl⟩ := Option.map_eq_some_iff.mp h
      obtain ⟨hstage, hb⟩ : (s.bindings n).stage = .closing ∧ _ = b := by
        simpa [Binding.freeMinor] using hb
      obtain ⟨d, hd⟩ := (H.sound n).idev_of_stage (.inr (by rw [hstage]; rfl))
      rw [Binding.deref_some hd] at hb
      subst hb
      have hminor : ∀ m, s.idr m = some n ↔ d.minor = m := by
        intro m
        rw [H.has, Binding.Has, hstage, hd]
        simp [Binding.Stage.listed]
      have hremove : s.idrRemove n = Function.update s.idr d.minor none := by
        rw [idrRemove, hd]
      rw [hremove]
      refine H.update ((H.sound n).freeMinor hstage) ?_ ?_ ?_
      · intro m
        by_cases hm : m = d.minor
        · subst hm
          simp [Binding.Has, Binding.Stage.listed]
        · simp [Binding.Has, Binding.Stage.listed, Function.update_of_ne hm, hminor, Ne.symm hm]
      · intro m k hk
        by_cases hm : m = d.minor
        · subst hm
          simp [(hminor d.minor).mpr rfl, hk.symm]
        · rw [Function.update_of_ne hm]
      · rintro m ⟨hlisted, _⟩
        cases hlisted
  | find minor i =>
      rw [UioCore.step] at h
      cases hidr : s.idr minor with
      | none =>
          rw [hidr] at h
          cases h
          exact H
      | some n =>
          rw [hidr] at h
          obtain ⟨b, hb, rfl⟩ := Option.map_eq_some_iff.mp h
          obtain ⟨hfile, hb⟩ : (s.bindings n).files i = .closed ∧ _ = b := by
            simpa [Binding.find] using hb
          obtain ⟨hlisted, d, hd, _⟩ := (H.has minor n).mp hidr
          rw [Binding.deref_some hd] at hb
          subst hb
          refine H.setBinding ((H.sound n).find hfile hd hlisted (hcareful n hidr)) fun m => ?_
          exact Binding.has_congr rfl fun _ => by rw [hd]; rfl
  | binding n l =>
      obtain ⟨b, hb, rfl⟩ := Option.map_eq_some_iff.mp h
      obtain ⟨henabled, rfl⟩ : (s.bindings n).Enabled l ∧ (s.bindings n).next l = b := by
        simpa [Binding.step] using hb
      obtain ⟨hsound, hhas⟩ := (H.sound n).next hcareful henabled
      exact H.setBinding hsound hhas

/-- A device that is registered and opened, and signals an event. -/
def opened : List Label :=
  [.binding 0 .probe, .getMinor 0 0, .binding 0 .deviceInitialize, .binding 0 (.add true),
    .binding 0 (.addAttributes true), .binding 0 .setDrvdata, .find 0 0, .binding 0 (.enter 0 true),
    .binding 0 .event, .binding 0 (.use 0)]

theorem step_getMinor (hfree : IsFirstFree s.idr minor) (hstage : (s.bindings n).stage = .probing) :
    step s (.getMinor n minor) = some { s.setBinding n { s.bindings n with
      stage := .gotMinor, idev := some ⟨minor, 0, true⟩ } with
        idr := Function.update s.idr minor (some n) } := by
  rw [step, if_pos hfree, Binding.getMinor, if_pos hstage]
  rfl

theorem careful_opened : Meets step Careful start opened := by
  refine (meets_cons rfl).mpr ⟨trivial, (meets_cons (step_getMinor (by decide) rfl)).mpr
    ⟨trivial, (meets_cons rfl).mpr ⟨trivial, (meets_cons rfl).mpr ⟨trivial, (meets_cons rfl).mpr
      ⟨trivial, (meets_cons rfl).mpr ⟨trivial, (meets_cons rfl).mpr ⟨?_, (meets_cons rfl).mpr
        ⟨trivial, (meets_cons rfl).mpr ⟨?_, (meets_cons rfl).mpr ⟨trivial, trivial⟩⟩⟩⟩⟩⟩⟩⟩⟩⟩
  · intro n hn
    cases hn
    decide
  · rfl

/-- **No access to freed memory.** Whatever the processes, the drivers and the host do: in a
run of careful steps no pointer to a device, to private data or to driver data is followed
that does not point to anything allocated. -/
theorem faultless_of_careful (ls : List Label) (hcareful : Meets step Careful start ls) :
    Always step (fun s => ∀ n, (s.bindings n).fault = false) start ls :=
  (always_of_meets (fun _ _ _ => Inv.step) inv_start hcareful).mono fun _ H n =>
    (H.sound n).faultless

theorem faultless_opened : Always step (fun s => ∀ n, (s.bindings n).fault = false) start opened :=
  faultless_of_careful opened careful_opened

/-- **A device lives as long as it is held.** In a run of careful steps a device is allocated
exactly while it is registered and not initialised yet, the driver has its reference or a
file is there, and its count is the number of these files and the driver. -/
theorem allocated_iff_held (ls : List Label) (hcareful : Meets step Careful start ls) :
    Always step (fun s => ∀ n, ((s.bindings n).idev ≠ none ↔ (s.bindings n).stage = .gotMinor ∨
        (s.bindings n).stage.owns = true ∨ ∃ i, (s.bindings n).files i ≠ .closed) ∧
      ∀ d, (s.bindings n).idev = some d → ∃ c, Tally (· ≠ .closed) (s.bindings n).files c ∧
        d.refs = c + (s.bindings n).stage.owns.toNat) start ls := by
  refine (always_of_meets (fun _ _ _ => Inv.step) inv_start hcareful).mono fun s H n => ?_
  have hsound := H.sound n
  refine ⟨⟨?_, ?_⟩, hsound.refs⟩
  · intro hidev
    by_contra hnone
    obtain ⟨hstage, howns, hfiles⟩ : (s.bindings n).stage ≠ .gotMinor ∧
        (s.bindings n).stage.owns = false ∧ ∀ i, (s.bindings n).files i = .closed := by
      simpa using hnone
    exact hidev (hsound.idev_eq_none hstage howns hfiles)
  · rintro (hstage | howns | ⟨i, hi⟩)
    · exact hsound.present (.inl hstage)
    · exact hsound.present (.inr howns)
    · exact fun hnone => hi (hsound.closed hnone i)

theorem allocated_iff_held_opened : Always step (fun s => ∀ n, ((s.bindings n).idev ≠ none ↔
        (s.bindings n).stage = .gotMinor ∨ (s.bindings n).stage.owns = true ∨
          ∃ i, (s.bindings n).files i ≠ .closed) ∧
      ∀ d, (s.bindings n).idev = some d → ∃ c, Tally (· ≠ .closed) (s.bindings n).files c ∧
        d.refs = c + (s.bindings n).stage.owns.toNat) start opened :=
  allocated_iff_held opened careful_opened

/-- **The ring is connected while the device is open.** In a run of careful steps the driver
of a bound device counts the open files and has the ring connected exactly while there are
any; when it is gone the ring is not connected, unless the channel was rescinded. -/
theorem connected_iff_open (ls : List Label) (hcareful : Meets step Careful start ls) :
    Always step (fun s => ∀ n, ((s.bindings n).stage = .bound →
        (∃ q, (s.bindings n).pdata = some q ∧ Tally (· = .opened) (s.bindings n).files q.refcnt) ∧
        ((s.bindings n).connected = true ↔ ∃ i, (s.bindings n).files i = .opened)) ∧
      ((s.bindings n).stage = .gone → (s.bindings n).connected = true →
        (s.bindings n).rescinded = true)) start ls := by
  refine (always_of_meets (fun _ _ _ => Inv.step) inv_start hcareful).mono fun s H n => ?_
  have hsound := H.sound n
  constructor
  · intro hstage
    obtain ⟨d, hd⟩ := hsound.idev_of_stage (.inr (by rw [hstage]; rfl))
    obtain ⟨q, hq⟩ := hsound.pdata_of_stage (by simp [hstage]) (by simp [hstage])
    have hinfo := hsound.attached d hd (by rw [hstage]; rfl) (by simp [hstage])
    obtain ⟨hcount, hiff⟩ := hsound.counted d q hd hinfo hq
    exact ⟨⟨q, hq, hcount⟩, hiff.trans hcount.pos_iff⟩
  · intro hstage hconnected
    rcases hsound.connection hconnected with hrescinded | ⟨_, q, _, _, hq⟩
    · exact hrescinded
    · rw [hsound.private_data.mpr (.inr hstage)] at hq
      cases hq

theorem connected_iff_open_opened : Always step (fun s => ∀ n, ((s.bindings n).stage = .bound →
        (∃ q, (s.bindings n).pdata = some q ∧ Tally (· = .opened) (s.bindings n).files q.refcnt) ∧
        ((s.bindings n).connected = true ↔ ∃ i, (s.bindings n).files i = .opened)) ∧
      ((s.bindings n).stage = .gone → (s.bindings n).connected = true →
        (s.bindings n).rescinded = true)) start opened :=
  connected_iff_open opened careful_opened

/-- **Minor numbers.** In a run of careful steps every bound device has one minor number,
below `UIO_MAX_DEVICES` and no other device's, and an open of it reaches the device. -/
theorem minor_of_bound (ls : List Label) (hcareful : Meets step Careful start ls) :
    Always step (fun s => ∀ n, (s.bindings n).stage = .bound → ∃ minor < 2 ^ 20,
      (∀ k, (s.bindings k).Has minor ↔ k = n) ∧
      ∀ i, (s.bindings n).files i = .closed → ∃ t, step s (.find minor i) = some t ∧
        (t.bindings n).files i = .opening) start ls := by
  refine (always_of_meets (fun _ _ _ => Inv.step) inv_start hcareful).mono fun s H n hstage => ?_
  obtain ⟨d, hd⟩ := (H.sound n).idev_of_stage (.inr (by rw [hstage]; rfl))
  have hhas : (s.bindings n).Has d.minor := ⟨by rw [hstage]; rfl, d, hd, rfl⟩
  have hidr : s.idr d.minor = some n := (H.has _ _).mpr hhas
  refine ⟨d.minor, H.bounded _ _ hidr, fun k => ?_, fun i hi => ?_⟩
  · rw [← H.has, hidr, Option.some_inj]
    exact eq_comm
  · refine ⟨_, by rw [step, hidr]; simp only [Binding.find, if_pos hi]; rfl, ?_⟩
    rw [bindings_setBinding_self, Binding.deref_some hd]
    exact Function.update_self ..

theorem minor_of_bound_opened : Always step (fun s => ∀ n, (s.bindings n).stage = .bound →
    ∃ minor < 2 ^ 20, (∀ k, (s.bindings k).Has minor ↔ k = n) ∧
      ∀ i, (s.bindings n).files i = .closed → ∃ t, step s (.find minor i) = some t ∧
        (t.bindings n).files i = .opening) start opened :=
  minor_of_bound opened careful_opened

end UioCore

end HvGin
