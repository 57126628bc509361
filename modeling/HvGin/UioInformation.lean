import HvGin.UioMap
import HvGin.Device
import HvGin.Lib.Numeral
import Mathlib.Data.List.GetD
import Mathlib.Data.List.TakeWhile

/-!
# From the driver's regions to the program's rings

`hv_uio_probe` describes five regions, of which the first one is the rings. UIO publishes
the name and the size of each as text in a directory of its own. `GetDeviceInformation` reads
the directories in order, and takes as offset of a region its number times the page size.
The constructor of `UioHvDevice` looks for the rings there, computes the geometry from the
size and maps the region.

`getDeviceInformation_publish` says that the program reads what the driver described,
whatever the regions. `openDevice_of_probe` follows the rings all the way: the constructor
maps every page of them and nothing else, with the geometry of two rings one behind the
other, and the incoming interrupt mask is clear. `waitForDataChannel_eq_some_iff` says which
instance the constructor is called for, and when, if the instances come and go.

## Main definitions

* `publish`, `getDeviceInformation` — the texts, written and read.
* `openDevice` — the constructor, on a device that UIO serves.
* `probeInfo` — the regions of `hv_uio_probe`.
* `waitForDataChannel` — the search for an instance that is there, and its constructor.
-/
namespace HvGin

open Lib

abbrev Text := List Char

/-- The exceptions of opening a device. -/
inductive OpenExn
  | exn (e : Exn)
  /-- `FormatException`. -/
  | format
  /-- `IOException`, and `DirectoryNotFoundException` among them. -/
  | io
  deriving DecidableEq, Repr

/-! ## Numbers -/

/-- `IsDigit` of the runtime, in base 16. -/
def isDigit (c : Char) : Option ℕ :=
  if '0' ≤ c ∧ c ≤ '9' then some (c.toNat - '0'.toNat)
  else if 'a' ≤ c ∧ c ≤ 'f' then some (c.toNat - 'a'.toNat + 10)
  else if 'A' ≤ c ∧ c ≤ 'F' then some (c.toNat - 'A'.toNat + 10)
  else none

/-- Small letters, as the kernel writes them. -/
def hex : Numerals 16 where
  char := Nat.digitChar
  val := isDigit
  val_char := by decide

/-- `GrabLongs` of the runtime, in base 16 with a `ulong` result. -/
def grabLongs : Text → ℕ → Except OpenExn (ℕ × Text)
  | [], result => .ok (result, [])
  | c :: cs, result =>
      match isDigit c with
      | none => .ok (result, c :: cs)
      | some value =>
          if (2 ^ 64 - 1) / 16 < result then .error (.exn .overflow)
          else
            let temp := wrap64 (result * 16 + value)
            if temp < result then .error (.exn .overflow) else grabLongs cs temp

/-- A `ulong` as a `long`. -/
def signed64 (n : ℕ) : ℤ := if n < 2 ^ 63 then n else (n : ℤ) - 2 ^ 64

def skipSign : Text → Text
  | '+' :: cs => cs
  | cs => cs

def skipPrefix : Text → Text
  | '0' :: 'x' :: cs => cs
  | '0' :: 'X' :: cs => cs
  | cs => cs

/-- `Convert.ToInt64(value, 16)`. -/
def Convert.toInt64 (value : Text) : Except OpenExn ℤ :=
  if value = [] then .error (.exn .argumentOutOfRange)
  else if value.head? = some '-' then .error (.exn .argument)
  else
    let digits := skipPrefix (skipSign value)
    match grabLongs digits 0 with
    | .error e => .error e
    | .ok (result, rest) =>
        if rest.length = digits.length then .error .format
        else if rest ≠ [] then .error .format
        else .ok (signed64 result)

def untilBreak (text : Text) : Text := text.takeWhile fun c => c ≠ '\n' ∧ c ≠ '\r'

/-- `File.ReadAllLines(path)[0]`. -/
def firstLine (text : Text) : Except OpenExn Text :=
  if text = [] then .error (.exn .indexOutOfRange) else .ok (untilBreak text)

/-! ## What the driver publishes -/

/-- The directory of a region. -/
structure MapFiles where
  name : Text
  size : Text

/-- `map_name_show`. -/
def mapNameShow (mem : UioMem) : Text := mem.name.getD [] ++ ['\n']

/-- `map_size_show`. -/
def mapSizeShow (mem : UioMem) : Text := '0' :: 'x' :: hex.render 16 mem.size ++ ['\n']

/-- The regions up to the first of size zero, with the number of them that may still come. -/
def publish (mem : ℕ → UioMem) : ℕ → ℕ → List MapFiles
  | 0, _ => []
  | n + 1, mi =>
      if (mem mi).size = 0 then []
      else ⟨mapNameShow (mem mi), mapSizeShow (mem mi)⟩ :: publish mem n (mi + 1)

/-! ## What the program reads -/

/-- A directory below `uio`: its name, and the directories `map0`, `map1` and so on in it, as
far as there is no gap. -/
structure Instance where
  name : Text
  maps : List MapFiles

structure Sysfs where
  /-- The directory `uio` of a device, if it is there. -/
  uio : Option (List Instance)
  /-- `File.Exists` for the node of an instance. -/
  fileExists : Text → Bool

structure UioDeviceMemoryMapItem where
  name : Text
  offset : ℤ
  size : ℤ
  deriving DecidableEq, Repr

structure UioDeviceInformation where
  deviceObjectPath : Text
  memoryMap : List UioDeviceMemoryMapItem
  deriving DecidableEq, Repr

/-- The loop of `GetDeviceInformation` over the regions of an instance, from number `i` on. -/
def readMaps : List MapFiles → ℕ → Except OpenExn (List UioDeviceMemoryMapItem)
  | [], _ => .ok []
  | files :: rest, i => do
      let name ← firstLine files.name
      let size ← Convert.toInt64 (← firstLine files.size)
      let items ← readMaps rest (i + 1)
      pure (⟨name, wrap32 (i * pageSize), size⟩ :: items)

/-- `string.Format("/dev/{0}", Instance.Name)`. -/
def devicePath (name : Text) : Text := "/dev/".toList ++ name

/-- `GetDeviceInformation`: the first instance that has a node. -/
def getDeviceInformation (fs : Sysfs) : Except OpenExn UioDeviceInformation :=
  match fs.uio with
  | none => .error .io
  | some instances =>
      match instances.find? fun i => fs.fileExists (devicePath i.name) with
      | none => .error (.exn (.exception "Hyper-V VMBus device not found."))
      | some i => do
          let items ← readMaps i.maps 0
          pure ⟨devicePath i.name, items⟩

/-! ## Reading what was published -/

section

variable {c : Char} {cs rest : Text} {result value i n : ℕ} {mem : ℕ → UioMem}

theorem isDigit_lt (h : isDigit c = some value) : value < 16 := by
  simp only [isDigit, Char.le_def, UInt32.le_iff_toNat_le] at h
  split_ifs at h with hdigit hsmall hcapital
  · obtain rfl := Option.some.inj h
    have hhi : c.toNat ≤ 57 := hdigit.2
    have hzero : '0'.toNat = 48 := rfl
    omega
  · obtain rfl := Option.some.inj h
    have hhi : c.toNat ≤ 102 := hsmall.2
    have ha : 'a'.toNat = 97 := rfl
    omega
  · obtain rfl := Option.some.inj h
    have hhi : c.toNat ≤ 70 := hcapital.2
    have hA : 'A'.toNat = 65 := rfl
    omega

/-- The comparison with a sixteenth of the largest `ulong` is exact, so that the second check
never finds anything. -/
theorem grabLongs_eq_scan (hresult : result < 2 ^ 64) : grabLongs cs result =
    match hex.scan (2 ^ 64 - 1) result cs with
    | some r => .ok r
    | none => .error (.exn .overflow) := by
  induction cs generalizing result with
  | nil => rfl
  | cons c cs ih =>
      have hval : hex.val c = isDigit c := rfl
      simp only [grabLongs, Numerals.scan, hval]
      cases hdigit : isDigit c with
      | none => rfl
      | some value =>
          have hlt := isDigit_lt hdigit
          dsimp only
          by_cases hbig : (2 ^ 64 - 1) / 16 < result
          · rw [if_pos hbig, if_pos (by omega)]
          · have htemp : wrap64 (result * 16 + value) = result * 16 + value :=
              Nat.mod_eq_of_lt (by omega)
            rw [if_neg hbig, htemp, if_neg (by omega), if_neg (by omega)]
            exact ih (by omega)

theorem grabLongs_render (hn : n < 2 ^ 64) : grabLongs (hex.render 16 n) 0 = .ok (n, []) := by
  have hpow : 0 * 16 ^ 16 + n % 16 ^ 16 = n := by
    rw [Nat.mod_eq_of_lt (by norm_num; exact hn)]
    omega
  have hscan : hex.scan (2 ^ 64 - 1) 0 (hex.render 16 n ++ []) =
      hex.scan (2 ^ 64 - 1) (0 * 16 ^ 16 + n % 16 ^ 16) [] :=
    Numerals.scan_render (by norm_num) (by omega)
  rw [List.append_nil, hpow] at hscan
  rw [grabLongs_eq_scan (by norm_num), hscan]
  rfl

/-- `%pa` is read back as it was written. -/
theorem toInt64_render (hn : n < 2 ^ 64) :
    Convert.toInt64 ('0' :: 'x' :: hex.render 16 n) = .ok (signed64 n) := by
  have hlength : (hex.render 16 n).length = 16 := Numerals.length_render
  have hdigits : skipPrefix (skipSign ('0' :: 'x' :: hex.render 16 n)) = hex.render 16 n := rfl
  simp only [Convert.toInt64, hdigits, grabLongs_render hn]
  simp [hlength]

theorem firstLine_append_newline : firstLine (cs ++ ['\n']) = .ok (untilBreak cs) := by
  have hbreak : untilBreak (cs ++ ['\n']) = untilBreak cs := by
    induction cs with
    | nil => rfl
    | cons c cs ih =>
        simp only [untilBreak, List.cons_append, List.takeWhile_cons] at ih ⊢
        rw [ih]
  simp [firstLine, hbreak]

/-- The region with number `i`, as the program lists it. -/
def mapItem (mem : ℕ → UioMem) (i : ℕ) : UioDeviceMemoryMapItem :=
  ⟨untilBreak ((mem i).name.getD []), (i * pageSize : ℕ), signed64 (mem i).size⟩

/-- The numbers of the regions from `i` on. -/
def regions (mem : ℕ → UioMem) (i n : ℕ) : List ℕ :=
  (List.range' i n).takeWhile fun j => (mem j).size ≠ 0

theorem untilBreak_size (n : ℕ) :
    untilBreak ('0' :: 'x' :: hex.render 16 n) = '0' :: 'x' :: hex.render 16 n := by
  have hdigit : ∀ d < 16, hex.char d ≠ '\n' ∧ hex.char d ≠ '\r' := by decide
  have hrender : untilBreak (hex.render 16 n) = hex.render 16 n := by
    refine List.takeWhile_eq_self_iff.mpr fun c hc => ?_
    obtain ⟨d, hd, rfl⟩ := Numerals.mem_render (by norm_num) hc
    exact decide_eq_true (hdigit d hd)
  simpa [untilBreak] using hrender

theorem readMaps_publish (mem : ℕ → UioMem) (h : i + n ≤ 2 ^ 19) :
    readMaps (publish mem n i) i = .ok ((regions mem i n).map (mapItem mem)) := by
  induction n generalizing i with
  | zero => rfl
  | succ n ih =>
      have hrest := ih (i := i + 1) (by omega)
      simp only [regions] at hrest
      simp only [publish, regions, List.range'_succ]
      split_ifs with hzero
      · simp [hzero, readMaps]
      · have hoffset : wrap32 (i * (pageSize : ℕ)) = (i * pageSize : ℕ) := by
          have hp : pageSize = 4096 := by decide
          rw [hp]
          push_cast
          exact wrap32_eq (by omega) (by omega)
        have hsize : Convert.toInt64 (untilBreak ('0' :: 'x' :: hex.render 16 (mem i).size)) =
            .ok (signed64 (mem i).size) := by
          rw [untilBreak_size, toInt64_render (mem i).size_lt]
        simp only [readMaps, mapNameShow, mapSizeShow, firstLine_append_newline, ok_bind,
          pure_eq_ok, hsize, hrest, hoffset]
        simp [hzero, mapItem]

/-- **The program reads what the driver described.** The instance with a node, the regions
before the first of size zero, the first line of each name, the size as a `long`, and as
offset the number of the region in pages. -/
theorem getDeviceInformation_publish (mem : ℕ → UioMem) (fs : Sysfs) (before after : List Instance)
    (name : Text) (huio : fs.uio = some (before ++ ⟨name, publish mem maxUioMaps 0⟩ :: after))
    (hbefore : ∀ i ∈ before, fs.fileExists (devicePath i.name) = false)
    (hexists : fs.fileExists (devicePath name) = true) :
    getDeviceInformation fs =
      .ok ⟨devicePath name, (regions mem 0 maxUioMaps).map (mapItem mem)⟩ := by
  have hfind : (before ++ ⟨name, publish mem maxUioMaps 0⟩ :: after).find?
      (fun i => fs.fileExists (devicePath i.name)) = some ⟨name, publish mem maxUioMaps 0⟩ := by
    rw [List.find?_append, List.find?_eq_none.mpr (by simpa using hbefore), Option.none_or]
    exact List.find?_cons_of_pos hexists
  have hread := readMaps_publish mem (i := 0) (n := maxUioMaps) (by decide)
  simp only [getDeviceInformation, huio, hfind, hread, ok_bind, pure_eq_ok]

end

/-! ## The constructor -/

/-- What the constructor leaves: the offsets, the area and what it maps, and the bytes there. -/
structure Opened where
  offsets : RingOffsets
  area : Vma
  mapped : Mapped
  mapping : Mapping

/-- An area of some pages. -/
def Vma.ofPages (base pages pgoff : ℕ) (h : (base + pages) * pageSize < 2 ^ 64) : Vma :=
  ⟨base * pageSize, (base + pages) * pageSize, pgoff, h, Dvd.intro_left base rfl,
    Dvd.intro_left (base + pages) rfl⟩

/-- `CreateFromFile` and `CreateViewAccessor` on a device that is open, with the page that the
kernel chooses for the start. The length of a device node is zero, which a capacity of zero
would take. -/
def createView (info : Option (ℕ → UioMem)) (base : ℕ) (offset size : ℤ) :
    Except OpenExn (Vma × Mapped) :=
  if size < 0 then .error (.exn .argumentOutOfRange)
  else if size = 0 then .error (.exn .argument)
  else if offset < 0 then .error (.exn .argumentOutOfRange)
  else
    let pages := (size.toNat + pageSize - 1) / pageSize
    if h : (base + pages) * pageSize < 2 ^ 64 then
      let area := Vma.ofPages base pages (offset.toNat / pageSize) h
      match uioMmap info area with
      | .error _ => .error .io
      | .ok mapped => .ok (area, mapped)
    else .error .io

/-- `Accessor.Write(position, 0)`, on an accessor of some capacity. -/
def writeZero (capacity position : ℤ) (m : Mapping) : Except OpenExn Mapping :=
  if position < 0 then .error (.exn .argumentOutOfRange)
  else if capacity ≤ position then .error (.exn .argumentOutOfRange)
  else if capacity - 4 < position then .error (.exn .argument)
  else .ok (writeUInt32 position.toNat 0 m)

/-- What the constructor looks for. -/
def isRings (item : UioDeviceMemoryMapItem) : Bool :=
  item.name = "txrx_rings".toList ∧ item.offset = 0

/-- The constructor from the region on, with the regions that the driver has when it maps it. -/
def openItem (info : Option (ℕ → UioMem)) (base : ℕ) (m : Mapping)
    (item : UioDeviceMemoryMapItem) : Except OpenExn Opened := do
  let offsets ← (RingOffsets.create pageSize item.size).mapError .exn
  let view ← createView info base item.offset item.size
  let m ← writeZero item.size (add32 offsets.incomingControlOffset 8) m
  pure ⟨offsets, view.1, view.2, m⟩

/-- The constructor of `UioHvDevice`. -/
def openDevice (fs : Sysfs) (info : Option (ℕ → UioMem)) (base : ℕ) (m : Mapping) :
    Except OpenExn Opened := do
  let device ← getDeviceInformation fs
  match device.memoryMap.find? isRings with
  | none => .error (.exn (.exception "Failed to create UioHvDevice"))
  | some item => openItem info base m item

/-! ## The regions of the driver -/

/-- What `hv_uio_probe` finds or sets up: the rings, the pages of the connection, and the two
buffers with the handles of their GPADLs. -/
structure Channel where
  ringbufferPage : ℕ
  ringbufferPagecount : ℕ
  intPage : ℕ
  monitorPage : ℕ
  recvBuf : ℕ
  sendBuf : ℕ
  recvGpadlHandle : UInt32
  sendGpadlHandle : UInt32
  ring_fits : ringbufferPage * pageSize + 2 ^ 32 ≤ 2 ^ 64
  int_fits : intPage + pageSize ≤ 2 ^ 64
  monitor_fits : monitorPage + pageSize ≤ 2 ^ 64
  recv_fits : recvBuf + 31 * 1024 * 1024 ≤ 2 ^ 64
  send_fits : sendBuf + 16 * 1024 * 1024 ≤ 2 ^ 64

def recvBufferSize : ℕ := 31 * 1024 * 1024
def sendBufferSize : ℕ := 16 * 1024 * 1024

/-- `%u`. -/
def decimal (v : UInt32) : Text := Nat.toDigits 10 v.toNat

theorem zero_fits : 0 + 0 ≤ 2 ^ 64 := by decide
theorem zero_size_lt : 0 < 2 ^ 64 := by decide

/-- `info.mem` of `hv_uio_probe`. The count of pages is shifted as 32 bits. -/
def probeInfo (c : Channel) : ℕ → UioMem
  | 0 => {
      name := some "txrx_rings".toList
      addr := c.ringbufferPage * pageSize
      size := (c.ringbufferPagecount <<< pageShift) % 2 ^ 32
      memtype := .iova
      dmaAddr := 0
      dmaDevice := false
      fits := by have := c.ring_fits; omega
      size_lt := by omega }
  | 1 => {
      name := some "int_page".toList
      addr := c.intPage
      size := pageSize
      memtype := .logical
      dmaAddr := 0
      dmaDevice := false
      fits := c.int_fits
      size_lt := by decide }
  | 2 => {
      name := some "monitor_page".toList
      addr := c.monitorPage
      size := pageSize
      memtype := .logical
      dmaAddr := 0
      dmaDevice := false
      fits := c.monitor_fits
      size_lt := by decide }
  | 3 => {
      name := some ("recv:".toList ++ decimal c.recvGpadlHandle)
      addr := c.recvBuf
      size := recvBufferSize
      memtype := .virtual
      dmaAddr := 0
      dmaDevice := false
      fits := c.recv_fits
      size_lt := by decide }
  | 4 => {
      name := some ("send:".toList ++ decimal c.sendGpadlHandle)
      addr := c.sendBuf
      size := sendBufferSize
      memtype := .virtual
      dmaAddr := 0
      dmaDevice := false
      fits := c.send_fits
      size_lt := by decide }
  | _ => ⟨none, 0, 0, .none, 0, false, zero_fits, zero_size_lt⟩

/-- A file system with the one instance of a channel. -/
def channelFs (c : Channel) (name : Text) : Sysfs where
  uio := some [⟨name, publish (probeInfo c) maxUioMaps 0⟩]
  fileExists := fun path => path = devicePath name

section

variable {c : Channel} {dev : UioHvDevice} {base : ℕ} {m : Mapping}

theorem fileExists_channelFs (name : Text) :
    (channelFs c name).fileExists (devicePath name) = true := decide_eq_true rfl

theorem getDeviceInformation_channelFs (c : Channel) (name : Text) :
    getDeviceInformation (channelFs c name) =
      .ok ⟨devicePath name, (regions (probeInfo c) 0 maxUioMaps).map (mapItem (probeInfo c))⟩ :=
  getDeviceInformation_publish (probeInfo c) (channelFs c name) [] [] name rfl
    (fun _ hi => absurd hi List.not_mem_nil) (fileExists_channelFs _)

theorem find_rings (mem : ℕ → UioMem) (hname : (mem 0).name = some "txrx_rings".toList)
    (hsize : (mem 0).size ≠ 0) :
    ((regions mem 0 maxUioMaps).map (mapItem mem)).find? isRings =
      some ⟨"txrx_rings".toList, 0, signed64 (mem 0).size⟩ := by
  have hitem : mapItem mem 0 = ⟨"txrx_rings".toList, 0, signed64 (mem 0).size⟩ := by
    have hline : untilBreak "txrx_rings".toList = "txrx_rings".toList := by decide
    simp only [mapItem, hname, Option.getD_some, hline, Nat.zero_mul, Nat.cast_zero]
  have hregions : regions mem 0 maxUioMaps = 0 :: regions mem 1 4 := by
    have hrange : List.range' 0 maxUioMaps = 0 :: List.range' 1 4 := rfl
    simp [regions, hrange, hsize]
  rw [hregions, List.map_cons, hitem]
  exact List.find?_cons_of_pos (by simp [isRings])

/-- The offsets of a device. -/
def UioHvDevice.ringOffsets (dev : UioHvDevice) : RingOffsets where
  ringBufferSize := dev.ringBufferSize
  controlMaximumSize := dev.controlMaximumSize
  dataMaximumSize := dev.dataMaximumSize
  outgoingControlOffset := dev.outgoingControlOffset
  outgoingDataOffset := dev.outgoingDataOffset
  incomingControlOffset := dev.incomingControlOffset
  incomingDataOffset := dev.incomingDataOffset

/-- The rings of a channel, for a device with two of that size. -/
structure HasRings (c : Channel) (dev : UioHvDevice) : Prop where
  page : dev.controlMaximumSize = pageSize
  pages : c.ringbufferPagecount * pageSize = dev.capacity

theorem UioHvDevice.capacity_pos (dev : UioHvDevice) : 0 < dev.capacity := by
  have := dev.data_pos
  simp only [UioHvDevice.capacity, UioHvDevice.ringBufferSize]
  omega

theorem HasRings.size_zero (H : HasRings c dev) : (probeInfo c 0).size = dev.capacity := by
  simp only [probeInfo, shiftLeft_pageShift, H.pages]
  exact Nat.mod_eq_of_lt dev.capacity_lt

/-- The rings are mapped at once. -/
theorem HasRings.uioMmap_eq (H : HasRings c dev)
    (hroom : (base + c.ringbufferPagecount) * pageSize < 2 ^ 64) :
    uioMmap (some (probeInfo c)) (.ofPages base c.ringbufferPagecount 0 hroom) =
      .ok (.remap c.ringbufferPage dev.capacity) := by
  have hpos : 0 < pageSize := by decide
  have hbytes : (base + c.ringbufferPagecount) * pageSize - base * pageSize = dev.capacity := by
    rw [Nat.add_mul, Nat.add_sub_cancel_left, H.pages]
  generalize harea : Vma.ofPages base c.ringbufferPagecount 0 hroom = area
  have hlength : area.stop - area.start = dev.capacity := harea ▸ hbytes
  have hle : ¬ area.stop < area.start := by
    have := dev.capacity_pos
    omega
  have hfind : uioFindMemIndex (probeInfo c) area = some 0 := by
    rw [uioFindMemIndex_eq_some, H.size_zero, ← harea]
    exact ⟨rfl, by decide, dev.capacity_pos⟩
  have haddr : (probeInfo c 0).addr = c.ringbufferPage * pageSize := rfl
  have haligned : (probeInfo c 0).addr % pageSize = 0 := by rw [haddr, Nat.mul_mod_left]
  have hpages : actualPages (probeInfo c 0) = c.ringbufferPagecount := by
    have hlt := dev.capacity_lt
    have hp : pageSize = 4096 := by decide
    rw [actualPages, haligned, H.size_zero, wrap64, Nat.mod_eq_of_lt (by omega),
      shiftRight_pageShift, ← H.pages, hp]
    omega
  have hvma : vmaPages area = c.ringbufferPagecount := by
    rw [vmaPages, shiftRight_pageShift, hlength, ← H.pages, Nat.mul_div_cancel _ hpos]
  have hmemtype : (probeInfo c 0).memtype = .iova := rfl
  have hphysical : uioMmapPhysical (probeInfo c) area =
      .ok (.remap c.ringbufferPage dev.capacity) := by
    simp only [uioMmapPhysical, hfind, hlength, H.size_zero, haddr, shiftRight_pageShift,
      Nat.mul_div_cancel _ hpos]
    simp
  simp only [uioMmap, hle, hfind, hvma, hpages, hmemtype, hphysical, gt_iff_lt, lt_irrefl, if_false]

theorem HasRings.createView_eq (H : HasRings c dev)
    (hroom : (base + c.ringbufferPagecount) * pageSize < 2 ^ 64) :
    createView (some (probeInfo c)) base 0 dev.capacity =
      .ok (.ofPages base c.ringbufferPagecount 0 hroom, .remap c.ringbufferPage dev.capacity) := by
  have hpos := dev.capacity_pos
  have hpages : (dev.capacity + pageSize - 1) / pageSize = c.ringbufferPagecount := by
    have hp : pageSize = 4096 := by decide
    rw [← H.pages, hp]
    omega
  have hoffset : (0 : ℤ).toNat / pageSize = 0 := by decide
  rw [createView, if_neg (by omega), if_neg (by omega), if_neg (by omega)]
  simp only [Int.toNat_natCast, hpages, hoffset, dif_pos hroom, H.uioMmap_eq hroom]

theorem writeZero_interruptMask :
    writeZero dev.capacity (add32 dev.incomingControlOffset 8) m =
      .ok (interruptControl dev true m) := by
  have hpage := dev.control_fits
  have hfits := dev.offsets_fit
  have hring : dev.incomingControlOffset = dev.controlMaximumSize + dev.dataMaximumSize := rfl
  have hincoming : dev.incomingControlOffset + 12 ≤ dev.capacity := by
    simp only [UioHvDevice.capacity, UioHvDevice.ringBufferSize]
    omega
  have hposition : add32 dev.incomingControlOffset 8 = (dev.incomingControlOffset + 8 : ℕ) := by
    rw [add32_eq (by omega) (by omega), Nat.cast_add, Nat.cast_ofNat]
  rw [hposition, writeZero, if_neg (by omega), if_neg (by omega), if_neg (by omega),
    Int.toNat_natCast, interruptControl, if_pos rfl]

theorem HasRings.openItem_eq (H : HasRings c dev)
    (hroom : (base + c.ringbufferPagecount) * pageSize < 2 ^ 64) {item : UioDeviceMemoryMapItem}
    (hoffset : item.offset = 0) (hsize : item.size = dev.capacity) :
    openItem (some (probeInfo c)) base m item = .ok {
      offsets := dev.ringOffsets
      area := .ofPages base c.ringbufferPagecount 0 hroom
      mapped := .remap c.ringbufferPage dev.capacity
      mapping := interruptControl dev true m } := by
  have hcreate : (RingOffsets.create pageSize dev.capacity).mapError OpenExn.exn =
      .ok dev.ringOffsets := by
    rw [← H.page, RingOffsets.create_eq dev]
    rfl
  have hincoming : dev.ringOffsets.incomingControlOffset = dev.incomingControlOffset := rfl
  rw [openItem, hoffset, hsize, hcreate, ok_bind, H.createView_eq hroom, ok_bind, hincoming,
    writeZero_interruptMask, ok_bind, pure_eq_ok]

/-- **The rings end to end.** On a channel that the driver has described, the constructor finds
the rings, computes the geometry of the two, maps exactly their pages, and clears the
interrupt mask of the incoming one. -/
theorem openDevice_of_probe (c : Channel) (dev : UioHvDevice) (name : Text) (base : ℕ)
    (m : Mapping) (H : HasRings c dev)
    (hroom : (base + c.ringbufferPagecount) * pageSize < 2 ^ 64) :
    openDevice (channelFs c name) (some (probeInfo c)) base m = .ok {
      offsets := dev.ringOffsets
      area := .ofPages base c.ringbufferPagecount 0 hroom
      mapped := .remap c.ringbufferPage dev.capacity
      mapping := interruptControl dev true m } := by
  have hpos := dev.capacity_pos
  have hlt := dev.capacity_lt
  have hfind := find_rings (probeInfo c) rfl (by rw [H.size_zero]; omega)
  have hsigned : signed64 dev.capacity = dev.capacity := if_pos (by omega)
  rw [H.size_zero, hsigned] at hfind
  rw [openDevice, getDeviceInformation_channelFs, ok_bind]
  simp only [hfind]
  exact H.openItem_eq hroom rfl rfl

/-- The rings that the driver allocates by default, at the fourth gigabyte. -/
def defaultChannel : Channel :=
  ⟨0x100000, 1024, 0x1000, 0x2000, 0x200000000, 0x300000000, 0xE1E10, 0xE1E11, by decide, by decide,
    by decide, by decide, by decide⟩

theorem hasRings_defaultChannel : HasRings defaultChannel .defaultRings := ⟨by decide, by decide⟩

theorem openDevice_of_probe_defaultChannel :
    ∃ o, openDevice (channelFs defaultChannel "uio0".toList) (some (probeInfo defaultChannel))
        0x7f0000000 (fun _ => 0) = .ok o ∧ o.mapped = .remap 0x100000 0x400000 :=
  ⟨_, openDevice_of_probe defaultChannel .defaultRings "uio0".toList 0x7f0000000 (fun _ => 0)
    hasRings_defaultChannel (by decide), rfl⟩

/-- The five regions of the driver. -/
theorem getDeviceInformation_publish_defaultChannel :
    getDeviceInformation (channelFs defaultChannel "uio0".toList) = .ok ⟨"/dev/uio0".toList,
      [⟨"txrx_rings".toList, 0, 0x400000⟩, ⟨"int_page".toList, 0x1000, 0x1000⟩,
        ⟨"monitor_page".toList, 0x2000, 0x1000⟩, ⟨"recv:925200".toList, 0x3000, 0x1F00000⟩,
        ⟨"send:925201".toList, 0x4000, 0x1000000⟩]⟩ := by
  rw [getDeviceInformation_publish (probeInfo defaultChannel)
    (channelFs defaultChannel "uio0".toList) [] [] "uio0".toList rfl
    (fun _ hi => absurd hi List.not_mem_nil) (fileExists_channelFs _)]
  have hregions : regions (probeInfo defaultChannel) 0 maxUioMaps = [0, 1, 2, 3, 4] := by decide
  rw [hregions]
  rfl

end

/-! ## The search for the data channel -/

/-- `DataInstanceIds`. -/
def dataInstanceIds : List Text :=
  ["99221fa1-24ad-11e2-be98-001aa01bbf6e".toList, "99221fa2-24ad-11e2-be98-001aa01bbf6e".toList,
    "99221fa3-24ad-11e2-be98-001aa01bbf6e".toList, "99221fa4-24ad-11e2-be98-001aa01bbf6e".toList,
    "99221fa5-24ad-11e2-be98-001aa01bbf6e".toList]

section

-- What the file system has for an instance at each call.
variable (fs : ℕ → Text → Sysfs)

/-- One round of the search from call `t` on: the instance if one is found, and the number of
the next call. -/
def searchInstances : List Text → ℕ → (Text × ℕ) ⊕ ℕ
  | [], t => .inr t
  | id :: ids, t =>
      match getDeviceInformation (fs t id) with
      | .ok _ => .inl (id, t + 1)
      | .error _ => searchInstances ids (t + 1)

/-- The loop of `WaitForDataChannel`, for a number of rounds. -/
def searchDataChannel : ℕ → ℕ → Option (Text × ℕ)
  | 0, _ => none
  | n + 1, t =>
      match searchInstances fs dataInstanceIds t with
      | .inl found => some found
      | .inr t => searchDataChannel n t

/-- `WaitForDataChannel`, for a number of rounds of its loop. The constructor asks for the
instance once more, when it may be there no longer, and what it throws is not caught. -/
def waitForDataChannel (info : Text → Option (ℕ → UioMem)) (base : ℕ) (m : Mapping) (n : ℕ) :
    Option (Except OpenExn Opened) :=
  (searchDataChannel fs n 0).map fun found =>
    openDevice (fs found.2 found.1) (info found.1) base m

/-- The instance that is asked for in a call. -/
def asked (t : ℕ) : Text := dataInstanceIds.getD (t % 5) []

/-- A call that finds its instance. -/
def Found (t : ℕ) : Prop := ∃ info, getDeviceInformation (fs t (asked t)) = .ok info

/-- The search call by call, across the rounds. -/
def searchCalls : ℕ → ℕ → (Text × ℕ) ⊕ ℕ
  | 0, t => .inr t
  | k + 1, t =>
      match getDeviceInformation (fs t (asked t)) with
      | .ok _ => .inl (asked t, t + 1)
      | .error _ => searchCalls k (t + 1)

variable {fs} {t k j n : ℕ} {found : Text × ℕ} {ids : List Text}

theorem searchCalls_add : searchCalls fs (k + j) t =
    match searchCalls fs k t with
    | .inl found => .inl found
    | .inr t => searchCalls fs j t := by
  induction k generalizing t with
  | zero => rw [Nat.zero_add, searchCalls]
  | succ k ih =>
      rw [Nat.succ_add, searchCalls, searchCalls]
      cases getDeviceInformation (fs t (asked t)) with
      | ok info => rfl
      | error e => exact ih

theorem searchInstances_eq (h : ∀ i (hi : i < ids.length), ids[i] = asked (t + i)) :
    searchInstances fs ids t = searchCalls fs ids.length t := by
  induction ids generalizing t with
  | nil => rfl
  | cons id ids ih =>
      have hid : id = asked t := h 0 (Nat.succ_pos _)
      rw [searchInstances, List.length_cons, searchCalls, hid]
      cases getDeviceInformation (fs t (asked t)) with
      | ok info => rfl
      | error e =>
          refine ih fun i hi => ?_
          have hnext := h (i + 1) (Nat.succ_lt_succ hi)
          rwa [Nat.add_right_comm, Nat.add_assoc]

theorem searchCalls_eq_inr {t' : ℕ} (h : searchCalls fs k t = .inr t') : t' = t + k := by
  induction k generalizing t with
  | zero => exact (Sum.inr.inj h).symm
  | succ k ih =>
      rw [searchCalls] at h
      split at h
      · cases h
      · have := ih h
        omega

/-- A search ends with the first call that finds its instance. -/
theorem searchCalls_eq_inl_iff : searchCalls fs k t = .inl found ↔
    ∃ u, t ≤ u ∧ u < t + k ∧ Found fs u ∧ (asked u, u + 1) = found ∧
      ∀ v, t ≤ v → v < u → ¬ Found fs v := by
  induction k generalizing t with
  | zero =>
      simp only [searchCalls, reduceCtorEq, false_iff]
      rintro ⟨u, htu, hut, _⟩
      omega
  | succ k ih =>
      rw [searchCalls]
      cases hcall : getDeviceInformation (fs t (asked t)) with
      | ok info =>
          simp only [Sum.inl.injEq]
          constructor
          · rintro rfl
            exact ⟨t, le_rfl, by omega, ⟨info, hcall⟩, rfl, fun v hv hvt => by omega⟩
          · rintro ⟨u, htu, _, _, rfl, hnone⟩
            obtain rfl | hlt := Nat.eq_or_lt_of_le htu
            · rfl
            · exact absurd ⟨info, hcall⟩ (hnone t le_rfl hlt)
      | error e =>
          have hnot : ¬ Found fs t := by
            rintro ⟨info, hinfo⟩
            rw [hcall] at hinfo
            cases hinfo
          dsimp only
          rw [ih]
          constructor
          · rintro ⟨u, htu, hut, hfound, hid, hnone⟩
            refine ⟨u, by omega, by omega, hfound, hid, fun v hv hvu => ?_⟩
            obtain rfl | hlt := Nat.eq_or_lt_of_le hv
            · exact hnot
            · exact hnone v hlt hvu
          · rintro ⟨u, htu, hut, hfound, hid, hnone⟩
            have hne : t ≠ u := by
              rintro rfl
              exact hnot hfound
            exact ⟨u, by omega, by omega, hfound, hid, fun v hv hvu => hnone v (by omega) hvu⟩

theorem searchDataChannel_eq (ht : 5 ∣ t) :
    searchDataChannel fs n t = (searchCalls fs (5 * n) t).getLeft? := by
  induction n generalizing t with
  | zero => rfl
  | succ n ih =>
      have hround : searchInstances fs dataInstanceIds t = searchCalls fs 5 t := by
        refine searchInstances_eq fun i hi => ?_
        have hlt : i < 5 := hi
        have hmod : (t + i) % 5 = i := by omega
        rw [asked, hmod, List.getD_eq_getElem _ _ hi]
      rw [searchDataChannel, hround, Nat.mul_succ, Nat.add_comm, searchCalls_add]
      cases hcalls : searchCalls fs 5 t with
      | inl found => rfl
      | inr t' =>
          obtain rfl := searchCalls_eq_inr hcalls
          exact ih (Nat.dvd_add ht (Nat.dvd_refl 5))

theorem searchDataChannel_eq_some_iff : searchDataChannel fs n 0 = some found ↔
    ∃ t < 5 * n, Found fs t ∧ (asked t, t + 1) = found ∧ ∀ u < t, ¬ Found fs u := by
  rw [searchDataChannel_eq (Nat.dvd_zero 5), Sum.getLeft?_eq_some_iff, searchCalls_eq_inl_iff]
  simp

/-- **The wait for the data channel.** It goes on as long as the instance that is asked for is
not there. At the first call that finds its instance it hands that one to the constructor,
which reads it at the next call, and returns or throws what the constructor does. -/
theorem waitForDataChannel_eq_some_iff (fs : ℕ → Text → Sysfs)
    (info : Text → Option (ℕ → UioMem)) (base : ℕ) (m : Mapping) (n : ℕ)
    (result : Except OpenExn Opened) :
    waitForDataChannel fs info base m n = some result ↔
      ∃ t < 5 * n, Found fs t ∧ (∀ u < t, ¬ Found fs u) ∧
        openDevice (fs (t + 1) (asked t)) (info (asked t)) base m = result := by
  simp only [waitForDataChannel, Option.map_eq_some_iff, searchDataChannel_eq_some_iff]
  constructor
  · rintro ⟨_, ⟨t, ht, hfound, rfl, hnone⟩, hopen⟩
    exact ⟨t, ht, hfound, hnone, hopen⟩
  · rintro ⟨t, ht, hfound, hnone, hopen⟩
    exact ⟨_, ⟨t, ht, hfound, rfl, hnone⟩, hopen⟩

end

end HvGin
