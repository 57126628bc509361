import HvGin.Runtime
import HvGin.Lib.LittleEndian

/-!
# Packet descriptors and pipe headers

The two structures in front of every pipe packet, with the accessors the code
uses and their byte layout. The raw fields have the width of the source; the
accessors convert between them and `int` values, with the checks of `Convert`.

`PipePacket` is the well-formed in-band data packet both ends of a ring exchange;
its fields carry the bounds under which its image decodes back to it.

## Main definitions

* `PacketDescriptor`, `PipeHeader` — the structures and their accessors.
* `bytesToStructure` — decoding with the source's missing length check made an error.
* `PipePacket.image` — the bytes of a well-formed data packet.
* `readContents` — the contents of the whole packets in a run of bytes.
-/
namespace HvGin

open Lib

/-! ## Enumerations -/

inductive PacketType
  | invalid | dataInBand | dataUsingTransferPages | dataUsingGpaDirect | cancelRequest | completion
  deriving DecidableEq, Repr

namespace PacketType

def raw : PacketType → UInt16
  | invalid => 0
  | dataInBand => 6
  | dataUsingTransferPages => 7
  | dataUsingGpaDirect => 9
  | cancelRequest => 10
  | completion => 11

/-- `Enum.IsDefined` and the cast; an undefined number reads as `Invalid`. -/
def ofRaw (r : UInt16) : PacketType :=
  match r.toNat with
  | 6 => dataInBand
  | 7 => dataUsingTransferPages
  | 9 => dataUsingGpaDirect
  | 10 => cancelRequest
  | 11 => completion
  | _ => invalid

theorem ofRaw_raw (t : PacketType) : ofRaw t.raw = t := by cases t <;> rfl

end PacketType

inductive PipeMessageType
  | invalid | data | partialData | setupGpaDirect | teardownGpaDirect | indicationComplete
  deriving DecidableEq, Repr

namespace PipeMessageType

def raw : PipeMessageType → UInt32
  | invalid => 0
  | data => 1
  | partialData => 2
  | setupGpaDirect => 3
  | teardownGpaDirect => 4
  | indicationComplete => 5

def ofRaw (r : UInt32) : PipeMessageType :=
  match r.toNat with
  | 1 => data
  | 2 => partialData
  | 3 => setupGpaDirect
  | 4 => teardownGpaDirect
  | 5 => indicationComplete
  | _ => invalid

theorem ofRaw_raw (t : PipeMessageType) : ofRaw t.raw = t := by cases t <;> rfl

end PipeMessageType

/-! ## Alignment -/

/-- `Utilities.GetAlignedSize`, with the `int` operations of the source. -/
def getAlignedSize (size alignment : ℤ) : ℤ :=
  (Int32.ofInt (size + alignment - 1) &&& ~~~Int32.ofInt (alignment - 1)).toInt

/-- The least multiple of `8` that is at least `n`. -/
def alignUp8 (n : ℕ) : ℕ := (n + 7) / 8 * 8

theorem le_alignUp8 (n : ℕ) : n ≤ alignUp8 n := by simp only [alignUp8]; omega
theorem alignUp8_lt (n : ℕ) : alignUp8 n < n + 8 := by simp only [alignUp8]; omega
theorem dvd_alignUp8 (n : ℕ) : 8 ∣ alignUp8 n := Dvd.intro_left _ rfl

/-- Clearing the three lowest bits rounds down to a multiple of `8`. -/
theorem and_not_seven (b : BitVec 32) : b &&& ~~~7#32 = (b >>> 3) <<< 3 := by
  have hmask : ∀ i (hi : i < 32), (~~~7#32)[i] = decide (3 ≤ i) := by decide
  ext i hi
  rw [BitVec.getElem_and, hmask i hi]
  by_cases h : i < 3
  · simp [h]
  · simp [h, show 3 + (i - 3) = i by omega, Nat.le_of_not_lt h, BitVec.getLsbD_eq_getElem hi]

theorem getAlignedSize_eight {n : ℕ} (h : n + 7 < 2 ^ 31) : getAlignedSize n 8 = alignUp8 n := by
  have hseven : (Int32.ofInt (8 - 1)).toBitVec = 7#32 := by decide
  have hsize : (Int32.ofInt ((n : ℤ) + 8 - 1)).toBitVec = BitVec.ofNat 32 (n + 7) := by
    rw [Int32.toBitVec_ofInt, show (n : ℤ) + 8 - 1 = ((n + 7 : ℕ) : ℤ) by omega,
      BitVec.ofInt_natCast]
  have hval : (BitVec.ofNat 32 (n + 7) >>> 3 <<< 3).toNat = alignUp8 n := by
    simp [Nat.shiftLeft_eq, Nat.shiftRight_eq_div_pow, alignUp8]
    omega
  have hlt := alignUp8_lt n
  rw [getAlignedSize, ← Int32.toInt_toBitVec, Int32.toBitVec_and, Int32.toBitVec_not, hseven,
    hsize, and_not_seven, BitVec.toInt_eq_toNat_of_lt (by rw [hval]; omega), hval]

/-! ## Fields of a byte array -/

/-- The unsigned field of `w` bytes at an offset. -/
def field (bytes : List UInt8) (offset w : ℕ) : ℕ := ofLE ((bytes.drop offset).take w)

theorem field_append (pre : List UInt8) {rest : List UInt8} {offset w n : ℕ}
    (h : pre.length = offset)
    (hn : n < 256 ^ w) : field (pre ++ (toLE w n ++ rest)) offset w = n := by
  rw [field, List.drop_left' h, List.take_left' (length_toLE w n), ofLE_toLE_of_lt hn]

/-- `Utilities.BytesToStructure`: pins the array and reads the structure at its
start, without a check of its own. -/
def bytesToStructure {α : Type} (size : ℕ) (decode : List UInt8 → α) (bytes : List UInt8) :
    Except Exn α :=
  if bytes.length < size then .error .shortStructure else .ok (decode bytes)

theorem bytesToStructure_of_le {α : Type} {size : ℕ} {decode : List UInt8 → α}
    {bytes : List UInt8} (h : size ≤ bytes.length) :
    bytesToStructure size decode bytes = .ok (decode bytes) := if_neg (by omega)

/-! ## The packet descriptor -/

structure PacketDescriptor where
  rawType : UInt16
  rawDataOffset8 : UInt16
  rawLength8 : UInt16
  rawFlags : UInt16
  transactionId : UInt64
  deriving DecidableEq, Repr

namespace PacketDescriptor

/-- `new PacketDescriptor()`. -/
def zero : PacketDescriptor := ⟨0, 0, 0, 0, 0⟩

def type (d : PacketDescriptor) : PacketType := .ofRaw d.rawType
def setType (d : PacketDescriptor) (value : PacketType) : PacketDescriptor :=
  { d with rawType := value.raw }

/-- The value both length setters store: the size in units of eight bytes. -/
def alignedRaw8 (value : ℤ) : Except Exn UInt16 := do
  let raw ← Convert.toUInt16 (getAlignedSize value 8 >>> (3 : ℕ))
  pure (min raw 65535)

def dataOffset (d : PacketDescriptor) : ℕ := d.rawDataOffset8.toNat <<< 3
def setDataOffset (d : PacketDescriptor) (value : ℤ) : Except Exn PacketDescriptor := do
  let raw ← alignedRaw8 value
  pure { d with rawDataOffset8 := raw }

def length (d : PacketDescriptor) : ℕ := d.rawLength8.toNat <<< 3
def setLength (d : PacketDescriptor) (value : ℤ) : Except Exn PacketDescriptor := do
  let raw ← alignedRaw8 value
  pure { d with rawLength8 := raw }

def completionRequested (d : PacketDescriptor) : Bool := d.rawFlags &&& 1 ≠ 0
def setCompletionRequested (d : PacketDescriptor) (value : Bool) : PacketDescriptor :=
  { d with rawFlags := if value then d.rawFlags ||| 1 else d.rawFlags &&& 0xFFFE }

theorem length_eq (d : PacketDescriptor) : d.length = d.rawLength8.toNat * 8 := by
  rw [length, Nat.shiftLeft_eq]

theorem length_le (d : PacketDescriptor) : d.length ≤ 524280 := by
  have := d.rawLength8.toNat_lt
  rw [length_eq]
  omega

/-- A size that fits the sixteen-bit length field is stored rounded up. -/
theorem alignedRaw8_ok {n : ℕ} (h : n ≤ 524280) :
    alignedRaw8 n = .ok (UInt16.ofNat (alignUp8 n / 8)) := by
  have hlt := alignUp8_lt n
  have hle : alignUp8 n / 8 ≤ 65535 := by simp only [alignUp8]; omega
  have hshift : (alignUp8 n : ℤ) >>> (3 : ℕ) = ((alignUp8 n / 8 : ℕ) : ℤ) := by
    rw [Int.shiftRight_eq_div_pow]; norm_num
  rw [alignedRaw8, getAlignedSize_eight (by omega), hshift, Convert.toUInt16_natCast (by omega)]
  refine congrArg Except.ok (if_pos ?_)
  rw [UInt16.le_iff_toNat_le, toNat_ofNat16 (by omega)]
  exact hle

/-- A size that does not fit makes the conversion to `ushort` throw. -/
theorem alignedRaw8_overflow {n : ℕ} (h : 524280 < n) (hn : n + 7 < 2 ^ 31) :
    alignedRaw8 n = .error .overflow := by
  have hge : 65536 ≤ alignUp8 n / 8 := by simp only [alignUp8]; omega
  have hshift : (alignUp8 n : ℤ) >>> (3 : ℕ) = ((alignUp8 n / 8 : ℕ) : ℤ) := by
    rw [Int.shiftRight_eq_div_pow]; norm_num
  rw [alignedRaw8, getAlignedSize_eight hn, hshift, Convert.toUInt16, if_neg (by omega)]
  rfl

/-- `Utilities.StructureToBytes`. -/
def toBytes (d : PacketDescriptor) : List UInt8 :=
  toLE 2 d.rawType.toNat ++ toLE 2 d.rawDataOffset8.toNat ++ toLE 2 d.rawLength8.toNat ++
    toLE 2 d.rawFlags.toNat ++ toLE 8 d.transactionId.toNat

/-- The layout of the structure: sequential fields, no padding. -/
def ofBytes (bytes : List UInt8) : PacketDescriptor where
  rawType := .ofNat (field bytes 0 2)
  rawDataOffset8 := .ofNat (field bytes 2 2)
  rawLength8 := .ofNat (field bytes 4 2)
  rawFlags := .ofNat (field bytes 6 2)
  transactionId := .ofNat (field bytes 8 8)

@[simp] theorem length_toBytes (d : PacketDescriptor) : d.toBytes.length = 16 := by
  simp [toBytes]

theorem ofBytes_toBytes_append (d : PacketDescriptor) (rest : List UInt8) :
    ofBytes (d.toBytes ++ rest) = d := by
  have h₀ : field (d.toBytes ++ rest) 0 2 = d.rawType.toNat := by
    simpa [toBytes] using field_append [] rfl (by simpa using d.rawType.toNat_lt)
  have h₂ : field (d.toBytes ++ rest) 2 2 = d.rawDataOffset8.toNat := by
    simpa [toBytes] using field_append (toLE 2 d.rawType.toNat) (by simp)
      (by simpa using d.rawDataOffset8.toNat_lt)
  have h₄ : field (d.toBytes ++ rest) 4 2 = d.rawLength8.toNat := by
    simpa [toBytes] using field_append
      (toLE 2 d.rawType.toNat ++ toLE 2 d.rawDataOffset8.toNat) (by simp)
      (by simpa using d.rawLength8.toNat_lt)
  have h₆ : field (d.toBytes ++ rest) 6 2 = d.rawFlags.toNat := by
    simpa [toBytes] using field_append
      (toLE 2 d.rawType.toNat ++ toLE 2 d.rawDataOffset8.toNat ++ toLE 2 d.rawLength8.toNat)
      (by simp) (by simpa using d.rawFlags.toNat_lt)
  have h₈ : field (d.toBytes ++ rest) 8 8 = d.transactionId.toNat := by
    simpa [toBytes] using field_append
      (toLE 2 d.rawType.toNat ++ toLE 2 d.rawDataOffset8.toNat ++
        toLE 2 d.rawLength8.toNat ++ toLE 2 d.rawFlags.toNat)
      (by simp) (by simpa using d.transactionId.toNat_lt)
  rw [ofBytes, h₀, h₂, h₄, h₆, h₈]
  simp

end PacketDescriptor

/-! ## The pipe header -/

structure PipeHeader where
  rawPacketType : UInt32
  rawDataSize : UInt32
  deriving DecidableEq, Repr

namespace PipeHeader

/-- `new PipeHeader()`. -/
def zero : PipeHeader := ⟨0, 0⟩

def type (h : PipeHeader) : PipeMessageType := .ofRaw h.rawPacketType
def setType (h : PipeHeader) (value : PipeMessageType) : PipeHeader :=
  { h with rawPacketType := value.raw }

/-- The getter of `DataSize`, which partial messages do not have. -/
def dataSize (h : PipeHeader) : Except Exn UInt32 :=
  if h.type = .partialData then .error .argument else .ok h.rawDataSize
def setDataSize (h : PipeHeader) (value : UInt32) : Except Exn PipeHeader :=
  if h.type = .partialData then .error .argument else .ok { h with rawDataSize := value }

def toBytes (h : PipeHeader) : List UInt8 :=
  toLE 4 h.rawPacketType.toNat ++ toLE 4 h.rawDataSize.toNat

def ofBytes (bytes : List UInt8) : PipeHeader where
  rawPacketType := .ofNat (field bytes 0 4)
  rawDataSize := .ofNat (field bytes 4 4)

@[simp] theorem length_toBytes (h : PipeHeader) : h.toBytes.length = 8 := by simp [toBytes]

theorem ofBytes_toBytes_append (h : PipeHeader) (rest : List UInt8) :
    ofBytes (h.toBytes ++ rest) = h := by
  have h₀ : field (h.toBytes ++ rest) 0 4 = h.rawPacketType.toNat := by
    simpa [toBytes] using field_append [] rfl (by simpa using h.rawPacketType.toNat_lt)
  have h₄ : field (h.toBytes ++ rest) 4 4 = h.rawDataSize.toNat := by
    simpa [toBytes] using field_append (toLE 4 h.rawPacketType.toNat) (by simp)
      (by simpa using h.rawDataSize.toNat_lt)
  rw [ofBytes, h₀, h₄]
  simp

/-- Only the first eight bytes are read. -/
theorem ofBytes_take (bytes : List UInt8) : ofBytes (bytes.take 8) = ofBytes bytes := by
  simp only [ofBytes, field, List.drop_take, List.take_take]
  rfl

end PipeHeader

/-! ## Well-formed data packets -/

/-- `UioHv.PacketDescriptorSize`, `UioHv.PipeHeaderSize` and their sum. -/
def packetDescriptorSize : ℕ := 16
def pipeHeaderSize : ℕ := 8
def pipePacketHeaderSize : ℕ := packetDescriptorSize + pipeHeaderSize

/-- The ring bytes a packet with `n` bytes of content takes: the aligned length and
the eight-byte trailer. -/
def packetSize (n : ℕ) : ℕ := alignUp8 (24 + n) + 8

theorem packetSize_ge (n : ℕ) : 32 + n ≤ packetSize n := by
  have := le_alignUp8 (24 + n)
  simp only [packetSize]
  omega

theorem packetSize_mono {n k : ℕ} (h : n ≤ k) : packetSize n ≤ packetSize k := by
  simp only [packetSize, alignUp8]
  omega

/-- An in-band data packet with one pipe message. The flags, the transaction and the
bytes behind the content (padding and trailer) are the sender's choice. -/
structure PipePacket where
  content : List UInt8
  flags : UInt16
  transactionId : UInt64
  tail : List UInt8
  fits : 24 + content.length ≤ 524280
  length_tail : 24 + content.length + tail.length = packetSize content.length

namespace PipePacket

def size (p : PipePacket) : ℕ := packetSize p.content.length

def descriptor (p : PipePacket) : PacketDescriptor where
  rawType := PacketType.dataInBand.raw
  rawDataOffset8 := 2
  rawLength8 := .ofNat (alignUp8 (24 + p.content.length) / 8)
  rawFlags := p.flags
  transactionId := p.transactionId

def header (p : PipePacket) : PipeHeader where
  rawPacketType := PipeMessageType.data.raw
  rawDataSize := .ofNat p.content.length

/-- The packet as it stands in a ring. -/
def image (p : PipePacket) : List UInt8 :=
  p.descriptor.toBytes ++ p.header.toBytes ++ p.content ++ p.tail

@[simp] theorem length_image (p : PipePacket) : p.image.length = p.size := by
  simp only [image, List.length_append, PacketDescriptor.length_toBytes,
    PipeHeader.length_toBytes]
  exact p.length_tail

theorem size_ge (p : PipePacket) : 32 + p.content.length ≤ p.size := packetSize_ge _

theorem size_le (p : PipePacket) : p.size ≤ 524288 := by
  have := p.fits
  simp only [size, packetSize, alignUp8]
  omega

theorem type_descriptor (p : PipePacket) : p.descriptor.type = .dataInBand := rfl
theorem dataOffset_descriptor (p : PipePacket) : p.descriptor.dataOffset = 16 := rfl
theorem type_header (p : PipePacket) : p.header.type = .data := rfl

theorem length_descriptor (p : PipePacket) : p.descriptor.length + 8 = p.size := by
  have hfits := p.fits
  have hlt := alignUp8_lt (24 + p.content.length)
  have hdvd := Nat.div_mul_cancel (dvd_alignUp8 (24 + p.content.length))
  have hraw : p.descriptor.rawLength8.toNat = alignUp8 (24 + p.content.length) / 8 :=
    toNat_ofNat16 (by simp only [alignUp8]; omega)
  rw [PacketDescriptor.length_eq, hraw, hdvd]
  rfl

/-- The size as the code adds it up in `int`. -/
theorem add32_descriptor (p : PipePacket) : add32 p.descriptor.length 8 = (p.size : ℕ) := by
  have hd := p.length_descriptor
  have hmax := p.descriptor.length_le
  rw [add32_eq (by omega) (by omega)]
  omega

theorem dataSize_header (p : PipePacket) : p.header.rawDataSize.toNat = p.content.length :=
  toNat_ofNat32 (by have := p.fits; omega)

theorem ofBytes_image (p : PipePacket) (rest : List UInt8) :
    PacketDescriptor.ofBytes (p.image ++ rest) = p.descriptor := by
  simp only [image, List.append_assoc]
  exact PacketDescriptor.ofBytes_toBytes_append _ _

/-- Past the descriptor the pipe header and the content follow. -/
theorem drop_image (p : PipePacket) (rest : List UInt8) :
    (p.image ++ rest).drop 16 = p.header.toBytes ++ (p.content ++ (p.tail ++ rest)) := by
  simp only [image, List.append_assoc]
  exact List.drop_left' (PacketDescriptor.length_toBytes _)

theorem ofBytes_drop_image (p : PipePacket) (rest : List UInt8) :
    PipeHeader.ofBytes ((p.image ++ rest).drop 16) = p.header := by
  rw [drop_image]
  exact PipeHeader.ofBytes_toBytes_append _ _

theorem content_image (p : PipePacket) (rest : List UInt8) :
    (((p.image ++ rest).drop 16).drop 8).take p.content.length = p.content := by
  rw [drop_image, List.drop_left' (PipeHeader.length_toBytes _), List.take_left' rfl]

end PipePacket

/-! ## Reading packets off a run of bytes -/

/-- The content and the size of the packet at the front of a run of bytes. -/
def frontPacket (bytes : List UInt8) : List UInt8 × ℕ :=
  let descriptor := PacketDescriptor.ofBytes bytes
  let payload := bytes.drop descriptor.dataOffset
  let header := PipeHeader.ofBytes payload
  ((payload.drop pipeHeaderSize).take header.rawDataSize.toNat, descriptor.length + 8)

/-- The contents of the whole packets in a run of bytes, front to back. A packet
takes at least eight bytes, so the number of bytes bounds the recursion. -/
def readContentsGo : ℕ → List UInt8 → List (List UInt8)
  | 0, _ => []
  | fuel + 1, bytes =>
      if bytes.length < (frontPacket bytes).2 then []
      else (frontPacket bytes).1 :: readContentsGo fuel (bytes.drop (frontPacket bytes).2)

def readContents (bytes : List UInt8) : List (List UInt8) := readContentsGo bytes.length bytes

theorem frontPacket_image (p : PipePacket) (rest : List UInt8) :
    frontPacket (p.image ++ rest) = (p.content, p.size) := by
  simp only [frontPacket, PipePacket.ofBytes_image, PipePacket.dataOffset_descriptor,
    PipePacket.ofBytes_drop_image, PipePacket.dataSize_header, pipeHeaderSize,
    PipePacket.content_image, PipePacket.length_descriptor]

theorem readContentsGo_images (ps : List PipePacket) (fuel : ℕ)
    (h : (ps.map PipePacket.image).flatten.length ≤ fuel) :
    readContentsGo fuel (ps.map PipePacket.image).flatten = ps.map PipePacket.content := by
  induction ps generalizing fuel with
  | nil => cases fuel <;> simp [readContentsGo, frontPacket]
  | cons p ps ih =>
      simp only [List.map_cons, List.flatten_cons, List.length_append,
        PipePacket.length_image] at h ⊢
      have hsize := p.size_ge
      obtain ⟨fuel, rfl⟩ : ∃ k, fuel = k + 1 := ⟨fuel - 1, by omega⟩
      rw [readContentsGo, frontPacket_image, if_neg (by simp), List.drop_left' (by simp),
        ih fuel (by omega)]

/-- A run of well-formed packets reads back as their contents. -/
theorem readContents_images (ps : List PipePacket) :
    readContents (ps.map PipePacket.image).flatten = ps.map PipePacket.content :=
  readContentsGo_images ps _ le_rfl

end HvGin
