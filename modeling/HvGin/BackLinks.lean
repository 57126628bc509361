import HvGin.PushFrame
import HvGin.Host
import HvGin.Lib.Exec

/-!
# Back-links of the outgoing ring

A packet of the format ends with eight bytes that lead back to its start: four reserved
ones, then the ring offset. `PushPipePacket` copies `In` to the first four and leaves the
last four zero. `PushRun.Stored.backLink_eq` is what a packet in the ring says instead of its
start, for as long as no later push writes over it.

`backLinked_iff_findsZero` says what remains of the back-links: they are right as long as, and
only as long as, every push finds an `In` of zero.

## Main definitions

* `PreviousPacketOffset`, `backLink` — the trailer of the format, and the one in front of
  a ring offset.
* `walkBack` — the starts met on the way back from a ring offset.
* `PushRun` — pushes, and moves of `Out` by the host.
* `BackLinked` — the property.
-/
namespace HvGin

open Lib

/-! ## The format -/

/-- `PREVIOUS_PACKET_OFFSET`. -/
structure PreviousPacketOffset where
  reserved : UInt32
  offset : UInt32

def PreviousPacketOffset.ofBytes (bytes : List UInt8) : PreviousPacketOffset where
  reserved := .ofNat (field bytes 0 4)
  offset := .ofNat (field bytes 4 4)

/-- The trailer in the eight bytes in front of a ring offset. -/
def backLink (dev : UioHvDevice) (m : Mapping) (index : ℕ) : PreviousPacketOffset :=
  .ofBytes (window (outgoingData dev m) dev.dataMaximumSize (index + dev.dataMaximumSize - 8) 8)

/-- The offsets met on the way back from a ring offset, `n` packets far. -/
def walkBack (dev : UioHvDevice) (m : Mapping) : ℕ → ℕ → List UInt32
  | 0, _ => []
  | n + 1, index =>
      (backLink dev m index).offset :: walkBack dev m n (backLink dev m index).offset.toNat

/-! ## Runs -/

/-- A packet a push has written: the `In` it found, and its content. -/
structure PushedPacket where
  start : UInt32
  content : Bytes

def PushedPacket.size (p : PushedPacket) : ℕ := packetSize p.content.data.length

/-- One of the later packets took a byte of `p`. -/
def Overwritten (dev : UioHvDevice) (p : PushedPacket) (later : List PushedPacket) : Prop :=
  ∃ q ∈ later, ∃ i < p.size, ∃ j < q.size,
    (p.start.toNat + i) % dev.dataMaximumSize = (q.start.toNat + j) % dev.dataMaximumSize

/-- The packets come one behind the other, newest first, up to a ring offset. -/
def Contiguous (dev : UioHvDevice) : ℕ → List PushedPacket → Prop
  | _, [] => True
  | index, p :: ps =>
      index % dev.dataMaximumSize = (p.start.toNat + p.size) % dev.dataMaximumSize ∧
        Contiguous dev p.start.toNat ps

/-- The mapping, the packets pushed so far, newest first, and how many of them were pushed
since the host last moved `Out`. -/
structure PushRun where
  mapping : Mapping
  pushed : List PushedPacket
  fresh : ℕ

namespace PushRun

inductive Label
  /-- The guest pushes a content, and the push returns. -/
  | push (content : Bytes)
  /-- The host consumes: it stores an `Out` of its choice. -/
  | take (Out : UInt32)

variable (dev : UioHvDevice)

def start (m : Mapping) : PushRun := ⟨m, [], 0⟩

def step (s : PushRun) : Label → Option PushRun
  | .push content => ((pushPipePacket dev content).result? s.mapping).map fun r =>
      ⟨r.2, ⟨(outgoing dev s.mapping).In, content⟩ :: s.pushed, s.fresh + 1⟩
  | .take Out =>
      if Out.toNat ≤ dev.dataMaximumSize then
        some { s with mapping := takeStore dev s.mapping Out, fresh := 0 }
      else none

/-- Each packet that no later push wrote over leads back to its start, and the way back
from `In` meets the packets pushed since the last consumption, newest first. -/
structure BackLinked (s : PushRun) : Prop where
  offset_eq : ∀ later p earlier, s.pushed = later ++ p :: earlier → ¬ Overwritten dev p later →
    (backLink dev s.mapping (p.start.toNat + p.size)).offset = p.start
  walk_eq : walkBack dev s.mapping s.fresh (outgoing dev s.mapping).In.toNat =
    (s.pushed.take s.fresh).map PushedPacket.start

/-- A push finds an `In` of zero. -/
def FindsZero (s : PushRun) : Label → Prop
  | .push _ => (outgoing dev s.mapping).In = 0
  | .take _ => True

/-- The indices are in range, and each packet that no later push wrote over still stands
where it was written, one behind the other. -/
structure Stored (s : PushRun) : Prop where
  in_le : (outgoing dev s.mapping).In.toNat ≤ dev.dataMaximumSize
  out_le : (outgoing dev s.mapping).Out.toNat ≤ dev.dataMaximumSize
  image_eq : ∀ later p earlier, s.pushed = later ++ p :: earlier → ¬ Overwritten dev p later →
    window (outgoingData dev s.mapping) dev.dataMaximumSize p.start.toNat p.size =
      pushImage p.content.data p.start
  contiguous : Contiguous dev (outgoing dev s.mapping).In.toNat s.pushed
  fresh_le : s.fresh ≤ s.pushed.length

variable {dev} {s t : PushRun} {m : Mapping} {p : PushedPacket} {later earlier : List PushedPacket}

/-! ## The trailer -/

theorem drop_pushImage (content : List UInt8) (In : UInt32) :
    (pushImage content In).drop (packetSize content.length - 8) =
      toLE 4 In.toNat ++ List.replicate 4 0 := by
  have hpad := le_alignUp8 (24 + content.length)
  refine List.drop_left' ?_
  simp only [List.length_append, PacketDescriptor.length_toBytes, PipeHeader.length_toBytes,
    List.length_replicate, packetSize]
  omega

/-- A packet leads back to offset zero; its start is in the reserved word. -/
theorem backLink_of_window (h : window (outgoingData dev m) dev.dataMaximumSize p.start.toNat
    p.size = pushImage p.content.data p.start) :
    backLink dev m (p.start.toNat + p.size) = ⟨p.start, 0⟩ := by
  have hsize : 8 ≤ p.size := (packetSize_ge _).trans' (by omega)
  have htrailer : window (outgoingData dev m) dev.dataMaximumSize
      (p.start.toNat + p.size + dev.dataMaximumSize - 8) 8 =
      toLE 4 p.start.toNat ++ List.replicate 4 0 := by
    have hdrop := congrArg (List.drop (p.size - 8)) h
    rw [drop_window _ _ _ _ _ (by omega), show p.size - (p.size - 8) = 8 by omega] at hdrop
    rw [window_start_congr (q := p.start.toNat + (p.size - 8)), hdrop]
    · exact drop_pushImage _ _
    · rw [show p.start.toNat + p.size + dev.dataMaximumSize - 8 =
        p.start.toNat + (p.size - 8) + dev.dataMaximumSize by omega, Nat.add_mod_right]
  have hreserved : field (toLE 4 p.start.toNat ++ List.replicate 4 0) 0 4 = p.start.toNat := by
    rw [← List.nil_append (toLE 4 p.start.toNat ++ List.replicate 4 0)]
    exact field_append [] rfl (by simpa using p.start.toNat_lt)
  have hoffset : field (toLE 4 p.start.toNat ++ List.replicate 4 0) 4 4 = 0 := by
    rw [field, List.drop_left' (length_toLE 4 _)]
    rfl
  rw [backLink, htrailer, PreviousPacketOffset.ofBytes, hreserved, hoffset]
  simp

/-- What each packet in the ring says, along every run. -/
theorem Stored.backLink_eq (H : Stored dev s) (hs : s.pushed = later ++ p :: earlier)
    (hp : ¬ Overwritten dev p later) :
    backLink dev s.mapping (p.start.toNat + p.size) = ⟨p.start, 0⟩ :=
  backLink_of_window (H.image_eq later p earlier hs hp)

/-! ## The way back -/

theorem backLink_congr {i j : ℕ} (h : i % dev.dataMaximumSize = j % dev.dataMaximumSize) :
    backLink dev m i = backLink dev m j := by
  have hD : 8 ≤ dev.dataMaximumSize := Nat.le_of_dvd dev.data_pos dev.data_aligned
  rw [backLink, backLink]
  congr 1
  refine window_start_congr ?_
  rw [Nat.add_sub_assoc hD, Nat.add_sub_assoc hD, Nat.add_mod, h, ← Nat.add_mod]

/-- Where the packets lead back to their starts, the way back meets them in turn. -/
theorem walkBack_eq {ps : List PushedPacket} {index : ℕ} (hc : Contiguous dev index ps)
    (hlinks : ∀ p ∈ ps, (backLink dev m (p.start.toNat + p.size)).offset = p.start) :
    walkBack dev m ps.length index = ps.map PushedPacket.start := by
  induction ps generalizing index with
  | nil => rfl
  | cons p ps ih =>
      have hhead : (backLink dev m index).offset = p.start := by
        rw [backLink_congr hc.1]
        exact hlinks p List.mem_cons_self
      have htail := ih hc.2 fun q hq => hlinks q (List.mem_cons_of_mem _ hq)
      rw [List.length_cons, walkBack, hhead, htail, List.map_cons]

theorem contiguous_take {ps : List PushedPacket} {index : ℕ} (h : Contiguous dev index ps) (n : ℕ) :
    Contiguous dev index (ps.take n) := by
  induction ps generalizing index n with
  | nil => rwa [List.take_nil]
  | cons p ps ih =>
      cases n with
      | zero => trivial
      | succ n => exact ⟨h.1, ih h.2 n⟩

/-! ## What a step keeps -/

theorem Stored.start (hIn : (outgoing dev m).In.toNat ≤ dev.dataMaximumSize)
    (hOut : (outgoing dev m).Out.toNat ≤ dev.dataMaximumSize) : Stored dev (start m) where
  in_le := hIn
  out_le := hOut
  image_eq := fun later p earlier h => by simp [PushRun.start] at h
  contiguous := trivial
  fresh_le := le_rfl

/-- A push puts its packet in front and has its effect. -/
theorem push_of_step {content : Bytes} (hs : Stored dev s)
    (h : step dev s (.push content) = some t) :
    t.pushed = ⟨(outgoing dev s.mapping).In, content⟩ :: s.pushed ∧ t.fresh = s.fresh + 1 ∧
      packetSize content.data.length ≤ dev.dataMaximumSize ∧
      ∃ fits, PushEffect dev s.mapping t.mapping
        (pushPacket content.data (outgoing dev s.mapping).In fits) := by
  rw [step, Option.map_eq_some_iff] at h
  obtain ⟨⟨_, m⟩, hrun, rfl⟩ := h
  obtain ⟨fits, hroom, heffect⟩ :=
    pushEffect_of_run hs.in_le hs.out_le (Act.result?_eq_some.mp hrun)
  exact ⟨rfl, rfl, hroom.trans (writableSize_le hs.out_le), fits, heffect⟩

theorem step_push {content : Bytes} (h : (pushPipePacket dev content).run s.mapping = (.ok ⟨⟩, m)) :
    step dev s (.push content) =
      some ⟨m, ⟨(outgoing dev s.mapping).In, content⟩ :: s.pushed, s.fresh + 1⟩ := by
  rw [step, Act.result?_eq_some.mpr h, Option.map_some]

theorem take_of_step {Out : UInt32} (h : step dev s (.take Out) = some t) :
    Out.toNat ≤ dev.dataMaximumSize ∧
      t = { s with mapping := takeStore dev s.mapping Out, fresh := 0 } := by
  rw [step] at h
  split at h
  · next hle => exact ⟨hle, (Option.some.inj h).symm⟩
  · cases h

theorem Stored.push {content : Bytes} (H : Stored dev s)
    (h : step dev s (.push content) = some t) : Stored dev t := by
  obtain ⟨hpushed, hfresh, hsize, fits, heffect⟩ := push_of_step H h
  have hlen := (pushPacket content.data (outgoing dev s.mapping).In fits).length_image
  rw [size_pushPacket] at hlen
  refine ⟨?_, ?_, ?_, ?_, ?_⟩
  · rw [heffect.in_eq]
    exact advance_le H.in_le (by rwa [size_pushPacket])
  · rw [heffect.out_eq]
    exact H.out_le
  · intro later p earlier hs hp
    rw [hpushed] at hs
    cases later with
    | nil =>
        obtain ⟨rfl, rfl⟩ := List.cons_eq_cons.mp hs
        have himage := heffect.placed.window_self
        rwa [hlen, image_pushPacket] at himage
    | cons q later =>
        obtain ⟨rfl, hold⟩ := List.cons_eq_cons.mp hs
        rw [← H.image_eq later p earlier hold fun ⟨q, hq, hover⟩ =>
          hp ⟨q, List.mem_cons_of_mem _ hq, hover⟩]
        refine window_congr fun i hi => heffect.placed.outside _ (Nat.mod_lt _ dev.data_pos)
          fun j hj heq => hp ⟨_, List.mem_cons_self, i, hi, j, by rwa [hlen] at hj, heq.symm⟩
  · rw [hpushed]
    refine ⟨?_, H.contiguous⟩
    rw [heffect.in_eq, advance_mod, size_pushPacket]
    rfl
  · rw [hpushed, hfresh, List.length_cons]
    exact Nat.succ_le_succ H.fresh_le

theorem Stored.take {Out : UInt32} (H : Stored dev s) (h : step dev s (.take Out) = some t) :
    Stored dev t := by
  obtain ⟨hle, rfl⟩ := take_of_step h
  refine ⟨?_, ?_, ?_, ?_, Nat.zero_le _⟩
  · rw [outgoing_takeStore]
    exact H.in_le
  · rwa [outgoing_takeStore]
  · rw [outgoingData_takeStore]
    exact H.image_eq
  · rw [outgoing_takeStore]
    exact H.contiguous

/-! ## When the links lead back -/

/-- At most one packet was pushed, and it was pushed at offset zero. -/
def AtMostFirst (dev : UioHvDevice) (s : PushRun) : Prop :=
  s.pushed = [] ∨ ∃ p, s.pushed = [p] ∧ p.start = 0 ∧ (outgoing dev s.mapping).In ≠ 0

theorem not_overwritten_nil : ¬ Overwritten dev p [] := fun ⟨_, hq, _⟩ => nomatch hq

theorem Stored.backLinked (H : Stored dev s) (hfirst : AtMostFirst dev s) : BackLinked dev s := by
  have hlinks : ∀ later p earlier, s.pushed = later ++ p :: earlier → ¬ Overwritten dev p later →
      (backLink dev s.mapping (p.start.toNat + p.size)).offset = p.start := by
    intro later p earlier hs hp
    rw [H.backLink_eq hs hp]
    rcases hfirst with hnone | ⟨q, hq, hstart, _⟩
    · simp [hnone] at hs
    · have hmem : p ∈ s.pushed := by simp [hs]
      rw [hq, List.mem_singleton] at hmem
      rw [hmem, hstart]
  refine ⟨hlinks, ?_⟩
  have hwalk := walkBack_eq (m := s.mapping) (contiguous_take H.contiguous s.fresh) fun p hp => ?_
  · rwa [List.length_take, min_eq_left H.fresh_le] at hwalk
  · rcases hfirst with hnone | ⟨q, hq, _⟩
    · simp [hnone] at hp
    · have hmem := List.mem_of_mem_take hp
      rw [hq, List.mem_singleton] at hmem
      rw [hmem]
      exact hlinks [] q [] hq not_overwritten_nil

/-- The packet of a push that finds another `In` does not lead back. -/
theorem Stored.not_backLinked {l : Label} (H : Stored dev s) (hzero : ¬ FindsZero dev s l)
    (h : step dev s l = some t) : ¬ BackLinked dev t := by
  cases l with
  | take Out => exact absurd trivial hzero
  | push content =>
      obtain ⟨hpushed, _⟩ := push_of_step H h
      intro hlinked
      have hoffset := hlinked.offset_eq [] _ _ hpushed not_overwritten_nil
      rw [(H.push h).backLink_eq hpushed not_overwritten_nil] at hoffset
      exact hzero hoffset.symm

theorem AtMostFirst.step {l : Label} (hfirst : AtMostFirst dev s) (H : Stored dev s)
    (hzero : FindsZero dev s l) (h : step dev s l = some t) : AtMostFirst dev t := by
  cases l with
  | take Out =>
      obtain ⟨_, rfl⟩ := take_of_step h
      simp only [AtMostFirst]
      rwa [outgoing_takeStore]
  | push content =>
      obtain ⟨hpushed, _, hsize, fits, heffect⟩ := push_of_step H h
      change (outgoing dev s.mapping).In = 0 at hzero
      rcases hfirst with hnone | ⟨_, _, _, hIn⟩
      · refine .inr ⟨_, by rw [hpushed, hnone], hzero, ?_⟩
        intro hIn
        have hge := packetSize_ge content.data.length
        have hnext := heffect.in_eq
        rw [hzero, hIn, size_pushPacket, advance, UInt32.toNat_zero, if_neg (by omega)] at hnext
        omega
      · exact absurd hzero hIn

/-- **Back-links.** From indices in range the packets of a run of pushes lead back to their
starts, in every state, if and only if every push of the run finds an `In` of zero. -/
theorem backLinked_iff_findsZero (dev : UioHvDevice) (m : Mapping)
    (hIn : (outgoing dev m).In.toNat ≤ dev.dataMaximumSize)
    (hOut : (outgoing dev m).Out.toNat ≤ dev.dataMaximumSize) (ls : List Label) :
    Always (step dev) (BackLinked dev) (PushRun.start m) ls ↔
      Meets (step dev) (FindsZero dev) (PushRun.start m) ls := by
  refine always_iff_of_invariant
    (fun s (hs : Stored dev s ∧ AtMostFirst dev s) => hs.1.backLinked hs.2)
    (fun s l t hs hzero h => ⟨?_, hs.2.step hs.1 hzero h⟩)
    (fun s l t hs hzero h => hs.1.not_backLinked hzero h) ⟨.start hIn hOut, .inl rfl⟩
  cases l with
  | push content => exact hs.1.push h
  | take Out => exact hs.1.take h

/-- Two pushes into empty rings: the second packet does not lead back to its start. -/
theorem not_backLinked_two_pushes :
    ¬ Always (step .defaultRings) (BackLinked .defaultRings) (PushRun.start fun _ => 0)
      [.push ⟨[1, 2, 3], by simp⟩, .push ⟨[4], by simp⟩] := by
  intro H
  obtain ⟨m₁, hfirst, heffect⟩ := @run_pushPipePacket .defaultRings (fun _ => 0)
    ⟨[1, 2, 3], by simp⟩ (Nat.zero_le _) (Nat.zero_le _) (by simp) (by decide)
  have hIn : (outgoing .defaultRings m₁).In.toNat = 40 := heffect.in_eq
  have hOut : (outgoing .defaultRings m₁).Out = 0 := heffect.out_eq
  have hspace : writableSize .defaultRings (outgoing .defaultRings m₁) = 2093016 := by
    rw [writableSize, hIn, hOut]
    rfl
  obtain ⟨m₂, hsecond, _⟩ := run_pushPipePacket (c := ⟨[4], by simp⟩) (hIn.le.trans (by decide))
    (by rw [hOut]; decide) (by simp) (by rw [hspace]; decide)
  obtain ⟨s₁, hone, rfl⟩ : ∃ s₁, step .defaultRings (PushRun.start fun _ => 0)
      (.push ⟨[1, 2, 3], by simp⟩) = some s₁ ∧ s₁.mapping = m₁ := ⟨_, step_push hfirst, rfl⟩
  have hstored : Stored .defaultRings s₁ :=
    (Stored.start (m := fun _ => 0) (Nat.zero_le _) (Nat.zero_le _)).push hone
  have hlinked := (H.2 s₁ hone).2 _ (step_push hsecond)
  refine hstored.not_backLinked (fun hzero => ?_) (step_push hsecond) hlinked.here
  change (outgoing .defaultRings s₁.mapping).In = 0 at hzero
  rw [hzero] at hIn
  cases hIn

/-- One push into empty rings does. -/
theorem backLinked_one_push :
    Always (step .defaultRings) (BackLinked .defaultRings) (PushRun.start fun _ => 0)
      [.push ⟨[1, 2, 3], by simp⟩, .take 40] := by
  rw [backLinked_iff_findsZero .defaultRings (fun _ => 0) (Nat.zero_le _) (Nat.zero_le _)]
  intro t ht
  exact ⟨rfl, fun u hu => ⟨trivial, trivial⟩⟩

end PushRun

end HvGin
