import HvGin.Host
import HvGin.Lib.Exec

/-!
# Delivery through the outgoing ring

The guest pushes, the host takes. `Delivered` says that what the host has taken,
followed by what it still reads between the indices, is what was pushed.

A push may fill the ring to the last byte: the room check lets a packet of exactly
the writable size through. The indices are then a whole data area apart and the
ring reads as empty. `delivered_iff_leavesRoom` shows that this is the only way to lose a
packet: a run delivers as long as, and only as long as, every push leaves a byte
free.
-/
namespace HvGin

open Lib

/-- The mapping, and the contents pushed and taken so far. -/
structure OutgoingRun where
  mapping : Mapping
  pushed : List (List UInt8)
  taken : List (List UInt8)

namespace OutgoingRun

inductive Label
  /-- The guest pushes a content, and the push returns. -/
  | push (content : Bytes)
  /-- The host takes a packet. -/
  | take

variable (dev : UioHvDevice)

def start (m : Mapping) : OutgoingRun := ⟨m, [], []⟩

def step (s : OutgoingRun) : Label → Option OutgoingRun
  | .push content => ((pushPipePacket dev content).result? s.mapping).map fun r =>
      { s with mapping := r.2, pushed := s.pushed ++ [content.data] }
  | .take => (hostTake dev s.mapping).map fun r =>
      { s with mapping := r.2, taken := s.taken ++ [r.1] }

/-- What was pushed is what was taken and what is still readable, in this order. A ring
that looks empty to the host is empty. -/
structure Delivered (s : OutgoingRun) : Prop where
  contents : s.taken ++ readableContents dev s.mapping = s.pushed
  empty : (outgoing dev s.mapping).In = (outgoing dev s.mapping).Out → s.taken = s.pushed

/-- A push leaves at least a byte of the writable size free. -/
def LeavesRoom (s : OutgoingRun) : Label → Prop
  | .push content => packetSize content.data.length < writableSize dev (outgoing dev s.mapping)
  | .take => True

/-- The ring holds exactly the packets that were pushed and not yet taken. -/
def Inv (s : OutgoingRun) : Prop :=
  ∃ ps, OutgoingRing dev s.mapping ps ∧ s.taken ++ ps.map PipePacket.content = s.pushed

variable {dev} {s t : OutgoingRun} {content : Bytes}

theorem Inv.delivered (H : Inv dev s) : Delivered dev s := by
  obtain ⟨ps, hring, hcontents⟩ := H
  refine ⟨by rw [hring.readableContents_eq, hcontents], ?_⟩
  intro hempty
  cases ps with
  | nil => simpa using hcontents
  | cons p ps =>
      have htake := hring.take
      rw [hostTake, if_pos hempty] at htake
      cases htake

/-- A push step is a push that returns. -/
theorem push_of_step (h : step dev s (.push content) = some t) :
    ∃ m, (pushPipePacket dev content).run s.mapping = (.ok ⟨⟩, m) ∧
      t = { s with mapping := m, pushed := s.pushed ++ [content.data] } := by
  obtain ⟨⟨⟨⟩, m⟩, hrun, rfl⟩ := Option.map_eq_some_iff.mp h
  exact ⟨m, Act.result?_eq_some.mp hrun, rfl⟩

/-- A step that leaves room keeps the invariant. -/
theorem Inv.step {l : Label} (H : Inv dev s) (hroom : LeavesRoom dev s l)
    (h : step dev s l = some t) : Inv dev t := by
  obtain ⟨ps, hring, hcontents⟩ := H
  cases l with
  | push content =>
      obtain ⟨m, hrun, rfl⟩ := push_of_step h
      obtain ⟨fits, _, effect⟩ := pushEffect_of_run hring.in_le hring.out_lt.le hrun
      have hle := hring.writableSize_le
      have hlt : packetSize content.data.length < _ := hroom
      refine ⟨_, hring.push effect (by rw [size_pushPacket]; omega), ?_⟩
      simp [← hcontents]
  | take =>
      obtain ⟨⟨c, m⟩, htake, rfl⟩ := Option.map_eq_some_iff.mp h
      obtain ⟨p, ps', rfl, rfl, hring'⟩ := hring.of_hostTake htake
      exact ⟨ps', hring', by simpa using hcontents⟩

/-- A push that fills the ring to the last byte loses what is in it. -/
theorem Inv.not_delivered {l : Label} (H : Inv dev s) (hfull : ¬ LeavesRoom dev s l)
    (h : OutgoingRun.step dev s l = some t) : ¬ Delivered dev t := by
  obtain ⟨ps, hring, hcontents⟩ := H
  cases l with
  | take => exact absurd trivial hfull
  | push content =>
      obtain ⟨m, hrun, rfl⟩ := push_of_step h
      obtain ⟨fits, hle, effect⟩ := pushEffect_of_run hring.in_le hring.out_lt.le hrun
      have hge : ¬ packetSize content.data.length < _ := hfull
      have hsize := packetSize_ge content.data.length
      have hlt := hring.used_lt
      have hspace := hring.writableSize_eq
      -- The packet takes all that the packets in the ring leave.
      have hfill : usedSize ps + packetSize content.data.length = dev.dataMaximumSize := by
        split_ifs at hspace <;> omega
      have hreads : readableContents dev m = [] :=
        (hring.push_full effect hfill).readableContents_eq
      rintro ⟨hdelivered, _⟩
      simp only [hreads, List.append_nil] at hdelivered
      have hlength := congrArg List.length (hdelivered.trans (congrArg (· ++ _) hcontents.symm))
      simp at hlength

/-- **Outgoing delivery.** From empty indices, in every state of a run the host has
taken, and still reads, exactly what was pushed, in order, if and only if every push of
the run leaves a byte of the writable size free. -/
theorem delivered_iff_leavesRoom (dev : UioHvDevice) (m : Mapping) (hIn : (outgoing dev m).In = 0)
    (hOut : (outgoing dev m).Out = 0) (ls : List Label) :
    Always (step dev) (Delivered dev) (start m) ls ↔
      Meets (step dev) (LeavesRoom dev) (start m) ls :=
  always_iff_of_invariant (fun _ => Inv.delivered) (fun _ _ _ => Inv.step)
    (fun _ _ _ => Inv.not_delivered) ⟨[], .empty hIn hOut, rfl⟩

/-- Pushes that together take exactly what is left of the ring lose what is in it. -/
theorem not_delivered_of_fill (contents : List Bytes) (hne : contents ≠ [])
    (fits : ∀ c ∈ contents, 24 + c.data.length ≤ 524280) {ps : List PipePacket}
    (hring : OutgoingRing dev s.mapping ps)
    (hcontents : s.taken ++ ps.map PipePacket.content = s.pushed)
    (hspace : writableSize dev (outgoing dev s.mapping) = dev.dataMaximumSize - usedSize ps)
    (hfill : usedSize ps + (contents.map fun c => packetSize c.data.length).sum =
      dev.dataMaximumSize) :
    ¬ Always (step dev) (Delivered dev) s (contents.map Label.push) := by
  induction contents generalizing s ps with
  | nil => exact absurd rfl hne
  | cons c contents ih =>
      have hsize := packetSize_ge c.data.length
      have hfits := fits c List.mem_cons_self
      rw [List.map_cons, List.sum_cons] at hfill
      obtain ⟨m, hrun, effect⟩ := run_pushPipePacket hring.in_le hring.out_lt.le hfits (by omega)
      have hstep : step dev s (.push c) =
          some { s with mapping := m, pushed := s.pushed ++ [c.data] } := by
        rw [step, Act.result?_eq_some.mpr hrun, Option.map_some]
      rintro ⟨_, H⟩
      cases contents with
      | nil =>
          have hfull : ¬ LeavesRoom dev s (.push c) := by
            change ¬ packetSize c.data.length < _
            rw [List.map_nil, List.sum_nil] at hfill
            omega
          exact Inv.not_delivered ⟨ps, hring, hcontents⟩ hfull hstep (H _ hstep).here
      | cons d contents =>
          have hd := packetSize_ge d.data.length
          have hmore := hfill
          rw [List.map_cons, List.sum_cons] at hmore
          have hring' := hring.push effect (by rw [size_pushPacket]; omega)
          have hused : usedSize (ps ++ [pushPacket c.data (outgoing dev s.mapping).In hfits]) =
              usedSize ps + packetSize c.data.length := by simp
          have hspace' := hring'.writableSize_of_pos (by omega)
          refine ih (s := { s with mapping := m, pushed := s.pushed ++ [c.data] }) (by simp)
            (fun x hx => fits x (List.mem_cons_of_mem _ hx)) hring' ?_ hspace' (by omega) (H _ hstep)
          simp [← hcontents]

/-- Four packets that fill the rings of the driver, two megabytes less a page. -/
theorem not_delivered_of_length {big last : Bytes} (hbig : big.data.length = 524256)
    (hlast : last.data.length = 520160) :
    ¬ Always (step .defaultRings) (Delivered .defaultRings) (start fun _ => 0)
      [.push big, .push big, .push big, .push last] := by
  have hring : OutgoingRing .defaultRings (start fun _ => 0).mapping [] := .empty rfl rfl
  have hspace := hring.writableSize_eq
  rw [if_neg (by decide)] at hspace
  refine not_delivered_of_fill [big, big, big, last] (by simp) ?_ hring rfl hspace ?_
  · simp [hbig, hlast]
  · simp [hbig, hlast, packetSize, alignUp8, UioHvDevice.defaultRings]

/-- The run of four such pushes from empty rings. -/
theorem not_delivered_four_pushes :
    ¬ Always (step .defaultRings) (Delivered .defaultRings) (start fun _ => 0)
      [.push (.zeros 524256 (by decide)), .push (.zeros 524256 (by decide)),
        .push (.zeros 524256 (by decide)), .push (.zeros 520160 (by decide))] :=
  not_delivered_of_length (Bytes.length_zeros _ _) (Bytes.length_zeros _ _)

/-- Packets that leave room are delivered. -/
theorem delivered_push_take :
    Always (step .defaultRings) (Delivered .defaultRings) (start fun _ => 0)
      [.push (.zeros 100 (by decide)), .take] := by
  have hIn : (outgoing .defaultRings fun _ => 0).In = 0 := rfl
  have hOut : (outgoing .defaultRings fun _ => 0).Out = 0 := rfl
  rw [delivered_iff_leavesRoom .defaultRings (fun _ => 0) hIn hOut]
  intro t ht
  refine ⟨?_, fun u hu => ⟨trivial, trivial⟩⟩
  change packetSize (Bytes.zeros 100 _).data.length < _
  rw [Bytes.length_zeros]
  decide

end OutgoingRun

end HvGin
