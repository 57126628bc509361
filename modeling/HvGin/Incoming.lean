import HvGin.Host
import HvGin.Lib.Exec

/-!
# Delivery through the incoming ring

The host puts packets, the guest pops them. `PopsFront` says what a pop is to do: give
the first packet not yet popped and move `Out` past it, or give nothing and change
nothing when there is none. `Delivered` says that the contents popped are the first of
those written.

A packet that ends exactly at the end of the data area leaves `Out` there, and from
there the next pop that finds a packet reads at the capacity of the mapping and throws.
`delivered_iff_outInside` shows that nothing else goes wrong.
-/
namespace HvGin

open Lib

/-- The mapping, and the contents written and popped so far. -/
structure IncomingRun where
  mapping : Mapping
  written : List (List UInt8)
  popped : List (List UInt8)

namespace IncomingRun

inductive Label
  /-- The host writes a packet. -/
  | put (p : PipePacket)
  /-- The guest calls `PopPipePacket`, which returns or throws. -/
  | pop

variable (dev : UioHvDevice)

def start (m : Mapping) : IncomingRun := ⟨m, [], []⟩

def step (s : IncomingRun) : Label → Option IncomingRun
  | .put p => (hostPut dev s.mapping p).map fun m =>
      { s with mapping := m, written := s.written ++ [p.content] }
  | .pop => some { s with
      mapping := ((popPipePacket dev).run s.mapping).2
      popped := s.popped ++ (poppedContent dev s.mapping).toList }

/-- A pop gives the first content not yet popped and moves `Out` past its packet, or
gives nothing and changes nothing when every packet has been popped. -/
def PopsFront (s : IncomingRun) : Label → Prop
  | .put _ => True
  | .pop =>
      match s.written.drop s.popped.length with
      | [] => (popPipePacket dev).run s.mapping = (.ok [], s.mapping)
      | content :: _ => ∃ finalOffset,
          (popPipePacket dev).run s.mapping = (.ok content, popStore dev finalOffset s.mapping) ∧
          finalOffset.toNat % dev.dataMaximumSize =
            ((incoming dev s.mapping).Out.toNat + packetSize content.length) % dev.dataMaximumSize

/-- The contents popped are the first of those written, in order. -/
def Delivered (s : IncomingRun) : Prop := s.popped <+: s.written

/-- A pop is not called with `Out` at the very end of the data area and a packet behind. -/
def OutInside (s : IncomingRun) : Label → Prop
  | .put _ => True
  | .pop => (incoming dev s.mapping).Out.toNat = dev.dataMaximumSize →
      (incoming dev s.mapping).In.toNat = 0

/-- The ring holds exactly the packets that were written and not yet popped. -/
def Inv (s : IncomingRun) : Prop :=
  ∃ ps, IncomingRing dev s.mapping ps ∧ s.popped ++ ps.map PipePacket.content = s.written

variable {dev} {s t : IncomingRun} {l : Label}

theorem put_of_step {p : PipePacket} (h : step dev s (.put p) = some t) :
    ∃ m, hostPut dev s.mapping p = some m ∧
      t = { s with mapping := m, written := s.written ++ [p.content] } := by
  obtain ⟨m, hput, rfl⟩ := Option.map_eq_some_iff.mp h
  exact ⟨m, hput, rfl⟩

theorem Inv.delivered (H : Inv dev s) : Delivered s := by
  obtain ⟨ps, _, hcontents⟩ := H
  exact ⟨_, hcontents⟩

/-- With a packet in the ring the condition keeps `Out` inside the data area. -/
theorem OutInside.out_lt {p : PipePacket} {ps : List PipePacket} (h : OutInside dev s .pop)
    (hring : IncomingRing dev s.mapping (p :: ps)) :
    (incoming dev s.mapping).Out.toNat < dev.dataMaximumSize := by
  refine Nat.lt_of_le_of_ne hring.out_le ?_
  intro hend
  have hIn : (incoming dev s.mapping).In.toNat = 0 := h hend
  have hcases := hring.index_cases
  have hsize := p.size_ge
  rw [usedSize_cons] at hcases
  omega

/-- A step that meets the condition keeps the invariant. -/
theorem Inv.step (H : Inv dev s) (hinside : OutInside dev s l) (h : step dev s l = some t) :
    Inv dev t := by
  obtain ⟨ps, hring, hcontents⟩ := H
  cases l with
  | put p =>
      obtain ⟨m, hput, rfl⟩ := put_of_step h
      exact ⟨_, hring.put hput, by simp [← hcontents]⟩
  | pop =>
      cases h
      cases ps with
      | nil =>
          rw [run_popPipePacket_none hring.pop_nil, poppedContent_of_none hring.pop_nil]
          exact ⟨[], hring, by simpa using hcontents⟩
      | cons p ps =>
          have hconsumes := hring.pop (hinside.out_lt hring)
          rw [run_popPipePacket_consumes hconsumes, hconsumes.poppedContent_eq]
          exact ⟨ps, hring.popStore, by simpa using hcontents⟩

/-- From the invariant a pop does what it is to do exactly when it meets the condition. -/
theorem Inv.popsFront_iff (H : Inv dev s) : PopsFront dev s l ↔ OutInside dev s l := by
  obtain ⟨ps, hring, hcontents⟩ := H
  cases l with
  | put p => exact Iff.rfl
  | pop =>
      have hnext : s.written.drop s.popped.length = ps.map PipePacket.content := by
        rw [← hcontents, List.drop_left' rfl]
      cases ps with
      | nil =>
          refine iff_of_true ?_ ?_
          · rw [PopsFront, hnext]
            exact run_popPipePacket_none hring.pop_nil
          · intro hend
            have hIn := hring.in_lt
            have hcases := hring.index_cases
            rw [usedSize_nil] at hcases
            omega
      | cons p ps =>
          rw [PopsFront, hnext]
          constructor
          · rintro ⟨finalOffset, hrun, _⟩ hend
            rw [run_popPipePacket_error (hring.pop_end hend)] at hrun
            cases hrun
          · intro hinside
            have hout := hinside.out_lt hring
            have hfit := dev.offsets_fit
            have hlt := hring.used_lt
            rw [usedSize_cons] at hlt
            have hadvance := advance_le hring.out_le (by omega : p.size ≤ dev.dataMaximumSize)
            refine ⟨_, run_popPipePacket_consumes (hring.pop hout), ?_⟩
            rw [toNat_ofNat32 (by omega), advance_mod]
            rfl

/-- **Incoming delivery.** From empty indices, in a run the contents popped are always
the first of those written and every pop returns with the packet at the front, if and
only if no pop of the run meets `Out` at the end of the data area with a packet queued. -/
theorem delivered_iff_outInside (dev : UioHvDevice) (m : Mapping) (hIn : (incoming dev m).In = 0)
    (hOut : (incoming dev m).Out = 0) (ls : List Label) :
    Always (step dev) Delivered (start m) ls ∧ Meets (step dev) (PopsFront dev) (start m) ls ↔
      Meets (step dev) (OutInside dev) (start m) ls := by
  have h₀ : Inv dev (start m) := ⟨[], .empty hIn hOut, rfl⟩
  have hiff : Meets (step dev) (PopsFront dev) (start m) ls ↔
      Meets (step dev) (OutInside dev) (start m) ls :=
    meets_iff (fun _ _ _ => Inv.step) (fun _ l _ H _ => H.popsFront_iff (l := l)) h₀
  constructor
  · rintro ⟨_, hpops⟩
    exact hiff.mp hpops
  · intro hinside
    exact ⟨(always_of_meets (fun _ _ _ => Inv.step) h₀ hinside).mono fun _ => Inv.delivered,
      hiff.mpr hinside⟩

/-- A packet that fits an empty ring is put and popped, and `Out` moves past it. -/
theorem step_put_pop {p : PipePacket} (hring : IncomingRing dev s.mapping [])
    (hcontents : s.popped = s.written)
    (hout : (incoming dev s.mapping).Out.toNat < dev.dataMaximumSize)
    (hp : p.size < dev.dataMaximumSize) :
    ∃ u t, step dev s (.put p) = some u ∧ step dev u .pop = some t ∧
      IncomingRing dev t.mapping [] ∧ t.popped = t.written ∧
      (incoming dev t.mapping).Out.toNat =
        advance dev.dataMaximumSize (incoming dev s.mapping).Out.toNat p.size := by
  have hfit := dev.offsets_fit
  have hadvance := advance_le hout.le hp.le
  obtain ⟨m, hput⟩ := hring.exists_put (p := p) (by rwa [usedSize_nil, Nat.zero_add])
  have hring' := hring.put hput
  have heq := (putEffect_of_hostPut hput).2.out_eq
  have hconsumes := hring'.pop (by rw [heq]; exact hout)
  refine ⟨_, _, by rw [step, hput, Option.map_some], rfl, ?_, ?_, ?_⟩
  · rw [run_popPipePacket_consumes hconsumes]
    exact hring'.popStore
  · rw [hconsumes.poppedContent_eq, Option.toList_some, hcontents]
  · rw [run_popPipePacket_consumes hconsumes, incoming_popStore, heq]
    exact toNat_ofNat32 (by omega)

/-- Packets put and popped up to the very end of the data area: the next one is not
popped. -/
theorem not_popsFront_of_fill (ps : List PipePacket) {q : PipePacket}
    (hring : IncomingRing dev s.mapping []) (hcontents : s.popped = s.written)
    (hps : ∀ p ∈ ps, p.size < dev.dataMaximumSize) (hq : q.size < dev.dataMaximumSize)
    (hfill : (incoming dev s.mapping).Out.toNat + (ps.map PipePacket.size).sum =
      dev.dataMaximumSize) :
    ¬ Meets (step dev) (PopsFront dev) s
      (ps.flatMap (fun p => [.put p, .pop]) ++ [.put q, .pop]) := by
  induction ps generalizing s with
  | nil =>
      rw [List.map_nil, List.sum_nil, Nat.add_zero] at hfill
      obtain ⟨m, hput⟩ := hring.exists_put (p := q) (by rwa [usedSize_nil, Nat.zero_add])
      have hring' := hring.put hput
      have heq := (putEffect_of_hostPut hput).2.out_eq
      have hstep : step dev s (.put q) =
          some { s with mapping := m, written := s.written ++ [q.content] } := by
        rw [step, hput, Option.map_some]
      intro H
      have hpop := ((H _ hstep).2 _ rfl).1
      have hinv : Inv dev { s with mapping := m, written := s.written ++ [q.content] } :=
        ⟨[q], hring', by simp [hcontents]⟩
      have hlt := (hinv.popsFront_iff.mp hpop).out_lt hring'
      simp only [heq] at hlt
      omega
  | cons p ps ih =>
      rw [List.map_cons, List.sum_cons] at hfill
      have hsize := p.size_ge
      obtain ⟨u, t, hput, hpop, hring', hcontents', hout'⟩ :=
        step_put_pop hring hcontents (by omega) (hps p List.mem_cons_self)
      rw [advance, if_neg (by omega)] at hout'
      intro H
      exact ih hring' hcontents' (fun x hx => hps x (List.mem_cons_of_mem _ hx)) (by omega)
        ((H u hput).2 t hpop).2

/-- Four packets up to the end of the rings of the driver, and one more. -/
theorem not_popsFront_of_size {big last q : PipePacket} (hbig : big.size = 524288)
    (hlast : last.size = 520192) :
    ¬ Meets (step .defaultRings) (PopsFront .defaultRings) (start fun _ => 0)
      [.put big, .pop, .put big, .pop, .put big, .pop, .put last, .pop, .put q, .pop] := by
  have hring : IncomingRing .defaultRings (start fun _ => 0).mapping [] := .empty rfl rfl
  have hq := q.size_le
  refine not_popsFront_of_fill [big, big, big, last] hring rfl ?_ ?_ ?_
  · simp [hbig, hlast, UioHvDevice.defaultRings]
  · change q.size < 2093056
    omega
  · rw [show (incoming .defaultRings (start fun _ => 0).mapping).Out = 0 from rfl]
    simp [hbig, hlast, UioHvDevice.defaultRings]

/-- The run with packets of zeros, from empty rings: the fifth pop throws. -/
theorem not_delivered_five_pops :
    ¬ (Always (step .defaultRings) Delivered (start fun _ => 0)
        [.put (.zeros 524256 (by decide)), .pop, .put (.zeros 524256 (by decide)), .pop,
          .put (.zeros 524256 (by decide)), .pop, .put (.zeros 520160 (by decide)), .pop,
          .put (.zeros 17 (by decide)), .pop] ∧
      Meets (step .defaultRings) (PopsFront .defaultRings) (start fun _ => 0)
        [.put (.zeros 524256 (by decide)), .pop, .put (.zeros 524256 (by decide)), .pop,
          .put (.zeros 524256 (by decide)), .pop, .put (.zeros 520160 (by decide)), .pop,
          .put (.zeros 17 (by decide)), .pop]) := fun H =>
  not_popsFront_of_size (PipePacket.size_zeros _ _) (PipePacket.size_zeros _ _) H.2

/-- Away from the end of the data area packets are delivered. -/
theorem delivered_put_pop :
    Always (step .defaultRings) Delivered (start fun _ => 0)
        [.put (.zeros 17 (by decide)), .pop] ∧
      Meets (step .defaultRings) (PopsFront .defaultRings) (start fun _ => 0)
        [.put (.zeros 17 (by decide)), .pop] := by
  have hIn : (incoming .defaultRings fun _ => 0).In = 0 := rfl
  have hOut : (incoming .defaultRings fun _ => 0).Out = 0 := rfl
  refine (delivered_iff_outInside .defaultRings (fun _ => 0) hIn hOut _).mpr ?_
  intro t ht
  refine ⟨trivial, ?_⟩
  obtain ⟨m, hput, rfl⟩ := put_of_step ht
  refine fun u hu => ⟨fun hend => ?_, trivial⟩
  rw [(putEffect_of_hostPut hput).2.out_eq] at hend
  exact absurd hend (by decide)

end IncomingRun

end HvGin
