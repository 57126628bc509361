import HvGin.Host
import HvGin.Lib.Exec

/-!
# `Receive` and the interrupt

`Receive` pops; it signals the host and returns what it popped, or, when that is empty,
waits for an interrupt and returns an empty array. The driver's callback masks the
interrupt and counts an event, `SignalHost` unmasks, the wait ends when the counter
differs from the value last read, and the host raises an interrupt when it fills an
empty ring while it is unmasked.

A wait is safe to begin when an event is unread, an interrupt is in flight, or the mask
is clear and the ring is empty: then the next packet raises one. `Receive` does not see
to it. It unmasks only where it returns data, so an interrupt delivered after its packet
was popped leaves the mask set under a `Receive` that then waits; and it takes an empty
packet for no packet and waits with others still queued.

## Main definitions

* `Receiver` — the guest, the driver and the host around the incoming ring.
* `Lost` — the guest is blocked with a packet to read and nothing to wake it.
* `WaitsSafely` — the condition on a call of `Receive`.
-/
namespace HvGin

open Lib

namespace Receiver

/-- Where the guest stands in `Receive`. -/
inductive Pc
  /-- Outside `Receive`. -/
  | idle
  /-- In `WaitInterrupt`. -/
  | waiting
  /-- The pop has given this content; `SignalHost` is next. -/
  | signalling (content : List UInt8)

end Receiver

/-- The mapping and the guest, the interrupts raised and not yet delivered, the event
counter of the driver and the value of it the file handle last read, and the results of
`Receive` and the contents written by the host so far. -/
structure Receiver where
  mapping : Mapping
  pc : Receiver.Pc
  inFlight : ℕ
  event : UInt32
  lastRead : UInt32
  returned : List (Except Exn (List UInt8))
  written : List (List UInt8)

namespace Receiver

inductive Label
  /-- The guest calls `Receive`, up to the end of `PopPipePacket`. -/
  | receive
  /-- `SignalHost`, and `Receive` returns the content. -/
  | signal
  /-- `WaitInterrupt` returns, and `Receive` returns an empty array. -/
  | wait
  /-- An interrupt in flight is delivered. -/
  | deliver
  /-- The host writes a packet. -/
  | put (p : PipePacket)

variable (dev : UioHvDevice)

/-- The state after the constructor: no event is unread. -/
def start (m : Mapping) (event : UInt32) : Receiver := ⟨m, .idle, 0, event, event, [], []⟩

/-- `hv_uio_channel_cb` masks the interrupt. -/
def channelCallback (m : Mapping) : Mapping := writeUInt32 (dev.incomingControlOffset + 8) 1 m

/-- The pop at the start of `Receive`, and the branch on its result. -/
def receivePop (s : Receiver) : Receiver :=
  (popPipePacket dev).handle s.mapping
    (fun content m => { s with
      mapping := m, pc := if content.length = 0 then .waiting else .signalling content })
    (fun e m => { s with mapping := m, returned := s.returned ++ [.error e] })

/-- The host raises an interrupt for a packet that it writes to an empty ring while the
interrupt is not masked. -/
def raises (m : Mapping) : ℕ :=
  if hostFreeSize dev m = dev.dataMaximumSize ∧ (incoming dev m).InterruptMask = 0 then 1 else 0

def step (s : Receiver) (l : Label) : Option Receiver :=
  match l, s.pc with
  | .receive, .idle => some (receivePop dev s)
  | .signal, .signalling content => some { s with
      mapping := signalHost dev s.mapping, pc := .idle, returned := s.returned ++ [.ok content] }
  | .wait, .waiting =>
      if s.event = s.lastRead then none
      else some { s with lastRead := s.event, pc := .idle, returned := s.returned ++ [.ok []] }
  | .deliver, _ =>
      if s.inFlight = 0 then none
      else some { s with
        mapping := channelCallback dev s.mapping
        inFlight := s.inFlight - 1
        event := s.event + 1 }
  | .put p, _ => (hostPut dev s.mapping p).map fun m => { s with
      mapping := m
      inFlight := s.inFlight + raises dev s.mapping
      written := s.written ++ [p.content] }
  | _, _ => none

/-- The guest is blocked, nothing will wake it, and a complete packet is readable. -/
structure Lost (s : Receiver) : Prop where
  waiting : s.pc = .waiting
  read : s.event = s.lastRead
  inFlight : s.inFlight = 0
  readable : incomingContents dev s.mapping ≠ []

/-- Something is there, or on its way, to end a wait. -/
def Awake (s : Receiver) : Prop := s.event ≠ s.lastRead ∨ 0 < s.inFlight

/-- A call of `Receive` that comes to wait, because it finds no packet or an empty one,
will be woken: something is on its way already, or the interrupt is unmasked and the pop
leaves the ring empty. A delivery during the wait does not bring the counter around to
the value last read. -/
def WaitsSafely (s : Receiver) : Label → Prop
  | .receive =>
      match incomingContents dev s.mapping with
      | [] => Awake s ∨ (incoming dev s.mapping).InterruptMask = 0
      | [] :: rest => (incoming dev s.mapping).Out.toNat < dev.dataMaximumSize →
          Awake s ∨ (incoming dev s.mapping).InterruptMask = 0 ∧ rest = []
      | _ => True
  | .deliver => s.pc = .waiting → s.event + 1 ≠ s.lastRead
  | _ => True

/-- The packets in the ring; and a wait is woken, or the next packet will wake it. -/
def Inv (s : Receiver) : Prop :=
  ∃ ps, IncomingRing dev s.mapping ps ∧
    (s.pc = .waiting → Awake s ∨ (incoming dev s.mapping).InterruptMask = 0 ∧ ps = [])

variable {dev} {s t : Receiver} {l : Label} {m : Mapping} {p : PipePacket} {ps : List PipePacket}

theorem Inv.not_lost (H : Inv dev s) : ¬ Lost dev s := by
  obtain ⟨ps, hring, hwait⟩ := H
  rintro ⟨hpc, hread, hflight, hreadable⟩
  rcases hwait hpc with (hne | hpos) | ⟨_, rfl⟩
  · exact hne hread
  · omega
  · exact hreadable hring.incomingContents_eq

/-! ## The steps -/

theorem channelCallback_eq (m : Mapping) :
    channelCallback dev m = interruptControl dev false m := rfl

theorem step_receive : step dev s .receive = some t ↔ s.pc = .idle ∧ receivePop dev s = t := by
  unfold step
  cases hpc : s.pc <;> simp

theorem step_signal : step dev s .signal = some t ↔ ∃ content, s.pc = .signalling content ∧
    t = { s with
      mapping := signalHost dev s.mapping, pc := .idle, returned := s.returned ++ [.ok content] } := by
  unfold step
  cases hpc : s.pc <;> simp [eq_comm]

theorem step_wait : step dev s .wait = some t ↔ s.pc = .waiting ∧ s.event ≠ s.lastRead ∧
    t = { s with lastRead := s.event, pc := .idle, returned := s.returned ++ [.ok []] } := by
  unfold step
  cases hpc : s.pc <;> simp [eq_comm]

theorem step_deliver : step dev s .deliver = some t ↔ 0 < s.inFlight ∧
    t = { s with
      mapping := channelCallback dev s.mapping
      inFlight := s.inFlight - 1
      event := s.event + 1 } := by
  unfold step
  cases hpc : s.pc <;> simp [eq_comm, Nat.pos_iff_ne_zero]

theorem step_put : step dev s (.put p) = some t ↔ ∃ m, hostPut dev s.mapping p = some m ∧
    t = { s with
      mapping := m
      inFlight := s.inFlight + raises dev s.mapping
      written := s.written ++ [p.content] } := by
  unfold step
  cases hpc : s.pc <;> simp [eq_comm]

/-- On an empty ring the pop finds nothing, and `Receive` waits. -/
theorem receivePop_nil (hring : IncomingRing dev s.mapping []) :
    receivePop dev s = { s with pc := .waiting } := by
  rw [receivePop, Act.handle_ok (run_popPipePacket_none hring.pop_nil), if_pos List.length_nil]

/-- With a packet in the ring the pop consumes it. -/
theorem receivePop_cons (hring : IncomingRing dev s.mapping (p :: ps))
    (hout : (incoming dev s.mapping).Out.toNat < dev.dataMaximumSize) :
    ∃ m, IncomingRing dev m ps ∧
      (incoming dev m).InterruptMask = (incoming dev s.mapping).InterruptMask ∧
      (incoming dev m).Out.toNat =
        advance dev.dataMaximumSize (incoming dev s.mapping).Out.toNat p.size ∧
      receivePop dev s = { s with
        mapping := m, pc := if p.content.length = 0 then .waiting else .signalling p.content } := by
  have hfit := dev.offsets_fit
  have hlt := hring.used_lt
  rw [usedSize_cons] at hlt
  have hadvance := advance_le hring.out_le (by omega : p.size ≤ dev.dataMaximumSize)
  refine ⟨_, hring.popStore, by rw [incoming_popStore], ?_, ?_⟩
  · rw [incoming_popStore, toNat_ofNat32 (by omega)]
  rw [receivePop, Act.handle_ok (run_popPipePacket_consumes (hring.pop hout))]

/-- From the end of the data area it throws. -/
theorem receivePop_end (hring : IncomingRing dev s.mapping (p :: ps))
    (hout : (incoming dev s.mapping).Out.toNat = dev.dataMaximumSize) :
    receivePop dev s = { s with returned := s.returned ++ [.error .argumentOutOfRange] } := by
  rw [receivePop, Act.handle_error (run_popPipePacket_error (hring.pop_end hout))]

/-- The pop adds to the results only when it throws, and writes nothing of the host's. -/
theorem receivePop_returned (s : Receiver) :
    (receivePop dev s).written = s.written ∧
      ∃ rs, (receivePop dev s).returned = s.returned ++ rs := by
  rcases popCopy_cases dev s.mapping with ⟨content, finalOffset, h⟩ | h | ⟨e, h⟩
  · rw [receivePop, Act.handle_ok (run_popPipePacket_consumes h)]
    exact ⟨rfl, [], (List.append_nil _).symm⟩
  · rw [receivePop, Act.handle_ok (run_popPipePacket_none h)]
    exact ⟨rfl, [], (List.append_nil _).symm⟩
  · rw [receivePop, Act.handle_error (run_popPipePacket_error h)]
    exact ⟨rfl, _, rfl⟩

/-- A packet that fills an empty ring raises an interrupt if it is not masked. -/
theorem raises_eq (hring : IncomingRing dev m ps) :
    raises dev m = if ps = [] ∧ (incoming dev m).InterruptMask = 0 then 1 else 0 := by
  simp only [raises, hring.hostFreeSize_eq_iff]

theorem waitsSafely_nil (hring : IncomingRing dev s.mapping []) :
    WaitsSafely dev s .receive ↔ Awake s ∨ (incoming dev s.mapping).InterruptMask = 0 := by
  rw [WaitsSafely, hring.incomingContents_eq]
  rfl

/-- A call that finds a content does not wait. -/
theorem waitsSafely_cons (hring : IncomingRing dev s.mapping (p :: ps)) (h : p.content ≠ []) :
    WaitsSafely dev s .receive ↔ True := by
  rw [WaitsSafely, hring.incomingContents_eq, List.map_cons]
  cases hcontent : p.content with
  | nil => exact absurd hcontent h
  | cons b bs => rfl

/-! ## The invariant -/

/-- A call of `Receive` that waits safely keeps the invariant. -/
theorem Inv.receivePop (H : Inv dev s) (hpc : s.pc = .idle) (hsafe : WaitsSafely dev s .receive) :
    Inv dev (receivePop dev s) := by
  obtain ⟨ps, hring, _⟩ := H
  rw [WaitsSafely, hring.incomingContents_eq] at hsafe
  cases ps with
  | nil =>
      rw [receivePop_nil hring]
      exact ⟨[], hring, fun _ => hsafe.imp_right fun hmask => ⟨hmask, rfl⟩⟩
  | cons p ps =>
      rcases Nat.lt_or_eq_of_le hring.out_le with hlt | hend
      · obtain ⟨m, hring', hmask, _, heq⟩ := receivePop_cons hring hlt
        rw [heq]
        refine ⟨ps, hring', ?_⟩
        intro hwait
        have hempty : p.content = [] := by
          by_contra hne
          rw [if_neg (by simpa using hne)] at hwait
          cases hwait
        rw [List.map_cons, hempty] at hsafe
        rcases hsafe hlt with hawake | ⟨hzero, hrest⟩
        · exact Or.inl hawake
        · exact Or.inr ⟨hmask.trans hzero, List.map_eq_nil_iff.mp hrest⟩
      · rw [receivePop_end hring hend]
        exact ⟨_, hring, fun hwait => by rw [hpc] at hwait; cases hwait⟩

/-- Every step that meets the condition keeps the invariant. -/
theorem Inv.step (H : Inv dev s) (hsafe : WaitsSafely dev s l) (h : step dev s l = some t) :
    Inv dev t := by
  cases l with
  | receive =>
      obtain ⟨hpc, rfl⟩ := step_receive.mp h
      revert hsafe
      exact H.receivePop hpc
  | signal =>
      obtain ⟨content, _, rfl⟩ := step_signal.mp h
      obtain ⟨ps, hring, _⟩ := H
      refine ⟨ps, ?_, ?_⟩
      · rw [signalHost]
        exact hring.interruptControl
      · intro hwait
        cases hwait
  | wait =>
      obtain ⟨_, _, rfl⟩ := step_wait.mp h
      obtain ⟨ps, hring, _⟩ := H
      refine ⟨ps, hring, ?_⟩
      intro hwait
      cases hwait
  | deliver =>
      obtain ⟨_, rfl⟩ := step_deliver.mp h
      obtain ⟨ps, hring, _⟩ := H
      refine ⟨ps, ?_, fun hwait => Or.inl (Or.inl (hsafe hwait))⟩
      rw [channelCallback_eq]
      exact hring.interruptControl
  | put p =>
      obtain ⟨m, hput, rfl⟩ := step_put.mp h
      obtain ⟨ps, hring, hwait⟩ := H
      refine ⟨_, hring.put hput, fun hpc => Or.inl ?_⟩
      rcases hwait hpc with (hne | hpos) | ⟨hmask, rfl⟩
      · exact Or.inl hne
      · have hle : s.inFlight ≤ s.inFlight + raises dev s.mapping := Nat.le_add_right _ _
        exact Or.inr (hpos.trans_le hle)
      · refine Or.inr (Nat.lt_of_lt_of_le Nat.zero_lt_one ?_)
        change 1 ≤ s.inFlight + raises dev s.mapping
        rw [raises_eq hring, if_pos ⟨rfl, hmask⟩]
        exact Nat.le_add_left _ _

/-- From a wait with nothing on its way and an interrupt masked over an empty ring, the
next packet is lost. -/
theorem lost_of_put (hring : IncomingRing dev s.mapping []) (hpc : s.pc = .waiting)
    (hasleep : ¬ Awake s) (hmask : (incoming dev s.mapping).InterruptMask ≠ 0)
    (h : step dev s (.put p) = some t) : Lost dev t := by
  obtain ⟨m, hput, rfl⟩ := step_put.mp h
  obtain ⟨hread, hflight⟩ := not_or.mp hasleep
  refine ⟨hpc, not_not.mp hread, ?_, ?_⟩
  · change s.inFlight + raises dev s.mapping = 0
    rw [raises_eq hring, if_neg fun hboth => hmask hboth.2]
    omega
  · change incomingContents dev m ≠ []
    rw [(hring.put hput).incomingContents_eq]
    simp

/-- A call of `Receive` that does not wait safely loses its wake-up, at once or with the
next packet. -/
theorem Inv.lost (H : Inv dev s) (hsleeps : ¬ WaitsSafely dev s .receive)
    (h : Receiver.step dev s .receive = some t) :
    Lost dev t ∨ ∀ p u, Receiver.step dev t (.put p) = some u → Lost dev u := by
  obtain ⟨hpc, rfl⟩ := step_receive.mp h
  obtain ⟨ps, hring, _⟩ := H
  rw [WaitsSafely, hring.incomingContents_eq] at hsleeps
  cases ps with
  | nil =>
      obtain ⟨hasleep, hmask⟩ := not_or.mp hsleeps
      rw [receivePop_nil hring]
      exact Or.inr fun q u hput =>
        lost_of_put (s := { s with pc := .waiting }) hring rfl hasleep hmask hput
  | cons p ps =>
      cases hcontent : p.content with
      | nil =>
          rw [List.map_cons, hcontent] at hsleeps
          obtain ⟨hlt, hsleeps⟩ := Classical.not_imp.mp hsleeps
          obtain ⟨hasleep, hnot⟩ := not_or.mp hsleeps
          obtain ⟨m, hring', hmask, _, heq⟩ := receivePop_cons hring hlt
          rw [heq, if_pos (by rw [hcontent]; rfl)]
          cases ps with
          | nil =>
              have hmask' : (incoming dev m).InterruptMask ≠ 0 := by
                rw [hmask]
                exact fun hzero => hnot ⟨hzero, rfl⟩
              exact Or.inr fun q u hput =>
                lost_of_put (s := { s with mapping := m, pc := .waiting }) hring' rfl hasleep hmask' hput
          | cons q ps =>
              obtain ⟨hread, hflight⟩ := not_or.mp hasleep
              refine Or.inl ⟨rfl, not_not.mp hread, by simpa using hflight, ?_⟩
              change incomingContents dev m ≠ []
              rw [hring'.incomingContents_eq]
              simp
      | cons b bs =>
          rw [List.map_cons, hcontent] at hsleeps
          exact absurd trivial hsleeps

/-- A packet that is there when the call looks: the call returns it. -/
theorem early_steps (p : PipePacket) (event : UInt32) (hring : IncomingRing dev m [])
    (hout : (incoming dev m).Out.toNat < dev.dataMaximumSize)
    (hmask : (incoming dev m).InterruptMask = 0) (hp : p.size < dev.dataMaximumSize)
    (hcontent : p.content ≠ []) :
    ∃ m₁ m₂ m', IncomingRing dev m₁ [p] ∧ IncomingRing dev m' [] ∧
      (incoming dev m').Out.toNat =
        advance dev.dataMaximumSize (incoming dev m).Out.toNat p.size ∧
      step dev (start m event) (.put p) =
        some ⟨m₁, .idle, 1, event, event, [], [p.content]⟩ ∧
      step dev ⟨m₁, .idle, 1, event, event, [], [p.content]⟩ .receive =
        some ⟨m₂, .signalling p.content, 1, event, event, [], [p.content]⟩ ∧
      step dev ⟨m₂, .signalling p.content, 1, event, event, [], [p.content]⟩ .signal =
        some ⟨m', .idle, 1, event, event, [.ok p.content], [p.content]⟩ := by
  obtain ⟨m₁, hput⟩ := hring.exists_put (p := p) (by rwa [usedSize_nil, Nat.zero_add])
  have hraises : raises dev m = 1 := by rw [raises_eq hring, if_pos ⟨rfl, hmask⟩]
  have hout₁ := (putEffect_of_hostPut hput).2.out_eq
  obtain ⟨m₂, hring₂, _, hout₂, hpop⟩ := receivePop_cons
    (s := ⟨m₁, .idle, 1, event, event, [], [p.content]⟩) (hring.put hput) (by rwa [hout₁])
  rw [if_neg (by simpa using hcontent)] at hpop
  refine ⟨m₁, m₂, signalHost dev m₂, hring.put hput, hring₂.interruptControl, ?_, ?_,
    step_receive.mpr ⟨rfl, hpop⟩, step_signal.mpr ⟨_, rfl, rfl⟩⟩
  · rw [signalHost, incoming_interruptControl, hout₂, hout₁]
  · have h : step dev (start m event) (.put p) =
        some ⟨m₁, .idle, 0 + raises dev m, event, event, [], [p.content]⟩ :=
      step_put.mpr ⟨m₁, hput, rfl⟩
    rwa [hraises] at h

/-- A packet that comes after the call has looked: the call waits, is woken by the packet, and
returns nothing of it. -/
theorem late_steps (p : PipePacket) (event : UInt32) (hring : IncomingRing dev m [])
    (hmask : (incoming dev m).InterruptMask = 0) (hp : p.size < dev.dataMaximumSize) :
    ∃ m', IncomingRing dev m' [p] ∧ (incoming dev m').Out = (incoming dev m).Out ∧ ∃ m₂,
      step dev (start m event) .receive = some ⟨m, .waiting, 0, event, event, [], []⟩ ∧
      step dev ⟨m, .waiting, 0, event, event, [], []⟩ (.put p) =
        some ⟨m₂, .waiting, 1, event, event, [], [p.content]⟩ ∧
      step dev ⟨m₂, .waiting, 1, event, event, [], [p.content]⟩ .deliver =
        some ⟨m', .waiting, 0, event + 1, event, [], [p.content]⟩ ∧
      step dev ⟨m', .waiting, 0, event + 1, event, [], [p.content]⟩ .wait =
        some ⟨m', .idle, 0, event + 1, event + 1, [.ok []], [p.content]⟩ := by
  obtain ⟨m₂, hput⟩ := hring.exists_put (p := p) (by rwa [usedSize_nil, Nat.zero_add])
  have hraises : raises dev m = 1 := by rw [raises_eq hring, if_pos ⟨rfl, hmask⟩]
  refine ⟨channelCallback dev m₂, ?_, ?_, m₂, ?_, ?_, ?_, ?_⟩
  · rw [channelCallback_eq]
    exact (hring.put hput).interruptControl
  · rw [channelCallback_eq, incoming_interruptControl, (putEffect_of_hostPut hput).2.out_eq]
  · exact step_receive.mpr ⟨rfl, receivePop_nil (s := start m event) hring⟩
  · have h : step dev ⟨m, .waiting, 0, event, event, [], []⟩ (.put p) =
        some ⟨m₂, .waiting, 0 + raises dev m, event, event, [], [p.content]⟩ :=
      step_put.mpr ⟨m₂, hput, rfl⟩
    rwa [hraises] at h
  · exact step_deliver.mpr ⟨Nat.zero_lt_one, rfl⟩
  · exact step_wait.mpr ⟨rfl, by simp, rfl⟩

/-- **No lost wake-up.** From an empty ring, a run in which every call of `Receive` waits
safely, and no delivery during a wait brings the counter around to the value last read,
reaches no state with a lost wake-up. A call that does not wait safely, after any such run,
loses one at once or with the next packet. -/
theorem not_lost_of_waitsSafely (dev : UioHvDevice) (m : Mapping) (event : UInt32)
    (hIn : (incoming dev m).In = 0) (hOut : (incoming dev m).Out = 0)
    (ls : List Label) (hsafe : Meets (step dev) (WaitsSafely dev) (start m event) ls) :
    Always (step dev) (fun s => ¬ Lost dev s) (start m event) ls ∧
    ∀ s t, exec (step dev) (start m event) ls = some s → step dev s .receive = some t →
      ¬ WaitsSafely dev s .receive →
      Lost dev t ∨ ∀ p u, step dev t (.put p) = some u → Lost dev u := by
  have h₀ : Inv dev (start m event) := ⟨[], .empty hIn hOut, fun hwait => nomatch hwait⟩
  have hrun := always_of_meets (fun _ _ _ => Inv.step) h₀ hsafe
  exact ⟨hrun.mono fun _ => Inv.not_lost, fun s t hs ht hsleeps =>
    (hrun.exec hs).lost hsleeps ht⟩

/-- A call that waits for a packet, a call that pops it, and a call that waits for the next. -/
def promptDelivery (p : PipePacket) : List Label :=
  [.receive, .put p, .deliver, .wait, .receive, .signal, .receive]

/-- The packet is there for the second call, and the third one finds the ring empty and the
interrupt unmasked. -/
theorem second_steps (event : UInt32) (hring : IncomingRing dev m [p])
    (hout : (incoming dev m).Out.toNat < dev.dataMaximumSize) (hcontent : p.content ≠ []) :
    ∃ m₁ m', IncomingRing dev m' [] ∧ (incoming dev m').InterruptMask = 0 ∧
      step dev ⟨m, .idle, 0, event, event, [.ok []], [p.content]⟩ .receive =
        some ⟨m₁, .signalling p.content, 0, event, event, [.ok []], [p.content]⟩ ∧
      step dev ⟨m₁, .signalling p.content, 0, event, event, [.ok []], [p.content]⟩ .signal =
        some ⟨m', .idle, 0, event, event, [.ok [], .ok p.content], [p.content]⟩ ∧
      step dev ⟨m', .idle, 0, event, event, [.ok [], .ok p.content], [p.content]⟩ .receive =
        some ⟨m', .waiting, 0, event, event, [.ok [], .ok p.content], [p.content]⟩ := by
  obtain ⟨m₁, hring₁, _, _, hpop⟩ := receivePop_cons
    (s := ⟨m, .idle, 0, event, event, [.ok []], [p.content]⟩) hring hout
  rw [if_neg (by simpa using hcontent)] at hpop
  have hring' : IncomingRing dev (signalHost dev m₁) [] := hring₁.interruptControl
  refine ⟨m₁, signalHost dev m₁, hring', ?_, step_receive.mpr ⟨rfl, hpop⟩,
    step_signal.mpr ⟨_, rfl, rfl⟩, step_receive.mpr ⟨rfl, receivePop_nil hring'⟩⟩
  rw [signalHost, incoming_interruptControl]
  rfl

/-- With interrupts delivered before their packets are popped, each of these waits is safe. -/
theorem exec_promptDelivery (event : UInt32) (hring : IncomingRing dev m [])
    (hout : (incoming dev m).Out.toNat < dev.dataMaximumSize)
    (hmask : (incoming dev m).InterruptMask = 0) (hp : p.size < dev.dataMaximumSize)
    (hcontent : p.content ≠ []) :
    ∃ t, exec (step dev) (start m event) (promptDelivery p) = some t ∧ t.pc = .waiting ∧
      t.returned = [.ok [], .ok p.content] ∧
      Meets (step dev) (WaitsSafely dev) (start m event) (promptDelivery p) := by
  obtain ⟨m', hring', hout', m₂, h₁, h₂, h₃, h₄⟩ := late_steps p event hring hmask hp
  obtain ⟨m₅, m₆, hring₆, hunmasked, h₅, h₆, h₇⟩ := second_steps (event + 1) hring'
    (by rwa [hout']) hcontent
  refine ⟨⟨m₆, .waiting, 0, event + 1, event + 1, [.ok [], .ok p.content], [p.content]⟩, ?_, rfl,
    rfl, ?_⟩
  · rw [promptDelivery, exec_cons h₁, exec_cons h₂, exec_cons h₃, exec_cons h₄, exec_cons h₅,
      exec_cons h₆, exec_cons h₇, exec_nil]
  · rw [promptDelivery, meets_cons h₁, meets_cons h₂, meets_cons h₃, meets_cons h₄,
      meets_cons h₅, meets_cons h₆, meets_cons h₇]
    rw [waitsSafely_nil hring, waitsSafely_cons hring' hcontent, waitsSafely_nil hring₆]
    refine ⟨.inr hmask, ?_, ?_, ?_, trivial, ?_, .inr hunmasked, trivial⟩
    · trivial
    · intro _
      simp
    · trivial
    · trivial

/-- The run with a packet of seventeen bytes, from empty rings. -/
theorem not_lost_promptDelivery : ∃ t,
    exec (step .defaultRings) (start (fun _ => 0) 0)
      (promptDelivery (.zeros 17 (by decide))) = some t ∧
    t.pc = .waiting ∧ t.returned = [.ok [], .ok (PipePacket.zeros 17 (by decide)).content] ∧
    Always (step .defaultRings) (fun s => ¬ Lost .defaultRings s) (start (fun _ => 0) 0)
      (promptDelivery (.zeros 17 (by decide))) := by
  have hring : IncomingRing .defaultRings (fun _ => 0) [] := .empty rfl rfl
  obtain ⟨t, hexec, hpc, hreturned, hsafe⟩ := exec_promptDelivery (p := .zeros 17 (by decide)) 0
    hring (by decide) rfl (by rw [PipePacket.size_zeros]; decide) (by decide)
  exact ⟨t, hexec, hpc, hreturned,
    (not_lost_of_waitsSafely .defaultRings (fun _ => 0) 0 rfl rfl _ hsafe).1⟩

/-- An interrupt delivered after its packet was popped: the second call of `Receive`
returns on it, the third waits with the interrupt masked, and the next packet is lost. -/
def lateDelivery (p q : PipePacket) : List Label :=
  [.put p, .receive, .signal, .deliver, .receive, .wait, .receive, .put q]

theorem exec_lateDelivery (event : UInt32) {q : PipePacket} (hring : IncomingRing dev m [])
    (hout : (incoming dev m).Out.toNat < dev.dataMaximumSize)
    (hmask : (incoming dev m).InterruptMask = 0) (hp : p.size < dev.dataMaximumSize)
    (hcontent : p.content ≠ []) (hq : q.size < dev.dataMaximumSize) :
    ∃ t, exec (step dev) (start m event) (lateDelivery p q) = some t ∧ Lost dev t := by
  -- The packet raises an interrupt, and is popped before the interrupt is delivered.
  obtain ⟨m₁, m₂, m₃, _, hring₃, _, h₁, h₂, h₃⟩ := early_steps p event hring hout hmask hp hcontent
  have h₄ : step dev ⟨m₃, .idle, 1, event, event, [.ok p.content], [p.content]⟩ .deliver =
      some ⟨channelCallback dev m₃, .idle, 0, event + 1, event, [.ok p.content],
        [p.content]⟩ := step_deliver.mpr ⟨Nat.zero_lt_one, rfl⟩
  -- From here on the ring is empty and the interrupt masked.
  generalize hm₄ : channelCallback dev m₃ = m₄ at h₄
  have hring₄ : IncomingRing dev m₄ [] := by
    rw [← hm₄, channelCallback_eq]
    exact hring₃.interruptControl
  have hmask₄ : (incoming dev m₄).InterruptMask ≠ 0 := by
    rw [← hm₄, channelCallback_eq, incoming_interruptControl]
    simp
  have h₅ := step_receive.mpr ⟨rfl, receivePop_nil
    (s := ⟨m₄, .idle, 0, event + 1, event, [.ok p.content], [p.content]⟩) hring₄⟩
  have h₆ : step dev ⟨m₄, .waiting, 0, event + 1, event, [.ok p.content], [p.content]⟩ .wait =
      some ⟨m₄, .idle, 0, event + 1, event + 1, [.ok p.content, .ok []], [p.content]⟩ :=
    step_wait.mpr ⟨rfl, by simp, rfl⟩
  have h₇ := step_receive.mpr ⟨rfl, receivePop_nil
    (s := ⟨m₄, .idle, 0, event + 1, event + 1, [.ok p.content, .ok []], [p.content]⟩) hring₄⟩
  obtain ⟨m₅, hput₅⟩ := hring₄.exists_put (p := q) (by rwa [usedSize_nil, Nat.zero_add])
  have h₈ : step dev ⟨m₄, .waiting, 0, event + 1, event + 1, [.ok p.content, .ok []], [p.content]⟩
      (.put q) = some ⟨m₅, .waiting, 0 + raises dev m₄, event + 1, event + 1,
        [.ok p.content, .ok []], [p.content, q.content]⟩ := step_put.mpr ⟨m₅, hput₅, rfl⟩
  have hlost := lost_of_put (s := ⟨m₄, .waiting, 0, event + 1, event + 1, [.ok p.content, .ok []],
    [p.content]⟩) hring₄ rfl (by simp [Awake]) hmask₄ h₈
  refine ⟨_, ?_, hlost⟩
  rw [lateDelivery, exec_cons h₁, exec_cons h₂, exec_cons h₃, exec_cons h₄, exec_cons h₅,
    exec_cons h₆, exec_cons h₇, exec_cons h₈, exec_nil]

/-- The run with packets of seventeen bytes, from empty rings. -/
theorem lost_lateDelivery : ¬ Always (step .defaultRings) (fun s => ¬ Lost .defaultRings s)
    (start (fun _ => 0) 0)
    (lateDelivery (.zeros 17 (by decide)) (.zeros 17 (by decide))) := by
  have hring : IncomingRing .defaultRings (fun _ => 0) [] := .empty rfl rfl
  have hsize : (PipePacket.zeros 17 (by decide)).size < 2093056 := by
    rw [PipePacket.size_zeros]
    decide
  obtain ⟨t, hexec, hlost⟩ := exec_lateDelivery 0 hring (by decide) rfl hsize (by decide)
    hsize
  exact fun H => H.exec hexec hlost

end Receiver

end HvGin
