import HvGin.FirstReceive

/-!
# The first packet of a session

A session starts with one call of `Receive` on the data channel. The array it returns is
patched, so that the client asks for no security protocol, and sent to the RDP server;
whatever goes wrong in this is swallowed. Then the relay thread takes over and sends what
it pops as it is.

When the first packet arrives after that call has looked at the ring, the array is empty,
the patch fails, and it is the relay thread that sends the packet, unpatched. So it is when an
earlier session has left a packet in the ring: then the call pops that one.
-/
namespace HvGin

open Lib

namespace Session

/-- The initial exchange, the relay thread at work, and after its end. -/
inductive Phase
  | starting | relaying | ended
  deriving DecidableEq

end Session

/-- The data channel with the guest's call of `Receive`, the phase of the session, and the
arrays handed to the RDP socket so far. -/
structure Session where
  receiver : Receiver
  phase : Session.Phase
  sent : List (List UInt8)

namespace Session

inductive Label
  /-- `DataChannel.Receive()`, the driver and the host. -/
  | receiver (l : Receiver.Label)
  /-- The patch, the send, and the start of the threads. -/
  | patch
  /-- An iteration of `Vmbus2TcpThread`; the socket may throw. -/
  | relay (throws : Bool)
  /-- The thread leaves its loop. -/
  | stop

variable (dev : UioHvDevice)

def start (m : Mapping) (event : UInt32) : Session := ⟨.start m event, .starting, []⟩

/-- `requestedProtocols` is set to `PROTOCOL_RDP`. -/
def patchContent (received : Except Exn (List UInt8)) : Except Exn (List UInt8) := do
  let content ← received
  if content.length ≤ 15 then .error .indexOutOfRange else .ok (content.set 15 0)

/-- What the initial exchange hands to the socket; an exception is printed and ignored. -/
def handed (received : Except Exn (List UInt8)) : List (List UInt8) :=
  match patchContent received with
  | .ok content => [content]
  | .error _ => []

/-- An iteration of the relay thread: an empty array is not sent, and an exception ends
the loop. -/
def relayPop (s : Session) (throws : Bool) : Session :=
  (popPipePacket dev).handle s.receiver.mapping
    (fun content m => { s with
      receiver := { s.receiver with mapping := m }
      sent := if content.length = 0 then s.sent else s.sent ++ [content]
      phase := if content.length ≠ 0 ∧ throws then .ended else .relaying })
    (fun _ m => { s with receiver := { s.receiver with mapping := m }, phase := .ended })

/-- `Receive` is called once, at the start; the first packet of the host has at least
sixteen bytes. -/
def allows (s : Session) : Receiver.Label → Bool
  | .receive => s.phase = .starting && s.receiver.returned.isEmpty
  | .put p => !s.receiver.written.isEmpty || 16 ≤ p.content.length
  | _ => true

def step (s : Session) (l : Label) : Option Session :=
  match l, s.phase with
  | .receiver l, _ =>
      if s.allows l then (Receiver.step dev s.receiver l).map fun r => { s with receiver := r }
      else none
  | .patch, .starting => s.receiver.returned.head?.map fun r =>
      { s with phase := .relaying, sent := s.sent ++ handed r }
  | .relay throws, .relaying => some (relayPop dev s throws)
  | .stop, .relaying => some { s with phase := .ended }
  | _, _ => none

/-- The contents that are not empty. -/
def payloads (contents : List (List UInt8)) : List (List UInt8) :=
  contents.filter fun content => content.length ≠ 0

/-- The initial call of `Receive` finds a packet of this session, and none of an earlier one
is left in the ring. -/
def PacketFirst (s : Session) : Label → Prop
  | .receiver .receive => s.receiver.written ≠ [] ∧
      incomingContents dev s.receiver.mapping = s.receiver.written
  | _ => True

/-- `Receive` has not been called on a ring in which these contents were left. -/
structure Initial (left : List (List UInt8)) (s : Session) : Prop where
  starting : s.phase = .starting
  sent : s.sent = []
  before : s.receiver.Before dev left
  long : ∀ content, s.receiver.written.head? = some content → 16 ≤ content.length

/-- `Receive` has popped `first`, one content or none, and the relay thread, if it runs,
the contents after it. -/
def After (left first : List (List UInt8)) (s : Session) : Prop :=
  s.phase = .starting ∧ s.sent = [] ∧ s.receiver.Returns (first.headD []) ∧
      s.receiver.Queued dev left first ∨
    s.phase ≠ .starting ∧ ∃ popped, s.receiver.Queued dev left (first ++ popped) ∧
      s.sent = first.flatMap (fun content => handed (.ok content)) ++ payloads popped

/-- With `Out` at the end of the data area every pop of a packet throws. -/
structure Stuck (s : Session) : Prop where
  ring : ∃ ps, IncomingRing dev s.receiver.mapping ps
  out_eq : (incoming dev s.receiver.mapping).Out.toNat = dev.dataMaximumSize
  sent : s.sent = []
  pc : ∀ content, s.receiver.pc ≠ .signalling content
  returned : ∀ r ∈ s.receiver.returned, handed r = []

variable {dev} {s t : Session} {l : Label} {ls : List Label} {left first : List (List UInt8)}

theorem payloads_append (xs ys : List (List UInt8)) :
    payloads (xs ++ ys) = payloads xs ++ payloads ys := List.filter_append ..

theorem payloads_singleton (content : List UInt8) :
    payloads [content] = if content.length = 0 then [] else [content] := by
  by_cases h : content = [] <;> simp [payloads, h]

/-! ## The steps -/

theorem step_receiver {r : Receiver.Label} : step dev s (.receiver r) = some t ↔
    s.allows r ∧ ∃ u, Receiver.step dev s.receiver r = some u ∧ { s with receiver := u } = t := by
  change (if s.allows r then _ else none) = _ ↔ _
  split
  · next h => rw [Option.map_eq_some_iff, and_iff_right h]
  · next h => exact iff_of_false (by simp) fun hboth => h hboth.1

theorem step_patch : step dev s .patch = some t ↔ s.phase = .starting ∧
    ∃ r, s.receiver.returned.head? = some r ∧
      t = { s with phase := .relaying, sent := s.sent ++ handed r } := by
  cases hphase : s.phase <;> simp [step, hphase, eq_comm]

theorem step_relay {throws : Bool} : step dev s (.relay throws) = some t ↔
    s.phase = .relaying ∧ t = relayPop dev s throws := by
  cases hphase : s.phase <;> simp [step, hphase, eq_comm]

theorem step_stop : step dev s .stop = some t ↔
    s.phase = .relaying ∧ t = { s with phase := .ended } := by
  cases hphase : s.phase <;> simp [step, hphase, eq_comm]

/-- The patch of one content, or of nothing. -/
theorem handed_headD (hfirst : first.length ≤ 1) :
    handed (.ok (first.headD [])) = first.flatMap fun content => handed (.ok content) := by
  rcases first with _ | ⟨content, _ | ⟨_, _⟩⟩
  · rfl
  · simp
  · simp at hfirst

/-- The relay thread hands over what it pops. -/
theorem After.relayPop {throws : Bool} {popped : List (List UInt8)}
    (hqueued : s.receiver.Queued dev left (first ++ popped))
    (hsent : s.sent = first.flatMap (fun content => handed (.ok content)) ++ payloads popped) :
    After dev left first (relayPop dev s throws) := by
  obtain ⟨ps, hring, hwritten⟩ := hqueued
  cases ps with
  | nil =>
      rw [Session.relayPop, Act.handle_ok (run_popPipePacket_none hring.pop_nil)]
      exact Or.inr ⟨by simp, popped, ⟨[], hring, hwritten⟩, hsent⟩
  | cons p ps =>
      rcases Nat.lt_or_eq_of_le hring.out_le with hlt | hend
      · rw [Session.relayPop, Act.handle_ok (run_popPipePacket_consumes (hring.pop hlt))]
        refine Or.inr ⟨by simp only; split <;> simp, popped ++ [p.content],
          ⟨ps, hring.popStore, by simp [hwritten]⟩, ?_⟩
        rw [payloads_append, payloads_singleton, ← List.append_assoc, ← hsent]
        simp only
        split <;> simp
      · rw [Session.relayPop, Act.handle_error (run_popPipePacket_error (hring.pop_end hend))]
        exact Or.inr ⟨by simp, popped, ⟨_, hring, hwritten⟩, hsent⟩

/-- The call is not repeated. -/
theorem After.ne_receive {r : Receiver.Label} {u : Receiver} (H : After dev left first s)
    (hallows : s.allows r) (hu : Receiver.step dev s.receiver r = some u) : r ≠ .receive := by
  rintro rfl
  simp only [allows, Bool.and_eq_true, decide_eq_true_eq, List.isEmpty_iff] at hallows
  obtain ⟨hphase, hnil⟩ := hallows
  obtain ⟨hpc, _⟩ := Receiver.step_receive.mp hu
  rcases H with ⟨_, _, ⟨_, hpc' | ⟨_, hpc'⟩⟩ | hhead, _⟩ | ⟨hphase', _⟩
  · rw [hpc] at hpc'
    cases hpc'
  · rw [hpc] at hpc'
    cases hpc'
  · rw [hnil] at hhead
    cases hhead
  · exact hphase' hphase

/-- After the call, every step keeps what has been popped and handed over in line. -/
theorem After.of_step (hfirst : first.length ≤ 1) (H : After dev left first s)
    (h : step dev s l = some t) : After dev left first t := by
  cases l with
  | receiver r =>
      obtain ⟨hallows, u, hu, rfl⟩ := step_receiver.mp h
      have hr := H.ne_receive hallows hu
      rcases H with ⟨hphase, hsent, hreturns, hqueued⟩ | ⟨hphase, popped, hqueued, hsent⟩
      · exact Or.inl ⟨hphase, hsent, hreturns.of_step hu, hqueued.of_step hr hu⟩
      · exact Or.inr ⟨hphase, popped, hqueued.of_step hr hu, hsent⟩
  | patch =>
      obtain ⟨hphase, r, hret, rfl⟩ := step_patch.mp h
      rcases H with ⟨_, hsent, hreturns, hqueued⟩ | ⟨hphase', _⟩
      · rcases hreturns with ⟨hnil, _⟩ | hhead
        · rw [hnil] at hret
          cases hret
        · rw [hhead] at hret
          cases hret
          refine Or.inr ⟨by simp, [], by rwa [List.append_nil], ?_⟩
          rw [hsent, handed_headD hfirst, List.nil_append]
          exact (List.append_nil _).symm
      · exact absurd hphase hphase'
  | relay throws =>
      obtain ⟨hphase, rfl⟩ := step_relay.mp h
      rcases H with ⟨hphase', _⟩ | ⟨_, popped, hqueued, hsent⟩
      · rw [hphase] at hphase'
        cases hphase'
      · exact After.relayPop hqueued hsent
  | stop =>
      obtain ⟨hphase, rfl⟩ := step_stop.mp h
      rcases H with ⟨hphase', _⟩ | ⟨_, hrest⟩
      · rw [hphase] at hphase'
        cases hphase'
      · exact Or.inr ⟨by simp, hrest⟩

theorem After.meets (hfirst : first.length ≤ 1) (H : After dev left first s) :
    Meets (step dev) (PacketFirst dev) s ls := by
  refine meets_of_invariant (fun s l t H h => ⟨?_, H.of_step hfirst h⟩) H
  cases l with
  | receiver r =>
      obtain ⟨hallows, u, hu, _⟩ := step_receiver.mp h
      have hr := H.ne_receive hallows hu
      cases r with
      | receive => exact absurd rfl hr
      | _ => trivial
  | _ => trivial

/-- The host's first packet stays long enough. -/
theorem head?_written_long {r : Receiver.Label} {u : Receiver} (hallows : s.allows r)
    (hu : Receiver.step dev s.receiver r = some u)
    (hlong : ∀ content, s.receiver.written.head? = some content → 16 ≤ content.length) :
    ∀ content, u.written.head? = some content → 16 ≤ content.length := by
  cases r with
  | receive =>
      obtain ⟨_, rfl⟩ := Receiver.step_receive.mp hu
      rwa [(Receiver.receivePop_returned _).1]
  | signal =>
      obtain ⟨_, _, rfl⟩ := Receiver.step_signal.mp hu
      exact hlong
  | wait =>
      obtain ⟨_, _, rfl⟩ := Receiver.step_wait.mp hu
      exact hlong
  | deliver =>
      obtain ⟨_, rfl⟩ := Receiver.step_deliver.mp hu
      exact hlong
  | put p =>
      obtain ⟨m, _, rfl⟩ := Receiver.step_put.mp hu
      intro content hhead
      cases hwritten : s.receiver.written with
      | nil =>
          simp only [hwritten, List.nil_append, List.head?_cons, Option.some.injEq] at hhead
          simpa [allows, hwritten, hhead] using hallows
      | cons c cs =>
          simp only [hwritten, List.cons_append, List.head?_cons] at hhead
          exact hlong content (by rw [hwritten, List.head?_cons, hhead])

/-- The call meets the condition and pops the first packet, or pops one that was left, or
none. -/
theorem Initial.of_receive {u : Receiver} (H : Initial dev left s)
    (hu : Receiver.step dev s.receiver .receive = some u) :
    (PacketFirst dev s (.receiver .receive) ∧ left = [] ∧ ∃ content : List UInt8,
      16 ≤ content.length ∧ After dev [] [content] { s with receiver := u }) ∨
    (¬ PacketFirst dev s (.receiver .receive) ∧ ∃ first rest, left = first ++ rest ∧
      first.length ≤ 1 ∧ After dev left first { s with receiver := u }) := by
  have hcontents := H.before.incomingContents_eq
  rcases H.before.of_receive hu with ⟨hnone, hreturns, hqueued⟩ |
    ⟨content, rest, hsome, hreturns, hqueued⟩
  · rw [hnone, eq_comm, List.append_eq_nil_iff] at hcontents
    obtain ⟨rfl, hwritten⟩ := hcontents
    exact Or.inr ⟨fun hpacket => hpacket.1 hwritten, [], [], rfl, Nat.zero_le 1,
      Or.inl ⟨H.starting, H.sent, hreturns, hqueued⟩⟩
  · rw [hsome] at hcontents
    cases left with
    | nil =>
        have hpacket : PacketFirst dev s (.receiver .receive) := by
          refine ⟨?_, ?_⟩
          · rw [← List.nil_append s.receiver.written, ← hcontents]
            exact List.cons_ne_nil content rest
          · rw [hsome, hcontents, List.nil_append]
        refine Or.inl ⟨hpacket, rfl, content, H.long content ?_,
          Or.inl ⟨H.starting, H.sent, hreturns, hqueued⟩⟩
        rw [← List.nil_append s.receiver.written, ← hcontents]
        rfl
    | cons c cs =>
        rw [List.cons_append, List.cons.injEq] at hcontents
        obtain ⟨rfl, hrest⟩ := hcontents
        refine Or.inr ⟨fun hpacket => ?_, [content], cs, rfl, le_rfl,
          Or.inl ⟨H.starting, H.sent, hreturns, hqueued⟩⟩
        -- The ring holds more than what was written.
        have hlength := congrArg List.length (hsome.symm.trans hpacket.2)
        rw [hrest, List.length_cons, List.length_append] at hlength
        omega

/-- The step up to which nothing is handed over. -/
theorem Initial.of_step (H : Initial dev left s) (h : step dev s l = some t) :
    (PacketFirst dev s l ∧ (Initial dev left t ∨
      left = [] ∧ ∃ content : List UInt8, 16 ≤ content.length ∧ After dev [] [content] t)) ∨
    (¬ PacketFirst dev s l ∧ ∃ first rest, left = first ++ rest ∧ first.length ≤ 1 ∧
      After dev left first t) := by
  cases l with
  | receiver r =>
      obtain ⟨hallows, u, hu, rfl⟩ := step_receiver.mp h
      by_cases hr : r = .receive
      · subst hr
        exact (H.of_receive hu).imp_left fun hcall => ⟨hcall.1, Or.inr hcall.2⟩
      · refine Or.inl ⟨?_, Or.inl ⟨H.starting, H.sent, H.before.of_step hr hu,
          head?_written_long hallows hu H.long⟩⟩
        cases r with
        | receive => exact absurd rfl hr
        | _ => trivial
  | patch =>
      obtain ⟨_, r, hret, _⟩ := step_patch.mp h
      rw [H.before.returned] at hret
      cases hret
  | relay throws =>
      obtain ⟨hphase, _⟩ := step_relay.mp h
      rw [H.starting] at hphase
      cases hphase
  | stop =>
      obtain ⟨hphase, _⟩ := step_stop.mp h
      rw [H.starting] at hphase
      cases hphase

/-! ### `Out` at the end of the data area -/

theorem Stuck.receiver {r : Receiver.Label} {u : Receiver} (H : Stuck dev s)
    (hu : Receiver.step dev s.receiver r = some u) : Stuck dev { s with receiver := u } := by
  obtain ⟨⟨ps, hring⟩, hout, hsent, hpc, hreturned⟩ := H
  cases r with
  | receive =>
      obtain ⟨hidle, rfl⟩ := Receiver.step_receive.mp hu
      cases ps with
      | nil =>
          rw [Receiver.receivePop_nil hring]
          exact ⟨⟨[], hring⟩, hout, hsent, nofun, hreturned⟩
      | cons p ps =>
          rw [Receiver.receivePop_end hring hout]
          exact ⟨⟨p :: ps, hring⟩, hout, hsent, hpc,
            List.forall_mem_append.mpr ⟨hreturned, List.forall_mem_singleton.mpr rfl⟩⟩
  | signal =>
      obtain ⟨content, hpc', _⟩ := Receiver.step_signal.mp hu
      exact absurd hpc' (hpc content)
  | wait =>
      obtain ⟨_, _, rfl⟩ := Receiver.step_wait.mp hu
      exact ⟨⟨ps, hring⟩, hout, hsent, nofun,
        List.forall_mem_append.mpr ⟨hreturned, List.forall_mem_singleton.mpr rfl⟩⟩
  | deliver =>
      obtain ⟨_, rfl⟩ := Receiver.step_deliver.mp hu
      refine ⟨⟨ps, ?_⟩, ?_, hsent, hpc, hreturned⟩
      · rw [Receiver.channelCallback_eq]
        exact hring.interruptControl
      · rwa [Receiver.channelCallback_eq, incoming_interruptControl]
  | put p =>
      obtain ⟨m, hput, rfl⟩ := Receiver.step_put.mp hu
      refine ⟨⟨_, hring.put hput⟩, ?_, hsent, hpc, hreturned⟩
      rwa [(putEffect_of_hostPut hput).2.out_eq]

/-- Then nothing is ever handed over. -/
theorem Stuck.of_step (H : Stuck dev s) (h : step dev s l = some t) : Stuck dev t := by
  cases l with
  | receiver r =>
      obtain ⟨_, u, hu, rfl⟩ := step_receiver.mp h
      exact H.receiver hu
  | patch =>
      obtain ⟨_, r, hret, rfl⟩ := step_patch.mp h
      refine ⟨H.ring, H.out_eq, ?_, H.pc, H.returned⟩
      rw [H.sent, H.returned r (List.mem_of_mem_head? hret), List.nil_append]
  | relay throws =>
      obtain ⟨_, rfl⟩ := step_relay.mp h
      obtain ⟨⟨ps, hring⟩, hout, hsent, hpc, hreturned⟩ := H
      cases ps with
      | nil =>
          rw [Session.relayPop, Act.handle_ok (run_popPipePacket_none hring.pop_nil)]
          exact ⟨⟨[], hring⟩, hout, hsent, hpc, hreturned⟩
      | cons p ps =>
          rw [Session.relayPop, Act.handle_error (run_popPipePacket_error (hring.pop_end hout))]
          exact ⟨⟨p :: ps, hring⟩, hout, hsent, hpc, hreturned⟩
  | stop =>
      obtain ⟨_, rfl⟩ := step_stop.mp h
      exact ⟨H.ring, H.out_eq, H.sent, H.pc, H.returned⟩

/-! ### Runs -/

theorem step_receiver_of {r u : Receiver} {q : Receiver.Label} (phase : Phase)
    (sent : List (List UInt8)) (hallows : (⟨r, phase, sent⟩ : Session).allows q)
    (h : Receiver.step dev r q = some u) :
    step dev ⟨r, phase, sent⟩ (.receiver q) = some ⟨u, phase, sent⟩ :=
  step_receiver.mpr ⟨hallows, u, h, rfl⟩

end Session

end HvGin
