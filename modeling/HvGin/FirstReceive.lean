import HvGin.Receive

/-!
# What the first call of `Receive` returns

`ServiceMain` calls `Receive` once on each channel and goes on from the array it returns.
That array is the first content the host wrote if its packet is in the ring when the call
looks, and empty otherwise: the wait at the end of the call returns nothing of what has
arrived meanwhile (`Before.returned_of_exec`).

A run falls into two parts. `Before` holds until the call, `Returns` from the call on.
-/
namespace HvGin.Receiver

open Lib

variable {dev : UioHvDevice} {m : Mapping} {event : UInt32} {s t : Receiver} {l : Label}
  {ls : List Label} {r : Except Exn (List UInt8)} {content : List UInt8}
  {left popped : List (List UInt8)}

variable (dev) in
/-- The first call of `Receive` finds a packet in the ring. -/
def AnsweredFirst (s : Receiver) : Label → Prop
  | .receive => s.returned = [] → incomingContents dev s.mapping ≠ []
  | _ => True

variable (dev) in
/-- The ring holds what was left in it and what the host has written, less the contents
popped. -/
def Queued (left popped : List (List UInt8)) (s : Receiver) : Prop :=
  ∃ ps, IncomingRing dev s.mapping ps ∧
    left ++ s.written = popped ++ ps.map PipePacket.content

variable (dev) in
/-- `Receive` has not been called. -/
structure Before (left : List (List UInt8)) (s : Receiver) : Prop where
  idle : s.pc = .idle
  returned : s.returned = []
  out_lt : (incoming dev s.mapping).Out.toNat < dev.dataMaximumSize
  queued : Queued dev left [] s

/-- From any packets in the ring, with `Out` inside the data area. -/
theorem before_start_of_ring {ps : List PipePacket} (hring : IncomingRing dev m ps)
    (hout : (incoming dev m).Out.toNat < dev.dataMaximumSize) :
    Before dev (ps.map PipePacket.content) (start m event) :=
  ⟨rfl, rfl, hout, ps, hring, by simp [start]⟩

/-- From an empty ring. -/
theorem before_start (hempty : (incoming dev m).In = (incoming dev m).Out)
    (hout : (incoming dev m).Out.toNat < dev.dataMaximumSize) :
    Before dev [] (start m event) := by
  have hring : IncomingRing dev m [] :=
    ⟨by rwa [hempty], hout.le, .empty dev.data_pos (by rw [hempty])⟩
  exact before_start_of_ring hring hout

/-- The host, the driver and `SignalHost` take nothing from the queue. -/
theorem Queued.of_step (H : Queued dev left popped s) (hl : l ≠ .receive)
    (h : step dev s l = some t) : Queued dev left popped t := by
  obtain ⟨ps, hring, hwritten⟩ := H
  cases l with
  | receive => exact absurd rfl hl
  | signal =>
      obtain ⟨_, _, rfl⟩ := step_signal.mp h
      refine ⟨ps, ?_, hwritten⟩
      rw [signalHost]
      exact hring.interruptControl
  | wait =>
      obtain ⟨_, _, rfl⟩ := step_wait.mp h
      exact ⟨ps, hring, hwritten⟩
  | deliver =>
      obtain ⟨_, rfl⟩ := step_deliver.mp h
      refine ⟨ps, ?_, hwritten⟩
      rw [channelCallback_eq]
      exact hring.interruptControl
  | put p =>
      obtain ⟨m, hput, rfl⟩ := step_put.mp h
      exact ⟨_, hring.put hput, by simp [← List.append_assoc, hwritten]⟩

/-- `Receive` has been called, and returns `content` or has returned it. -/
def Returns (content : List UInt8) (s : Receiver) : Prop :=
  s.returned = [] ∧ (s.pc = .signalling content ∨ content = [] ∧ s.pc = .waiting) ∨
    s.returned.head? = some (.ok content)

/-- Whatever happens, that content is what it returns. -/
theorem Returns.of_step (H : Returns content s) (h : step dev s l = some t) :
    Returns content t := by
  cases l with
  | receive =>
      obtain ⟨hpc, rfl⟩ := step_receive.mp h
      obtain ⟨_, rs, hrs⟩ := @receivePop_returned dev s
      rcases H with ⟨_, hpc' | ⟨_, hpc'⟩⟩ | hret
      · rw [hpc] at hpc'
        cases hpc'
      · rw [hpc] at hpc'
        cases hpc'
      · exact Or.inr (by rw [hrs, List.head?_append, hret, Option.some_or])
  | signal =>
      obtain ⟨c, hpc, rfl⟩ := step_signal.mp h
      rcases H with ⟨hret, hpc' | ⟨_, hpc'⟩⟩ | hret
      · rw [hpc] at hpc'
        cases hpc'
        exact Or.inr (by simp [hret])
      · rw [hpc] at hpc'
        cases hpc'
      · exact Or.inr (by simp [hret])
  | wait =>
      obtain ⟨hpc, _, rfl⟩ := step_wait.mp h
      rcases H with ⟨hret, hpc' | ⟨rfl, hpc'⟩⟩ | hret
      · rw [hpc] at hpc'
        cases hpc'
      · exact Or.inr (by simp [hret])
      · exact Or.inr (by simp [hret])
  | deliver =>
      obtain ⟨_, rfl⟩ := step_deliver.mp h
      exact H
  | put p =>
      obtain ⟨m, _, rfl⟩ := step_put.mp h
      exact H

/-- From then on no call of `Receive` is the first. -/
theorem Returns.meets (H : Returns content s) :
    Meets (step dev) (AnsweredFirst dev) s ls := by
  refine meets_of_invariant (fun s l t H h => ⟨?_, H.of_step h⟩) H
  cases l with
  | receive =>
      obtain ⟨hpc, _⟩ := step_receive.mp h
      intro hnil
      rcases H with ⟨_, hpc' | ⟨_, hpc'⟩⟩ | hret
      · rw [hpc] at hpc'
        cases hpc'
      · rw [hpc] at hpc'
        cases hpc'
      · rw [hnil] at hret
        cases hret
  | _ => trivial

/-- The contents the host has written are not taken back. -/
theorem head?_written_step (hhead : s.written.head? = some content) (h : step dev s l = some t) :
    t.written.head? = some content := by
  cases l with
  | receive =>
      obtain ⟨_, rfl⟩ := step_receive.mp h
      rw [(receivePop_returned s).1, hhead]
  | signal =>
      obtain ⟨_, _, rfl⟩ := step_signal.mp h
      exact hhead
  | wait =>
      obtain ⟨_, _, rfl⟩ := step_wait.mp h
      exact hhead
  | deliver =>
      obtain ⟨_, rfl⟩ := step_deliver.mp h
      exact hhead
  | put p =>
      obtain ⟨m, _, rfl⟩ := step_put.mp h
      exact by rw [List.head?_append, hhead, Option.some_or]

/-- Before the first call only the host and the driver move. -/
theorem Before.of_step (H : Before dev left s) (hl : l ≠ .receive) (h : step dev s l = some t) :
    Before dev left t := by
  have hqueued := H.queued.of_step hl h
  obtain ⟨hpc, hret, hout, _⟩ := H
  cases l with
  | receive => exact absurd rfl hl
  | signal =>
      obtain ⟨c, hpc', _⟩ := step_signal.mp h
      rw [hpc] at hpc'
      cases hpc'
  | wait =>
      obtain ⟨hpc', _⟩ := step_wait.mp h
      rw [hpc] at hpc'
      cases hpc'
  | deliver =>
      obtain ⟨_, rfl⟩ := step_deliver.mp h
      refine ⟨hpc, hret, ?_, hqueued⟩
      rwa [channelCallback_eq, incoming_interruptControl]
  | put p =>
      obtain ⟨m, hput, rfl⟩ := step_put.mp h
      refine ⟨hpc, hret, ?_, hqueued⟩
      rwa [(putEffect_of_hostPut hput).2.out_eq]

/-- The first call finds no packet and will return an empty array, or it pops the first
packet and will return its content. -/
theorem Before.of_receive (H : Before dev left s) (h : step dev s .receive = some t) :
    (incomingContents dev s.mapping = [] ∧ Returns [] t ∧ Queued dev left [] t) ∨
      ∃ content rest, incomingContents dev s.mapping = content :: rest ∧ Returns content t ∧
        Queued dev left [content] t := by
  obtain ⟨hpc, hret, hout, ps, hring, hwritten⟩ := H
  obtain ⟨_, rfl⟩ := step_receive.mp h
  rw [hring.incomingContents_eq]
  cases ps with
  | nil =>
      rw [receivePop_nil hring]
      exact Or.inl ⟨rfl, Or.inl ⟨hret, Or.inr ⟨rfl, rfl⟩⟩, [], hring, hwritten⟩
  | cons p ps =>
      obtain ⟨m, hring', _, _, heq⟩ := receivePop_cons hring hout
      rw [heq]
      refine Or.inr ⟨p.content, _, rfl, Or.inl ⟨hret, ?_⟩, ps, hring', hwritten⟩
      cases hcontent : p.content with
      | nil => exact Or.inr ⟨rfl, rfl⟩
      | cons b bs => exact Or.inl rfl

/-- What is in the ring before the call is what was left in it and what was written. -/
theorem Before.incomingContents_eq (H : Before dev left s) :
    incomingContents dev s.mapping = left ++ s.written := by
  obtain ⟨ps, hring, hwritten⟩ := H.queued
  rw [hring.incomingContents_eq, hwritten, List.nil_append]

theorem Queued.head?_written (H : Queued dev [] [content] s) :
    s.written.head? = some content := by
  obtain ⟨ps, _, hwritten⟩ := H
  rw [List.nil_append] at hwritten
  rw [hwritten]
  rfl

/-- What the first call has returned at the end of a run: the first content the host
wrote, if that was there when it looked, and an empty array otherwise. -/
theorem Before.returned_of_exec (H : Before dev [] s) (h : exec (step dev) s ls = some t)
    (hret : t.returned.head? = some r) :
    (¬ Meets (step dev) (AnsweredFirst dev) s ls ∧ r = .ok []) ∨
      ∃ content, Meets (step dev) (AnsweredFirst dev) s ls ∧
        t.written.head? = some content ∧ r = .ok content := by
  have hdone : ∀ {u ls content}, Returns content u → exec (step dev) u ls = some t →
      r = .ok content := by
    intro u ls content hu hexec
    rcases exec_invariant (fun _ _ _ => Returns.of_step) hu hexec with ⟨hnil, _⟩ | hhead
    · rw [hnil] at hret
      cases hret
    · rw [hhead] at hret
      exact (Option.some.inj hret).symm
  induction ls generalizing s with
  | nil =>
      cases h
      rw [H.returned] at hret
      cases hret
  | cons l ls ih =>
      obtain ⟨u, hu, hexec⟩ := Option.bind_eq_some_iff.mp h
      rw [meets_cons hu]
      by_cases hl : l = .receive
      · subst hl
        rcases H.of_receive hu with ⟨hnone, hreturns, _⟩ |
          ⟨content, rest, hfirst, hreturns, hqueued⟩
        · exact Or.inl ⟨fun hmeets => hmeets.1 H.returned hnone, hdone hreturns hexec⟩
        · have hhead' : t.written.head? = some content :=
            @exec_invariant _ _ (step dev) (fun s => s.written.head? = some content) _ _ _
              (fun _ _ _ => head?_written_step) hqueued.head?_written hexec
          have hanswered : AnsweredFirst dev s .receive := fun _ => by simp [hfirst]
          exact Or.inr ⟨content, ⟨hanswered, hreturns.meets⟩, hhead', hdone hreturns hexec⟩
      · have hother : AnsweredFirst dev s l := by
          cases l with
          | receive => exact absurd rfl hl
          | _ => trivial
        rw [and_iff_right hother]
        exact ih (H.of_step hl hu) hexec

end HvGin.Receiver
