import HvGin.Host
import HvGin.Lib.Exec

/-!
# The relay from VMBus to TCP

The loop pops a packet and sends its content to the RDP socket. The socket does not
block: a send accepts as many bytes as there is room for and returns their number. The
loop does not look at that number, and the packet is gone from the ring by then, so what
a send leaves over is lost. `intact_iff_acceptsWhole` shows that the relay preserves the stream as
long as, and only as long as, every send is accepted whole.
-/
namespace HvGin

open Lib

namespace Vmbus2Tcp

/-- Where the thread stands in an iteration of its loop. -/
inductive Pc
  | top
  /-- `ReceiveContent` is about to be sent. -/
  | sending (content : List UInt8)
  | ended

/-- The bytes popped and not yet given to the socket. -/
def Pc.inHand : Pc → List UInt8
  | .sending content => content
  | _ => []

end Vmbus2Tcp

/-- The mapping and the thread, with the contents that `PopPipePacket` has returned and
the bytes that the socket has accepted from the loop so far. -/
structure Vmbus2Tcp where
  mapping : Mapping
  pc : Vmbus2Tcp.Pc
  popped : List (List UInt8)
  accepted : List UInt8

namespace Vmbus2Tcp

inductive Label
  | pop
  /-- `RdpServerSocket.Send` accepts this many bytes. -/
  | send (count : ℕ)
  /-- `RdpServerSocket.Send` throws. -/
  | sendThrows
  /-- `ShouldRunning` is false. -/
  | leave
  /-- Anyone else changes the mapping. -/
  | environment (m : Mapping)

variable (dev : UioHvDevice)

def start (m : Mapping) : Vmbus2Tcp := ⟨m, .top, [], []⟩

/-- `DataChannel.PopPipePacket()`; an exception ends the loop, and an empty array is not
sent. -/
def popContent (s : Vmbus2Tcp) : Vmbus2Tcp :=
  (popPipePacket dev).handle s.mapping
    (fun content m => { s with
      mapping := m
      pc := if content.length ≠ 0 then .sending content else .top
      popped := s.popped ++ [content] })
    (fun _ m => { s with mapping := m, pc := .ended })

def step (s : Vmbus2Tcp) (l : Label) : Option Vmbus2Tcp :=
  match l, s.pc with
  | .pop, .top => some (popContent dev s)
  | .send count, .sending content =>
      if count ≤ content.length then
        some { s with pc := .top, accepted := s.accepted ++ content.take count }
      else none
  | .sendThrows, .sending _ => some { s with pc := .ended }
  | .leave, .top => some { s with pc := .ended }
  | .environment m, _ => some { s with mapping := m }
  | _, _ => none

/-- Until the loop has ended, the bytes accepted are those popped, less those in hand. -/
def Intact (s : Vmbus2Tcp) : Prop :=
  s.pc ≠ .ended → s.accepted ++ s.pc.inHand = s.popped.flatten

/-- A send is accepted whole. -/
def AcceptsWhole (s : Vmbus2Tcp) : Label → Prop
  | .send count => s.pc.inHand.length ≤ count
  | _ => True

variable {dev} {s t : Vmbus2Tcp} {l : Label}

theorem step_send {count : ℕ} : step dev s (.send count) = some t ↔
    ∃ content, s.pc = .sending content ∧ count ≤ content.length ∧
      t = { s with pc := .top, accepted := s.accepted ++ content.take count } := by
  cases hpc : s.pc <;> simp [step, hpc, eq_comm]

theorem step_environment {m : Mapping} :
    step dev s (.environment m) = some t ↔ { s with mapping := m } = t := by
  change some _ = some t ↔ _
  rw [Option.some.injEq]

/-- A pop adds its content to what is in hand. -/
theorem Intact.popContent (H : Intact s) (hpc : s.pc = .top) : Intact (popContent dev s) := by
  have hbytes := H (by simp [hpc])
  rw [hpc] at hbytes
  have hgive : ∀ (content : List UInt8) (m : Mapping), Intact { s with
      mapping := m
      pc := if content.length ≠ 0 then .sending content else .top
      popped := s.popped ++ [content] } := by
    intro content m _
    simp only [List.flatten_append, List.flatten_singleton, ← hbytes]
    rcases content with _ | ⟨b, bs⟩ <;> simp [Pc.inHand]
  rcases popCopy_cases dev s.mapping with ⟨content, finalOffset, h⟩ | h | ⟨e, h⟩
  · rw [Vmbus2Tcp.popContent, Act.handle_ok (run_popPipePacket_consumes h)]
    exact hgive content _
  · rw [Vmbus2Tcp.popContent, Act.handle_ok (run_popPipePacket_none h)]
    exact hgive [] _
  · rw [Vmbus2Tcp.popContent, Act.handle_error (run_popPipePacket_error h)]
    exact fun hrunning => absurd rfl hrunning

/-- A step that meets the condition keeps the stream intact. -/
theorem Intact.step (H : Intact s) (hwhole : AcceptsWhole s l) (h : step dev s l = some t) :
    Intact t := by
  cases l with
  | pop =>
      cases hpc : s.pc <;> simp [Vmbus2Tcp.step, hpc] at h
      subst h
      exact H.popContent hpc
  | send count =>
      obtain ⟨content, hpc, hcount, rfl⟩ := step_send.mp h
      have hbytes := H (by simp [hpc])
      rw [AcceptsWhole, hpc] at hwhole
      rw [hpc] at hbytes
      rw [List.take_of_length_le (show content.length ≤ count from hwhole)]
      exact fun _ => by simpa [Pc.inHand] using hbytes
  | sendThrows =>
      cases hpc : s.pc <;> simp [Vmbus2Tcp.step, hpc] at h
      subst h
      exact fun hrunning => absurd rfl hrunning
  | leave =>
      cases hpc : s.pc <;> simp [Vmbus2Tcp.step, hpc] at h
      subst h
      exact fun hrunning => absurd rfl hrunning
  | environment m =>
      obtain rfl := step_environment.mp h
      exact H

/-- What a send leaves over is lost. -/
theorem Intact.not_step (H : Intact s) (hshort : ¬ AcceptsWhole s l)
    (h : Vmbus2Tcp.step dev s l = some t) : ¬ Intact t := by
  cases l with
  | send count =>
      obtain ⟨content, hpc, hcount, rfl⟩ := step_send.mp h
      have hbytes := H (by simp [hpc])
      rw [AcceptsWhole, hpc] at hshort
      rw [hpc] at hbytes
      intro H'
      have hlength := congrArg List.length ((H' (by simp)).trans hbytes.symm)
      simp only [Pc.inHand, List.append_nil, List.length_append, List.length_take] at hlength hshort
      omega
  | _ => exact absurd trivial hshort

/-- **The relay to TCP.** Whatever else happens to the mapping, in a run the bytes accepted
by the socket are those of the contents popped until the loop ends, if and only if every
send of the run is accepted whole. -/
theorem intact_iff_acceptsWhole (dev : UioHvDevice) (m : Mapping) (ls : List Label) :
    Always (step dev) Intact (start m) ls ↔ Meets (step dev) AcceptsWhole (start m) ls :=
  always_iff_of_invariant (fun _ => id) (fun _ _ _ => Intact.step)
    (fun _ _ _ => Intact.not_step) fun _ => rfl

/-- A packet of seventeen bytes of which the socket accepts one. -/
theorem not_intact_send : ¬ Always (step .defaultRings) Intact
    (start ((hostPut .defaultRings (fun _ => 0) (.zeros 17 (by decide))).getD fun _ => 0))
    [.pop, .send 1] := by
  have hring : IncomingRing .defaultRings (fun _ => 0) [] := .empty rfl rfl
  obtain ⟨m, hput⟩ := hring.exists_put (p := .zeros 17 (by norm_num)) (by decide)
  rw [hput, Option.getD_some]
  have hpop := run_popPipePacket_consumes ((hring.put hput).pop (by
    rw [(putEffect_of_hostPut hput).2.out_eq]
    decide))
  have h₁ : step .defaultRings (start m) .pop = some (popContent .defaultRings (start m)) := rfl
  rw [popContent, Act.handle_ok (s := (start m).mapping) hpop, if_pos (by decide)] at h₁
  generalize popStore _ _ m = m' at h₁
  have h₂ : step .defaultRings ⟨m', .sending (List.replicate 17 0), [List.replicate 17 0], []⟩
      (.send 1) = some ⟨m', .top, [List.replicate 17 0], [0]⟩ :=
    step_send.mpr ⟨_, rfl, by decide, rfl⟩
  rintro ⟨_, H⟩
  have hbytes : [0] ++ [] = [List.replicate 17 (0 : UInt8)].flatten :=
    ((H _ h₁).2 _ h₂).here (by simp)
  exact absurd hbytes (by decide)

end Vmbus2Tcp

end HvGin
