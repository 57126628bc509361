import HvGin.FirstReceive

/-!
# The version exchange

`ServiceMain` decodes what its one call of `Receive` returns as the host's version
response. `exchangeVersion` is what it makes of the result.

The array that `Receive` returns after a wait is empty, whatever has arrived meanwhile.
The exchange therefore succeeds exactly when the response is in the ring before
`Receive` looks: a host that answers later is taken for one that does not accept.
-/
namespace HvGin

open Lib

/-! ## The response -/

structure SynthRdpVersionResponse where
  rawType : UInt32
  size : UInt32
  version : UInt32
  reserved : UInt32
  isAccepted : UInt8
  deriving DecidableEq, Repr

namespace SynthRdpVersionResponse

/-- `Marshal.SizeOf<SynthRdpVersionResponse>()`. -/
def structureSize : ℕ := 17

/-- The layout of the structure, with packing `1`. -/
def ofBytes (bytes : List UInt8) : SynthRdpVersionResponse where
  rawType := .ofNat (field bytes 0 4)
  size := .ofNat (field bytes 4 4)
  version := .ofNat (field bytes 8 4)
  reserved := .ofNat (field bytes 12 4)
  isAccepted := .ofNat (field bytes 16 1)

def isAcceptedWithVersionExchange (r : SynthRdpVersionResponse) : Bool := r.isAccepted = 2

end SynthRdpVersionResponse

/-- The bytes start with a complete response that accepts. -/
def Accepting (bytes : List UInt8) : Prop :=
  SynthRdpVersionResponse.structureSize ≤ bytes.length ∧
    (SynthRdpVersionResponse.ofBytes bytes).isAccepted = 2

/-- The version exchange of `ServiceMain`, from the result of `Device.Receive()`. -/
def exchangeVersion (received : Except Exn (List UInt8)) : Except Exn PUnit := do
  let bytes ← received
  let response ← bytesToStructure SynthRdpVersionResponse.structureSize
    SynthRdpVersionResponse.ofBytes bytes
  if !response.isAcceptedWithVersionExchange then
    .error (.exception "SynthRdpVersionResponse Invalid")
  else .ok ⟨⟩

theorem exchangeVersion_eq_ok {bytes : List UInt8} :
    exchangeVersion (.ok bytes) = .ok ⟨⟩ ↔ Accepting bytes := by
  rw [exchangeVersion, ok_bind, Accepting]
  by_cases h : bytes.length < SynthRdpVersionResponse.structureSize
  · rw [bytesToStructure, if_pos h, error_bind]
    simp only [reduceCtorEq, false_iff]
    omega
  · rw [not_lt] at h
    rw [bytesToStructure_of_le h, ok_bind]
    simp [SynthRdpVersionResponse.isAcceptedWithVersionExchange, h]

theorem exchangeVersion_nil : exchangeVersion (.ok []) = .error .shortStructure := rfl

namespace Receiver

variable {dev : UioHvDevice} {m : Mapping} {event : UInt32}

/-- The version exchange, once `Receive` has returned for the first time. -/
def exchanged (s : Receiver) : Option (Except Exn PUnit) :=
  s.returned.head?.map exchangeVersion

/-- **The version exchange.** From an empty ring with `Out` inside the data area: where
the host writes only responses that accept, the exchange succeeds if and only if one is
in the ring when `Receive` first looks; and it succeeds only on a complete response that
accepts, the first content the host wrote. -/
theorem exchanged_iff (dev : UioHvDevice) (m : Mapping) (event : UInt32)
    (hempty : (incoming dev m).In = (incoming dev m).Out)
    (hout : (incoming dev m).Out.toNat < dev.dataMaximumSize) (ls : List Label) (s : Receiver)
    (h : exec (step dev) (start m event) ls = some s) :
    ((∀ content ∈ s.written, Accepting content) → ∀ o, exchanged s = some o →
      (o = .ok ⟨⟩ ↔ Meets (step dev) (AnsweredFirst dev) (start m event) ls)) ∧
    (exchanged s = some (.ok ⟨⟩) → ∃ content, s.written.head? = some content ∧
      s.returned.head? = some (.ok content) ∧ Accepting content) := by
  have hbefore : Before dev [] (start m event) := before_start hempty hout
  constructor
  · intro hwritten o ho
    obtain ⟨r, hret, rfl⟩ := Option.map_eq_some_iff.mp ho
    rcases hbefore.returned_of_exec h hret with ⟨hlate, rfl⟩ | ⟨content, hfirst, hhead, rfl⟩
    · rw [exchangeVersion_nil]
      exact iff_of_false (by simp) hlate
    · exact iff_of_true
        (exchangeVersion_eq_ok.mpr (hwritten content (List.mem_of_mem_head? hhead))) hfirst
  · intro ho
    obtain ⟨r, hret, hr⟩ := Option.map_eq_some_iff.mp ho
    rcases hbefore.returned_of_exec h hret with ⟨_, rfl⟩ | ⟨content, _, hhead, rfl⟩
    · rw [exchangeVersion_nil] at hr
      cases hr
    · exact ⟨content, hhead, hret, exchangeVersion_eq_ok.mp hr⟩

/-! ## A fast and a slow host -/

/-- A response that accepts the version. -/
def response : PipePacket :=
  pushPacket [2, 0, 0, 0, 17, 0, 0, 0, 1, 0, 0, 0, 0, 0, 0, 0, 2] 0 (by decide)

/-- The host answers after `Receive` has looked: the exchange fails. -/
theorem exchanged_slow_host : ∃ s, exec (step .defaultRings) (start (fun _ => 0) 0)
    [.receive, .put response, .deliver, .wait] = some s ∧
      s.written = [response.content] ∧ (∀ content ∈ s.written, Accepting content) ∧
      exchanged s ≠ some (.ok ⟨⟩) := by
  have hring : IncomingRing .defaultRings (fun _ => 0) [] := .empty rfl rfl
  obtain ⟨m', _, _, m₂, h₁, h₂, h₃, h₄⟩ :=
    late_steps response 0 hring rfl (by decide)
  refine ⟨_, by rw [exec_cons h₁, exec_cons h₂, exec_cons h₃, exec_cons h₄, exec_nil], rfl, ?_, ?_⟩
  · simp only [List.mem_singleton, forall_eq]
    exact ⟨by decide, by decide⟩
  · simp [exchanged, exchangeVersion_nil]

/-- The host answers first: the exchange succeeds. -/
theorem exchanged_fast_host : ∃ s, exec (step .defaultRings) (start (fun _ => 0) 0)
    [.put response, .receive, .signal] = some s ∧ exchanged s = some (.ok ⟨⟩) := by
  have hring : IncomingRing .defaultRings (fun _ => 0) [] := .empty rfl rfl
  obtain ⟨m₁, m₂, m', hring₁, _, _, h₁, h₂, h₃⟩ :=
    early_steps response 0 hring (by decide) rfl (by decide) (by decide)
  have hexec : exec (step .defaultRings) (start (fun _ => 0) 0) [.put response, .receive, .signal] =
      some ⟨m', .idle, 1, 0, 0, [.ok response.content], [response.content]⟩ := by
    rw [exec_cons h₁, exec_cons h₂]
    exact exec_cons h₃
  refine ⟨_, hexec, ?_⟩
  have haccepting : ∀ content ∈ [response.content], Accepting content := by
    simp only [List.mem_singleton, forall_eq]
    exact ⟨by decide, by decide⟩
  have hiff := (exchanged_iff .defaultRings (fun _ => 0) 0 rfl (by decide) _ _ hexec).1
    haccepting _ rfl
  refine congrArg some (hiff.mpr ?_)
  rw [meets_cons h₁, meets_cons h₂, meets_cons h₃]
  refine ⟨trivial, fun _ => ?_, trivial, trivial⟩
  rw [hring₁.incomingContents_eq]
  simp

end Receiver

end HvGin
