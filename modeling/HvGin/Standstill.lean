import HvGin.Bridge

/-!
# Where the relay comes to a standstill

A push that ends exactly at the end of the data area leaves `In` there. When the host has taken
everything, `Out` is at the start, and the writable size is `0`: the loop is told that it may
push nothing, and waits for the host to make room, which has nothing to take. Nothing is lost
and nothing throws, but no byte of the server gets to the host any more.

`standsStill_iff` says that from an empty ring of 48 bytes or more these are the only indices
from which the host never takes a byte again, whatever the others do.
`standsStill_zeros` is a run of the driver's rings that gets there.
-/
namespace HvGin

open Lib

namespace Bridge

variable (dev : UioHvDevice)

/-- The loop asks in vain. -/
structure StandsStill (s : Bridge) : Prop where
  idle : s.tcp2Vmbus = .top ∨ s.tcp2Vmbus = .ended none
  in_eq : (outgoing dev s.mapping).In.toNat = dev.dataMaximumSize
  out_eq : (outgoing dev s.mapping).Out.toNat = 0

/-- Nothing has come from the server, and nothing has gone to the host. -/
structure Unmoved (s t : Bridge) : Prop where
  received : t.received = s.received
  pushed : t.pushed = s.pushed
  taken : t.taken = s.taken

variable {dev} {s t u : Bridge} {l : Label}

theorem StandsStill.ring (H : StandsStill dev s) : OutgoingRing dev s.mapping [] where
  in_le := H.in_eq.le
  out_lt := by rw [H.out_eq]; exact dev.data_pos
  ring := .empty dev.data_pos (by rw [H.in_eq, H.out_eq, Nat.mod_self, Nat.zero_mod])

theorem StandsStill.sizePc_eq (H : StandsStill dev s) (available : ℕ) :
    Tcp2Vmbus.sizePc dev s.mapping available = .top := by
  have hspace : writableSize dev (outgoing dev s.mapping) = 0 := by
    rw [H.ring.writableSize_eq, if_pos ⟨H.in_eq, H.out_eq⟩]
  have hmax : maximumPushSize dev (outgoing dev s.mapping) = 0 := by
    rw [maximumPushSize, hspace]
    rfl
  rw [Tcp2Vmbus.sizePc, Act.handle_ok (run_getMaximumPushSize H.ring.in_le H.ring.out_lt.le), hmax,
    if_neg (by omega)]

/-- A step of the loop leaves it where it is, or ends it. -/
theorem StandsStill.eq_of_step (H : StandsStill dev s) {r : Tcp2Vmbus.Label} {v : Tcp2Vmbus}
    (hr : r ≠ .take) (h : Tcp2Vmbus.step dev s.fromTcp r = some v) :
    ∃ pc, (pc = .top ∨ pc = .ended none) ∧ v = { s.fromTcp with pc := pc } := by
  rcases H.idle with hpc | hpc
  · have hpc' : s.fromTcp.pc = .top := hpc
    cases r with
    | take => exact absurd rfl hr
    | size available =>
        refine ⟨.top, .inl rfl, ?_⟩
        simp only [Tcp2Vmbus.step, hpc', Option.some.injEq] at h
        rw [← h]
        exact congrArg (fun pc => { s.fromTcp with pc := pc }) (H.sizePc_eq available)
    | leave =>
        refine ⟨.ended none, .inr rfl, ?_⟩
        simpa [Tcp2Vmbus.step, hpc'] using h.symm
    | _ => simp [Tcp2Vmbus.step, hpc'] at h
  · have hpc' : s.fromTcp.pc = .ended none := hpc
    cases r with
    | take => exact absurd rfl hr
    | _ => simp [Tcp2Vmbus.step, hpc'] at h

/-- No step of anyone gets the loop away. -/
theorem StandsStill.step (H : StandsStill dev s) (hu : Unmoved u s) (h : step dev s l = some t) :
    StandsStill dev t ∧ Unmoved u t := by
  cases l with
  | take =>
      obtain ⟨r, htake, _⟩ := Option.map_eq_some_iff.mp h
      rw [H.ring.take_nil] at htake
      cases htake
  | tcp2Vmbus r =>
      obtain ⟨hr, v, hv, rfl⟩ := step_tcp2Vmbus h
      obtain ⟨pc, hpc, rfl⟩ := H.eq_of_step hr hv
      exact ⟨⟨hpc, H.in_eq, H.out_eq⟩, ⟨hu.received, hu.pushed, hu.taken⟩⟩
  | _ =>
      have B := FromTcp.beside_of_step h nofun nofun
      have hring := outgoing_congr B.mapping
      have hpc : t.tcp2Vmbus = s.tcp2Vmbus := congrArg Tcp2Vmbus.pc B.fromTcp
      have hreceived : t.received = s.received := congrArg Tcp2Vmbus.received B.fromTcp
      have hpushed : t.pushed = s.pushed := congrArg Tcp2Vmbus.pushed B.fromTcp
      refine ⟨⟨hpc ▸ H.idle, hring ▸ H.in_eq, hring ▸ H.out_eq⟩, ?_⟩
      exact ⟨hreceived.trans hu.received, hpushed.trans hu.pushed, B.taken.trans hu.taken⟩

/-- From other indices a byte of the server that is received, pushed and taken. -/
theorem exec_of_apart (hlarge : 48 ≤ dev.dataMaximumSize) (hpc : s.tcp2Vmbus = .top)
    (hring : OutgoingRing dev s.mapping [])
    (hapart : ¬ ((outgoing dev s.mapping).In.toNat = dev.dataMaximumSize ∧
      (outgoing dev s.mapping).Out.toNat = 0)) (content : Bytes) (hbyte : content.data.length = 1) :
    ∃ t, exec (Bridge.step dev) s ((Tcp2Vmbus.iteration content).map .tcp2Vmbus ++ [.take]) =
        some t ∧ t.taken = s.taken ++ [content.data] := by
  have hspace : writableSize dev (outgoing dev s.mapping) = dev.dataMaximumSize := by
    rw [hring.writableSize_eq, if_neg hapart, usedSize_nil, Nat.sub_zero]
  have hsize : packetSize content.data.length = 40 := by
    rw [hbyte]
    rfl
  have hfits : packetSize content.data.length ≤ writableSize dev (outgoing dev s.mapping) := by
    rw [hsize, hspace]
    omega
  obtain ⟨u, p, hiteration, _, _, _, hring', hcontent, _, _, _⟩ :=
    Tcp2Vmbus.exec_iteration (s := s.fromTcp) content hpc hring (by omega) (by omega)
      hfits (by rw [usedSize_nil, hsize]; omega)
  rw [List.nil_append] at hring'
  have hrun := exec_of_tcp2Vmbus (by simp [Tcp2Vmbus.iteration]) hiteration
  refine ⟨_, by rw [exec_append _ hrun, exec_cons (step_take (s := s.setFromTcp u) hring'),
    exec_nil], ?_⟩
  rw [← hcontent]
  rfl

/-- **Standstill.** From an empty ring and the top of the loop, the host never takes a byte of
the server in any run, if and only if `In` is at the end of the data area and `Out` at its
start. Then none is received or pushed either. -/
theorem standsStill_iff (dev : UioHvDevice) (s : Bridge) (hlarge : 48 ≤ dev.dataMaximumSize)
    (hpc : s.tcp2Vmbus = .top) (hring : OutgoingRing dev s.mapping []) :
    ((∀ ls, Always (step dev) (fun t => t.taken.flatten = s.taken.flatten) s ls) ↔
      (outgoing dev s.mapping).In.toNat = dev.dataMaximumSize ∧
        (outgoing dev s.mapping).Out.toNat = 0) ∧
    ((outgoing dev s.mapping).In.toNat = dev.dataMaximumSize ∧
        (outgoing dev s.mapping).Out.toNat = 0 →
      ∀ ls, Always (step dev) (Unmoved s) s ls) := by
  have hstill (hend : (outgoing dev s.mapping).In.toNat = dev.dataMaximumSize ∧
      (outgoing dev s.mapping).Out.toNat = 0) (ls : List Label) :
      Always (step dev) (Unmoved s) s ls := by
    have h₀ : StandsStill dev s ∧ Unmoved s s := ⟨⟨.inl hpc, hend.1, hend.2⟩, ⟨rfl, rfl, rfl⟩⟩
    have hrun : Always (step dev) (fun t => StandsStill dev t ∧ Unmoved s t) s ls :=
      always_of_invariant (fun _ _ _ H h => H.1.step H.2 h) h₀
    exact hrun.mono fun _ H => H.2
  refine ⟨⟨fun hforever => ?_, fun hend ls => ?_⟩, hstill⟩
  · by_contra hapart
    obtain ⟨t, hexec, htaken⟩ := exec_of_apart hlarge hpc hring hapart ⟨[0], by decide⟩ rfl
    have hnone := (hforever _).exec hexec
    rw [htaken] at hnone
    simp at hnone
  · exact (hstill hend ls).mono fun t H => congrArg List.flatten H.taken

/-! ## A run that gets there -/

/-- The loop and its host as part of the bridge. -/
def lift : Tcp2Vmbus.Label → Label
  | .take => .take
  | r => .tcp2Vmbus r

theorem step_lift {r : Tcp2Vmbus.Label} {v : Tcp2Vmbus}
    (h : Tcp2Vmbus.step dev s.fromTcp r = some v) :
    ∃ t, Bridge.step dev s (lift r) = some t ∧ t.fromTcp = v := by
  cases r with
  | take =>
      obtain ⟨⟨content, m⟩, htake, rfl⟩ : ∃ r, hostTake dev s.mapping = some r ∧
          { s.fromTcp with mapping := r.2 } = v := by
        cases hpc : s.fromTcp.pc <;> simpa [Tcp2Vmbus.step, hpc, fromTcp] using h
      exact ⟨_, Option.map_eq_some_iff.mpr ⟨_, htake, rfl⟩, rfl⟩
  | _ => exact ⟨s.setFromTcp v, step_of_tcp2Vmbus (by simp) h, rfl⟩

theorem exec_lift {ls : List Tcp2Vmbus.Label} {v : Tcp2Vmbus}
    (h : exec (Tcp2Vmbus.step dev) s.fromTcp ls = some v) :
    ∃ t, exec (Bridge.step dev) s (ls.map lift) = some t ∧ t.fromTcp = v := by
  induction ls generalizing s with
  | nil => exact ⟨s, rfl, Option.some.inj h⟩
  | cons r ls ih =>
      obtain ⟨w, hw, hv⟩ := Option.bind_eq_some_iff.mp h
      obtain ⟨t, ht, rfl⟩ := step_lift hw
      obtain ⟨t', ht', heq⟩ := ih hv
      exact ⟨t', by rw [List.map_cons, exec_cons ht, ht'], heq⟩

/-- Packets taken one by one up to the end of the data area. -/
theorem exec_fill {s : Tcp2Vmbus} {content : Bytes} (rounds : ℕ) (H : Tcp2Vmbus.EmptyAt dev s 0)
    (hpos : 0 < content.data.length) (hshort : content.data.length ≤ 16384)
    (hlarge : 32832 < dev.dataMaximumSize)
    (hend : (rounds + 1) * packetSize content.data.length = dev.dataMaximumSize) :
    ∃ ls t, exec (Tcp2Vmbus.step dev) s ls = some t ∧ t.pc = .top ∧
      OutgoingRing dev t.mapping [] ∧
      (outgoing dev t.mapping).In.toNat = dev.dataMaximumSize ∧
      (outgoing dev t.mapping).Out.toNat = 0 := by
  have hsize := packetSize_ge content.data.length
  rw [Nat.succ_mul] at hend
  obtain ⟨u, hrounds, hempty⟩ := H.exec_rounds hpos hshort rounds (by omega)
  have hfits := Tcp2Vmbus.packetSize_le hshort
  obtain ⟨v, p, hiteration, hpc, _, _, hring, _, hp, hout, hin⟩ :=
    Tcp2Vmbus.exec_iteration content hempty.top hempty.ring hpos hshort
      (by rw [hempty.writableSize_eq]; omega) (by rw [usedSize_nil]; omega)
  rw [List.nil_append] at hring
  rw [hempty.in_eq, Nat.zero_add, advance, if_neg (by omega), hend] at hin
  rw [← UInt32.toNat_inj, hempty.out_eq, Nat.zero_add] at hout
  refine ⟨(List.replicate rounds (Tcp2Vmbus.iteration content ++ [.take])).flatten ++
    (Tcp2Vmbus.iteration content ++ [.take]), { v with mapping := takePast dev v.mapping p.size },
    ?_, hpc, hring.takePast, ?_, ?_⟩
  · rw [exec_append _ hrounds, exec_append _ hiteration, exec_cons (Tcp2Vmbus.step_take hring),
      exec_nil]
  · rw [in_takePast, hin]
  · rw [out_takePast, hout, hp, hend, Nat.mod_self]

/-- In the rings of the driver, 128 packets of 16352 bytes. -/
theorem exists_fill : ∃ ls t, exec (Bridge.step .defaultRings) (start fun _ => 0) ls = some t ∧
    t.tcp2Vmbus = .top ∧ OutgoingRing .defaultRings t.mapping [] ∧
    (outgoing .defaultRings t.mapping).In.toNat = 2093056 ∧
    (outgoing .defaultRings t.mapping).Out.toNat = 0 := by
  have hempty : Tcp2Vmbus.EmptyAt .defaultRings (start fun _ => 0).fromTcp 0 :=
    ⟨rfl, .empty rfl rfl, rfl, rfl⟩
  have hlength : (Bytes.zeros 16320 (by decide)).data.length = 16320 := Bytes.length_zeros _ _
  obtain ⟨ls, v, hexec, hpc, hring, hin, hout⟩ := exec_fill 127 hempty
    (by rw [hlength]; omega) (by rw [hlength]; omega) (by decide) (by rw [hlength]; decide)
  obtain ⟨t, ht, rfl⟩ := exec_lift hexec
  exact ⟨_, t, ht, hpc, hring, hin, hout⟩

/-- After these packets the relay of the driver's rings stands still for good, whereas from the
same rings without a packet it does not. -/
theorem standsStill_zeros :
    (∃ ls t, exec (Bridge.step .defaultRings) (start fun _ => 0) ls = some t ∧
      ∀ ls', Always (Bridge.step .defaultRings) (Unmoved t) t ls') ∧
    ¬ ∀ ls, Always (Bridge.step .defaultRings) (fun t => t.taken.flatten = [])
      (start fun _ => 0) ls := by
  constructor
  · obtain ⟨ls, t, hexec, hpc, hring, hin, hout⟩ := exists_fill
    exact ⟨ls, t, hexec, (standsStill_iff .defaultRings t (by decide) hpc hring).2 ⟨hin, hout⟩⟩
  · have hiff := (standsStill_iff .defaultRings (start fun _ => 0) (by decide) rfl
      (.empty rfl rfl)).1
    refine mt hiff.mp fun hend => ?_
    have hzero : (outgoing .defaultRings (start fun _ => 0).mapping).In.toNat = 0 := rfl
    rw [hzero] at hend
    exact absurd hend.1 (by decide)

end Bridge

end HvGin
