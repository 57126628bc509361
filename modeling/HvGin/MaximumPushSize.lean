import HvGin.Push

/-!
# The acceptance threshold

`GetMaximumPushSize` subtracts the two headers and the trailer from the writable size and
rounds down; `PushPipePacket` rounds content and headers up and adds the trailer. Below the
cap of 16384 bytes the result is exactly the longest content that the push accepts.
-/
namespace HvGin

open Lib

section

variable {dev : UioHvDevice} {m : Mapping} {content : Bytes} {n w : ℕ}

/-- A push returns exactly when its length field and the ring can hold the packet. -/
theorem push_returns_iff (content : Bytes) (hIn : (outgoing dev m).In.toNat ≤ dev.dataMaximumSize)
    (hOut : (outgoing dev m).Out.toNat ≤ dev.dataMaximumSize) :
    (∃ m', (pushPipePacket dev content).run m = (.ok ⟨⟩, m')) ↔
      24 + content.data.length ≤ 524280 ∧
        packetSize content.data.length ≤ writableSize dev (outgoing dev m) := by
  constructor
  · rintro ⟨m', hrun⟩
    obtain ⟨fits, hroom, _⟩ := pushEffect_of_run hIn hOut hrun
    exact ⟨fits, hroom⟩
  · rintro ⟨fits, hroom⟩
    obtain ⟨m', hrun, _⟩ := run_pushPipePacket hIn hOut fits hroom
    exact ⟨m', hrun⟩

/-- Rounding the room down is rounding the packet up. -/
theorem packetSize_le_iff (hn : 1 ≤ n) : packetSize n ≤ w ↔ n ≤ (w - 32) / 8 * 8 := by
  simp only [packetSize, alignUp8]
  omega

end

/-- **The acceptance threshold.** From indices up to the size of the data area,
`GetMaximumPushSize` gives a multiple of eight up to 16384. While the control block stays as
it is, a push of at least one byte returns if and only if it has at most that many, where the
result is below 16384; where it is 16384, a push of at most that many returns. -/
theorem maximumPushSize_exact (dev : UioHvDevice) (m : Mapping)
    (hIn : (outgoing dev m).In.toNat ≤ dev.dataMaximumSize)
    (hOut : (outgoing dev m).Out.toNat ≤ dev.dataMaximumSize) :
    ∃ M : ℕ, (getMaximumPushSize dev).run m = (.ok (M : ℤ), m) ∧ 8 ∣ M ∧ M ≤ 16384 ∧
      ∀ (m₁ : Mapping) (content : Bytes), outgoing dev m₁ = outgoing dev m →
        (M < 16384 → 1 ≤ content.data.length →
          ((∃ m', (pushPipePacket dev content).run m₁ = (.ok ⟨⟩, m')) ↔
            content.data.length ≤ M)) ∧
        (M = 16384 → content.data.length ≤ 16384 →
          ∃ m', (pushPipePacket dev content).run m₁ = (.ok ⟨⟩, m')) := by
  refine ⟨_, run_getMaximumPushSize hIn hOut, ?_, min_le_right _ _, fun m₁ content hsame => ?_⟩
  · simp only [maximumPushSize]
    omega
  have hreturns := push_returns_iff content (hsame ▸ hIn) (hsame ▸ hOut)
  rw [hsame] at hreturns
  rw [hreturns, maximumPushSize]
  constructor
  · intro hcap hpos
    rw [packetSize_le_iff hpos]
    omega
  · intro hcap hle
    refine ⟨by omega, ?_⟩
    simp only [packetSize, alignUp8]
    omega

/-- A ring of the default size with 56 bytes left. -/
def nearlyFull : Mapping := writeUInt32 0 2093000 fun _ => 0

theorem outgoing_nearlyFull : outgoing .defaultRings nearlyFull = ⟨2093000, 0, 0⟩ := by
  have hIn : (outgoing .defaultRings nearlyFull).In = 2093000 := readUInt32_writeUInt32 ..
  have hOut : (outgoing .defaultRings nearlyFull).Out = 0 :=
    readUInt32_writeUInt32_of_ne (.inr le_rfl)
  have hmask : (outgoing .defaultRings nearlyFull).InterruptMask = 0 :=
    readUInt32_writeUInt32_of_ne (.inr (by decide))
  generalize outgoing .defaultRings nearlyFull = cb at *
  obtain ⟨_, _, _⟩ := cb
  obtain ⟨rfl, rfl, rfl⟩ := And.intro hIn (And.intro hOut hmask)
  rfl

/-- In an empty ring a push of a whole buffer returns. In one with 56 bytes left the result is
24, and a push of 24 bytes returns and one of 25 does not. -/
theorem maximumPushSize_exact_nearlyFull :
    (∃ m', (pushPipePacket .defaultRings (.zeros 16384 (by decide))).run (fun _ => 0) =
      (.ok ⟨⟩, m')) ∧
    (getMaximumPushSize .defaultRings).run nearlyFull = (.ok 24, nearlyFull) ∧
    (∃ m', (pushPipePacket .defaultRings (.zeros 24 (by decide))).run nearlyFull =
      (.ok ⟨⟩, m')) ∧
    ¬ ∃ m', (pushPipePacket .defaultRings (.zeros 25 (by decide))).run nearlyFull =
      (.ok ⟨⟩, m') := by
  have hIn : (outgoing .defaultRings nearlyFull).In.toNat ≤
      UioHvDevice.defaultRings.dataMaximumSize := by
    rw [outgoing_nearlyFull]
    decide
  have hOut : (outgoing .defaultRings nearlyFull).Out.toNat ≤
      UioHvDevice.defaultRings.dataMaximumSize := by
    rw [outgoing_nearlyFull]
    decide
  obtain ⟨M, hrun, _, _, hpush⟩ := maximumPushSize_exact .defaultRings (fun _ => 0)
    (Nat.zero_le _) (Nat.zero_le _)
  obtain ⟨M', hrun', _, _, hpush'⟩ := maximumPushSize_exact .defaultRings nearlyFull hIn hOut
  have hM : (M : ℤ) = 16384 :=
    Except.ok.inj (Prod.mk.inj (hrun.symm.trans (run_getMaximumPushSize (Nat.zero_le _)
      (Nat.zero_le _)))).1
  have hM' : (M' : ℤ) = 24 := by
    have heval := run_getMaximumPushSize hIn hOut
    rw [outgoing_nearlyFull] at heval
    exact Except.ok.inj (Prod.mk.inj (hrun'.symm.trans heval)).1
  have hthreshold (content : Bytes) := (hpush' nearlyFull content rfl).1 (by omega)
  refine ⟨(hpush (fun _ => 0) (.zeros 16384 (by decide)) rfl).2 (by omega)
    (Bytes.length_zeros _ _).le, ?_, ?_, ?_⟩
  · rw [hrun', hM']
  · refine (hthreshold (.zeros 24 (by decide)) ?_).mpr ?_
    · rw [Bytes.length_zeros]
      omega
    · rw [Bytes.length_zeros]
      omega
  · rw [hthreshold (.zeros 25 (by decide)) (by rw [Bytes.length_zeros]; omega),
      Bytes.length_zeros]
    omega

end HvGin
