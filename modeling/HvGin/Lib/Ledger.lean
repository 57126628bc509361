import Mathlib.Data.Set.Insert
import Mathlib.Order.BooleanAlgebra.Set

/-!
# What is held

Code that sets up several things and takes them down again, and that takes down the first of
them when a later one fails, is right if it ends up holding what it means to and never gives
up what it does not hold. A ledger counts how often each thing is held and remembers whether
one was released that was not. `Holds S` says that exactly the members of `S` are held, once
each, and that nothing went wrong.
-/
namespace HvGin.Lib

variable {κ : Type*} [DecidableEq κ]

structure Ledger (κ : Type*) where
  held : κ → ℕ
  fault : Bool

namespace Ledger

def empty : Ledger κ := ⟨fun _ => 0, false⟩

def acquire (L : Ledger κ) (k : κ) : Ledger κ :=
  { L with held := Function.update L.held k (L.held k + 1) }

def release (L : Ledger κ) (k : κ) : Ledger κ :=
  if L.held k = 0 then { L with fault := true }
  else { L with held := Function.update L.held k (L.held k - 1) }

/-- Exactly these are held, once each. -/
structure Holds (L : Ledger κ) (S : Set κ) : Prop where
  held : ∀ k ∈ S, L.held k = 1
  free : ∀ k ∉ S, L.held k = 0
  faultless : L.fault = false

variable {L : Ledger κ} {S T : Set κ} {j k : κ}

omit [DecidableEq κ] in
theorem holds_empty : (empty : Ledger κ).Holds ∅ :=
  ⟨fun _ hk => absurd hk (Set.notMem_empty _), fun _ _ => rfl, rfl⟩

omit [DecidableEq κ] in
theorem Holds.congr (H : L.Holds S) (h : ∀ k, k ∈ T ↔ k ∈ S) : L.Holds T :=
  ⟨fun k hk => H.held k ((h k).mp hk), fun k hk => H.free k (mt (h k).mpr hk), H.faultless⟩

theorem held_acquire_self : (L.acquire k).held k = L.held k + 1 := Function.update_self ..

theorem held_acquire_of_ne (h : j ≠ k) : (L.acquire k).held j = L.held j :=
  Function.update_of_ne h ..

theorem Holds.acquire (H : L.Holds S) (hk : k ∉ S) : (L.acquire k).Holds (insert k S) where
  held := by
    intro j hj
    by_cases hjk : j = k
    · subst hjk
      rw [held_acquire_self, H.free j hk]
    · rw [held_acquire_of_ne hjk]
      exact H.held j (Set.mem_of_mem_insert_of_ne hj hjk)
  free := by
    intro j hj
    rw [Set.mem_insert_iff, not_or] at hj
    rw [held_acquire_of_ne hj.1]
    exact H.free j hj.2
  faultless := H.faultless

theorem Holds.release (H : L.Holds S) (hk : k ∈ S) : (L.release k).Holds (S \ {k}) := by
  have hheld := H.held k hk
  have hrelease : L.release k = { L with held := Function.update L.held k 0 } := by
    rw [Ledger.release, if_neg (by omega), hheld]
  rw [hrelease]
  constructor
  · intro j hj
    have hjk : j ≠ k := by simpa using hj.2
    exact (Function.update_of_ne hjk ..).trans (H.held j hj.1)
  · intro j hj
    by_cases hjk : j = k
    · subst hjk
      exact Function.update_self ..
    · exact (Function.update_of_ne hjk ..).trans (H.free j fun hS => hj ⟨hS, by simpa using hjk⟩)
  · exact H.faultless

theorem Holds.release_insert (H : L.Holds (insert k S)) (hk : k ∉ S) : (L.release k).Holds S :=
  Set.insert_sdiff_self_of_notMem hk ▸ H.release (Set.mem_insert k S)

end Ledger

end HvGin.Lib
