import Mathlib.Tactic.Ring
import Mathlib.Tactic.NormNum
import Mathlib.Data.List.Basic
import Mathlib.Data.Nat.ModEq
import Mathlib.Data.Int.ModEq

/-!
# Straight and circular windows of a store

A store is a function from addresses to cells. `slice` and `blit` read and write
a straight run of cells; `window` reads a run of cells modulo a capacity `D`, the
way a circular buffer is read. `Placed` says that one store is another with a
list written circularly at a position; it is what a writer that splits its copy
at the end of the buffer has to establish, and all a reader needs.

## Main definitions

* `slice s p n`, `blit s p xs` — straight read and write.
* `window s D p n` — `n` cells from `p`, modulo `D`.
* `distance D i o` — the number of cells from `o` up to `i`, modulo `D`.
* `Placed s t D p xs` — `t` is `s` with `xs` written at `p`, modulo `D`.
* `place s D p xs` — the store that a circular write leaves.
-/
namespace HvGin.Lib

variable {α : Type*}

/-! ## Straight runs -/

/-- The `n` cells from address `p` on. -/
def slice (s : ℕ → α) (p n : ℕ) : List α := (List.range n).map fun i => s (p + i)

/-- The store with `xs` written from address `p` on. -/
def blit (s : ℕ → α) (p : ℕ) (xs : List α) : ℕ → α := fun a =>
  if p ≤ a then xs[a - p]?.getD (s a) else s a

@[simp] theorem length_slice (s : ℕ → α) (p n : ℕ) : (slice s p n).length = n := by
  simp [slice]

@[simp] theorem getElem_slice (s : ℕ → α) (p n i : ℕ) (h : i < (slice s p n).length) :
    (slice s p n)[i] = s (p + i) := by simp [slice]

theorem blit_of_lt {s : ℕ → α} {p a : ℕ} {xs : List α} (h : a < p) : blit s p xs a = s a := by
  rw [blit, if_neg (by omega)]

theorem blit_of_ge {s : ℕ → α} {p a : ℕ} {xs : List α} (h : p + xs.length ≤ a) :
    blit s p xs a = s a := by
  rw [blit, if_pos (by omega), List.getElem?_eq_none (by omega), Option.getD_none]

theorem blit_add {s : ℕ → α} {p i : ℕ} {xs : List α} (h : i < xs.length) :
    blit s p xs (p + i) = xs[i] := by
  rw [blit, if_pos (by omega), Nat.add_sub_cancel_left, List.getElem?_eq_getElem h,
    Option.getD_some]

theorem blit_of_forall_ne {s : ℕ → α} {p a : ℕ} {xs : List α}
    (h : ∀ i, i < xs.length → p + i ≠ a) : blit s p xs a = s a := by
  by_cases hlt : a < p
  · exact blit_of_lt hlt
  · refine blit_of_ge ?_
    by_contra hend
    exact h (a - p) (by omega) (by omega)

/-- Moving the origin moves the write. -/
theorem blit_shift (s : ℕ → α) (b p a : ℕ) (xs : List α) :
    blit s (b + p) xs (b + a) = blit (fun i => s (b + i)) p xs a := by
  simp only [blit, Nat.add_le_add_iff_left, Nat.add_sub_add_left]

@[simp] theorem blit_nil (s : ℕ → α) (p : ℕ) : blit s p [] = s := by
  funext a
  simp [blit]

/-- A run read back right after it was written. -/
@[simp] theorem slice_blit_self (s : ℕ → α) (p : ℕ) (xs : List α) :
    slice (blit s p xs) p xs.length = xs := by
  refine List.ext_getElem (by simp) ?_
  intro i hi hx
  rw [getElem_slice, blit_add hx]

theorem slice_congr {s t : ℕ → α} {p n : ℕ} (h : ∀ i, i < n → s (p + i) = t (p + i)) :
    slice s p n = slice t p n := by
  refine List.map_congr_left fun i hi => h i (List.mem_range.mp hi)

/-- A write does not reach a run that ends before it or starts after it. -/
theorem slice_blit_of_disjoint {s : ℕ → α} {p q n : ℕ} {xs : List α}
    (h : q + n ≤ p ∨ p + xs.length ≤ q) : slice (blit s p xs) q n = slice s q n := by
  apply slice_congr
  intro i hi
  rcases h with h | h
  · exact blit_of_lt (by omega)
  · exact blit_of_ge (by omega)

/-! ## Circular runs -/

/-- The `n` cells from `p` on, modulo the capacity `D`. -/
def window (s : ℕ → α) (D p n : ℕ) : List α := (List.range n).map fun i => s ((p + i) % D)

@[simp] theorem length_window (s : ℕ → α) (D p n : ℕ) : (window s D p n).length = n := by
  simp [window]

@[simp] theorem getElem_window (s : ℕ → α) (D p n i : ℕ) (h : i < (window s D p n).length) :
    (window s D p n)[i] = s ((p + i) % D) := by simp [window]

theorem window_congr {s t : ℕ → α} {D p n : ℕ}
    (h : ∀ i, i < n → s ((p + i) % D) = t ((p + i) % D)) :
    window s D p n = window t D p n := by
  refine List.map_congr_left fun i hi => h i (List.mem_range.mp hi)

/-- Only the residue of the start matters. -/
theorem window_start_congr {s : ℕ → α} {D p q n : ℕ} (h : p % D = q % D) :
    window s D p n = window s D q n := by
  apply List.map_congr_left
  intro i _
  rw [Nat.add_mod p, Nat.add_mod q, h]

theorem window_mod (s : ℕ → α) (D p n : ℕ) : window s D (p % D) n = window s D p n :=
  window_start_congr (Nat.mod_mod p D)

theorem window_append (s : ℕ → α) (D p m n : ℕ) :
    window s D p (m + n) = window s D p m ++ window s D (p + m) n := by
  simp [window, List.range_add, Nat.add_assoc]

theorem take_window (s : ℕ → α) (D p n k : ℕ) (h : k ≤ n) :
    (window s D p n).take k = window s D p k := by
  obtain ⟨m, rfl⟩ := Nat.exists_eq_add_of_le h
  rw [window_append, List.take_left' (by simp)]

theorem take_window_min (s : ℕ → α) (D p n k : ℕ) :
    (window s D p n).take k = window s D p (min k n) := by
  rcases Nat.le_total k n with h | h
  · rw [take_window _ _ _ _ _ h, min_eq_left h]
  · rw [List.take_of_length_le (by rwa [length_window]), min_eq_right h]

theorem drop_window (s : ℕ → α) (D p n k : ℕ) (h : k ≤ n) :
    (window s D p n).drop k = window s D (p + k) (n - k) := by
  obtain ⟨m, rfl⟩ := Nat.exists_eq_add_of_le h
  rw [window_append, List.drop_left' (by simp), Nat.add_sub_cancel_left]

/-- A run that does not reach the end of the buffer is straight. -/
theorem window_eq_slice {s : ℕ → α} {D p n : ℕ} (h : p + n ≤ D) :
    window s D p n = slice s p n := by
  apply List.map_congr_left
  intro i hi
  rw [Nat.mod_eq_of_lt (by have := List.mem_range.mp hi; omega)]

/-- A run that passes the end of the buffer is two straight pieces. -/
theorem window_eq_slice_append {s : ℕ → α} {D p n : ℕ} (hp : p ≤ D) (h : D ≤ p + n)
    (hn : p + n ≤ 2 * D) :
    window s D p n = slice s p (D - p) ++ slice s 0 (n - (D - p)) := by
  obtain ⟨m, rfl⟩ : ∃ m, n = (D - p) + m := ⟨n - (D - p), by omega⟩
  rw [window_append, window_eq_slice (by omega), Nat.add_sub_cancel_left]
  congr 1
  rw [show p + (D - p) = D by omega, ← window_mod, Nat.mod_self]
  exact window_eq_slice (by omega)

/-- Distances below the capacity are told apart by their residues. -/
theorem add_mod_inj {D p i j : ℕ} (hi : i < D) (hj : j < D) (h : (p + i) % D = (p + j) % D) :
    i = j :=
  Nat.ModEq.eq_of_lt_of_lt (Nat.ModEq.add_left_cancel' p h) hi hj

/-- The number of cells from `o` up to `i`, modulo the capacity `D`. -/
def distance (D i o : ℕ) : ℕ := (((i : ℤ) - o) % D).toNat

theorem distance_eq {D i o r : ℕ} (hr : r < D) (h : i % D = (o + r) % D) :
    distance D i o = r := by
  have hmod : ((i : ℤ) - o) % D = (((o + r : ℕ) : ℤ) - o) % D := by
    rw [Int.sub_emod, ← Int.natCast_mod, h, Int.natCast_mod, ← Int.sub_emod]
  rw [distance, hmod, Nat.cast_add, add_sub_cancel_left, ← Int.natCast_mod, Nat.mod_eq_of_lt hr,
    Int.toNat_natCast]

theorem distance_lt {D : ℕ} (hD : 0 < D) (i o : ℕ) : distance D i o < D := by
  have hlo := Int.emod_nonneg ((i : ℤ) - o) (b := D) (by omega)
  have hhi := Int.emod_lt_of_pos ((i : ℤ) - o) (b := D) (by omega)
  simp only [distance]
  omega

theorem add_distance_mod {D : ℕ} (hD : 0 < D) (i o : ℕ) : (o + distance D i o) % D = i % D := by
  have hlo := Int.emod_nonneg ((i : ℤ) - o) (b := D) (by omega)
  have h : (((o + distance D i o : ℕ) : ℤ) % D) = (i : ℤ) % D := by
    rw [distance, Nat.cast_add, Int.toNat_of_nonneg hlo, Int.add_emod_emod]
    congr 1
    omega
  exact_mod_cast h

/-! ## Turning a circular store -/

/-- Turning two indices keeps their distance. -/
theorem distance_rotate {D i o : ℕ} (hD : 0 < D) (k : ℕ) :
    distance D ((i + k) % D) ((o + k) % D) = distance D i o := by
  refine distance_eq (distance_lt hD i o) ?_
  have h : (o + distance D i o + k) % D = (i + k) % D := by
    rw [Nat.add_mod, add_distance_mod hD, ← Nat.add_mod]
  rw [Nat.mod_mod, Nat.mod_add_mod, Nat.add_right_comm, h]

/-- Turning a store turns its windows. -/
theorem window_rotate {s t : ℕ → α} {D k p n : ℕ} (hD : 0 < D)
    (h : ∀ j < D, t ((j + k) % D) = s j) : window t D ((p + k) % D) n = window s D p n := by
  apply List.map_congr_left
  intro i _
  rw [← h _ (Nat.mod_lt (p + i) hD), Nat.mod_add_mod, Nat.mod_add_mod, Nat.add_right_comm]

/-! ## Circular writes -/

/-- `t` is `s` with `xs` written at `p` modulo `D`, as far as the buffer goes. -/
structure Placed (s t : ℕ → α) (D p : ℕ) (xs : List α) : Prop where
  inside : ∀ i (h : i < xs.length), t ((p + i) % D) = xs[i]
  outside : ∀ a, a < D → (∀ i, i < xs.length → (p + i) % D ≠ a) → t a = s a

namespace Placed

variable {s t : ℕ → α} {D p : ℕ} {xs : List α}

/-- What was written is read back. -/
theorem window_self (H : Placed s t D p xs) : window t D p xs.length = xs := by
  refine List.ext_getElem (by simp) ?_
  intro i hi hx
  rw [getElem_window, H.inside i hx]

/-- Cells in front of the written run, up to the capacity, keep their contents. -/
theorem window_before (H : Placed s t D p xs) {q r : ℕ} (hD : 0 < D)
    (hp : p % D = (q + r) % D) (hroom : r + xs.length ≤ D) :
    window t D q r = window s D q r := by
  refine window_congr fun i hi => H.outside _ (Nat.mod_lt _ hD) ?_
  intro j hj heq
  have hsame : (q + i) % D = (q + (r + j)) % D := by
    rw [← heq, Nat.add_mod, hp, ← Nat.add_mod, Nat.add_assoc]
  have := add_mod_inj (by omega) (by omega) hsame
  omega

/-- A run that ends by the end of the buffer is one straight write. -/
theorem of_blit (hp : p + xs.length ≤ D) : Placed s (blit s p xs) D p xs where
  inside := by
    intro i h
    rw [Nat.mod_eq_of_lt (by omega), blit_add h]
  outside := by
    intro a ha hout
    by_cases h : a < p
    · exact blit_of_lt h
    · refine blit_of_ge (Nat.le_of_not_lt fun hlt => hout (a - p) (by omega) ?_)
      rw [Nat.mod_eq_of_lt (by omega)]
      omega

/-- A run that passes the end is written in two pieces, the second from cell `0`. -/
theorem of_blit_blit {k : ℕ} (hk : k = D - p) (hp : p ≤ D) (hlen : xs.length ≤ D)
    (hwrap : D < p + xs.length) :
    Placed s (blit (blit s p (xs.take k)) 0 (xs.drop k)) D p xs where
  inside := by
    intro i h
    by_cases hik : i < k
    · have hmod : (p + i) % D = p + i := Nat.mod_eq_of_lt (by omega)
      rw [hmod, blit_of_ge (by simp only [List.length_drop]; omega),
        blit_add (by simp only [List.length_take]; omega), List.getElem_take]
    · have hmod : (p + i) % D = 0 + (i - k) := by
        rw [show p + i = (i - k) + D by omega, Nat.add_mod_right, Nat.mod_eq_of_lt (by omega)]
        omega
      rw [hmod, blit_add (by simp only [List.length_drop]; omega), List.getElem_drop]
      congr 1
      omega
  outside := by
    intro a ha hout
    have hlow : xs.length - k ≤ a := by
      refine Nat.le_of_not_lt fun hlt => hout (k + a) (by omega) ?_
      rw [show p + (k + a) = a + D by omega, Nat.add_mod_right, Nat.mod_eq_of_lt ha]
    have hhigh : a < p := by
      refine Nat.lt_of_not_le fun hle => hout (a - p) (by omega) ?_
      rw [Nat.mod_eq_of_lt (by omega)]
      omega
    rw [blit_of_ge (by simp only [List.length_drop]; omega), blit_of_lt hhigh]

end Placed

/-- The store with `xs` written at `p`, modulo `D`. -/
def place (s : ℕ → α) (D p : ℕ) (xs : List α) : ℕ → α := fun a =>
  if a < D then xs[distance D a p]?.getD (s a) else s a

theorem placed_place {s : ℕ → α} {D p : ℕ} {xs : List α} (hlen : xs.length ≤ D) :
    Placed s (place s D p xs) D p xs where
  inside := by
    intro i h
    have hi : distance D ((p + i) % D) p = i := distance_eq (by omega) (Nat.mod_mod _ _)
    rw [place, if_pos (Nat.mod_lt _ (by omega)), hi, List.getElem?_eq_getElem h, Option.getD_some]
  outside := by
    intro a ha hout
    have hmod := add_distance_mod (by omega : 0 < D) a p
    have hge : xs.length ≤ distance D a p := by
      refine Nat.le_of_not_lt fun hlt => hout _ hlt ?_
      rw [hmod, Nat.mod_eq_of_lt ha]
    rw [place, if_pos ha, List.getElem?_eq_none hge, Option.getD_none]

end HvGin.Lib
