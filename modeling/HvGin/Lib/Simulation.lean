import HvGin.Lib.Exec

/-!
# One system followed by another

A step of one system is matched by a few steps of another, maybe none. What is seen of a
label is a list, empty for the steps that only one of the two has. If every step is matched
by allowed steps and shows the same, so is every run.
-/
namespace HvGin.Lib

variable {σ τ ι κ ω : Type*} {step : σ → ι → Option σ} {step' : τ → κ → Option τ}
  {R : σ → τ → Prop} {ok : σ → ι → Prop} {allowed : κ → Prop} {seen : ι → List ω}
  {seen' : κ → List ω} {s t : σ} {u : τ} {ls : List ι}

/-- Where the steps that meet a condition are matched, a run that meets it is. -/
theorem exec_matched
    (hstep : ∀ s u l t, R s u → ok s l → step s l = some t →
      ∃ ks v, exec step' u ks = some v ∧ R t v ∧ (∀ k ∈ ks, allowed k) ∧
        ks.flatMap seen' = seen l)
    (hR : R s u) (hok : Meets step ok s ls) (h : exec step s ls = some t) :
    ∃ ks v, exec step' u ks = some v ∧ R t v ∧ (∀ k ∈ ks, allowed k) ∧
      ks.flatMap seen' = ls.flatMap seen := by
  induction ls generalizing s u with
  | nil =>
      cases h
      exact ⟨[], u, rfl, hR, by simp, rfl⟩
  | cons l ls ih =>
      obtain ⟨s', hs', hrest⟩ := Option.bind_eq_some_iff.mp h
      obtain ⟨hl, hls⟩ := hok s' hs'
      obtain ⟨ks, v, hks, hR', hall, hseen⟩ := hstep s u l s' hR hl hs'
      obtain ⟨ks', v', hks', hR'', hall', hseen'⟩ := ih hR' hls hrest
      refine ⟨ks ++ ks', v', by rw [exec_append ks' hks, hks'], hR'', ?_, ?_⟩
      · intro k hk
        exact (List.mem_append.mp hk).elim (hall k) (hall' k)
      · rw [List.flatMap_append, hseen, hseen', List.flatMap_cons]

end HvGin.Lib
