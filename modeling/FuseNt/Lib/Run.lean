/-
  FuseNt.Lib.Run

  Runs of a labelled transition system.

  A run is kept with its trace: for every step, the state it was taken in and
  its label.  Conditions on the steps of a run are therefore conditions on the
  members of the trace.  `Run.always`, `Run.invariant` and `Run.good_iff` are
  the induction rules: what all steps preserve, what the steps that meet a
  condition preserve, and when a state property fails exactly at the steps
  that do not meet the condition.
-/

import Mathlib.Tactic

namespace FuseNt.Lib

/-- `Run step s₀ tr s`: from `s₀` the steps of `tr` lead to `s`. -/
inductive Run {σ ℓ : Type _} (step : σ → ℓ → σ → Prop) (s₀ : σ) : List (σ × ℓ) → σ → Prop
  | nil : Run step s₀ [] s₀
  | snoc {tr : List (σ × ℓ)} {s s' : σ} {l : ℓ} :
      Run step s₀ tr s → step s l s' → Run step s₀ (tr ++ [(s, l)]) s'

namespace Run

variable {σ ℓ : Type _} {step : σ → ℓ → σ → Prop} {s₀ s : σ} {tr : List (σ × ℓ)}

/-- A property that holds at the start and is preserved by every step that
    meets `ok` holds at the end of every run whose steps all meet `ok`. -/
theorem invariant {ok : σ → ℓ → Prop} {I : σ → Prop} (h0 : I s₀)
    (hstep : ∀ s l s', I s → ok s l → step s l s' → I s')
    (hrun : Run step s₀ tr s) (hok : ∀ x ∈ tr, ok x.1 x.2) : I s := by
  induction hrun with
  | nil => exact h0
  | snoc _ hs ih =>
      refine hstep _ _ _ (ih fun x hx => hok x (List.mem_append_left _ hx)) ?_ hs
      exact hok _ (List.mem_append_right _ (List.mem_singleton_self _))

/-- A property that holds at the start and is preserved by every step holds at
    the end of every run. -/
theorem always {I : σ → Prop} (h0 : I s₀) (hstep : ∀ s l s', I s → step s l s' → I s')
    (hrun : Run step s₀ tr s) : I s := by
  induction hrun with
  | nil => exact h0
  | snoc _ hs ih => exact hstep _ _ _ ih hs

/-- What all steps preserve holds wherever a step of a run was taken. -/
theorem always_mem {I : σ → Prop} (h0 : I s₀) (hstep : ∀ s l s', I s → step s l s' → I s')
    (hrun : Run step s₀ tr s) : ∀ x ∈ tr, I x.1 ∧ ∃ s', step x.1 x.2 s' := by
  induction hrun with
  | nil => simp
  | snoc hr hs ih =>
      intro x hx
      rcases List.mem_append.mp hx with hx | hx
      · exact ih x hx
      · rw [List.mem_singleton.mp hx]
        exact ⟨hr.always h0 hstep, _, hs⟩

/-- If the invariant `I` is kept by the steps that meet `ok` and gives `G`,
    and a step from `I` that does not meet `ok` loses `G`, then a run stays
    within `G` exactly when all its steps meet `ok`. -/
theorem good_iff {ok : σ → ℓ → Prop} {I G : σ → Prop} (h0 : I s₀) (hIG : ∀ s, I s → G s)
    (hstep : ∀ s l s', I s → ok s l → step s l s' → I s')
    (hbad : ∀ s l s', I s → ¬ ok s l → step s l s' → ¬ G s')
    (hrun : Run step s₀ tr s) :
    ((∀ x ∈ tr, G x.1) ∧ G s) ↔ ∀ x ∈ tr, ok x.1 x.2 := by
  induction hrun with
  | nil => simpa using hIG _ h0
  | @snoc tr s s' l hr hs ih =>
      constructor
      · rintro ⟨htr, hG'⟩
        have hpre := ih.mp ⟨fun x hx => htr x (List.mem_append_left _ hx),
          htr _ (List.mem_append_right _ (List.mem_singleton_self _))⟩
        have hI := invariant h0 hstep hr hpre
        have hl : ok s l := by
          by_contra hn
          exact hbad s l s' hI hn hs hG'
        intro x hx
        rcases List.mem_append.mp hx with hx | hx
        · exact hpre x hx
        · rw [List.mem_singleton.mp hx]
          exact hl
      · intro hok
        obtain ⟨htr, hG⟩ := ih.mpr fun x hx => hok x (List.mem_append_left _ hx)
        refine ⟨?_, hIG _ (invariant h0 hstep (hr.snoc hs) hok)⟩
        intro x hx
        rcases List.mem_append.mp hx with hx | hx
        · exact htr x hx
        · rw [List.mem_singleton.mp hx]
          exact hG

end Run

end FuseNt.Lib
