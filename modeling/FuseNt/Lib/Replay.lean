/-
  FuseNt.Lib.Replay

  Runs that are given by their labels.

  Where the steps of a transition system can be computed, a list of labels
  determines a run, and a condition that can be evaluated is checked along it.
-/

import FuseNt.Lib.Run

namespace FuseNt.Lib

variable {σ ℓ : Type _}

/-- Take the steps `ls`, each of which `ok` has to allow. -/
def replay (exec : σ → ℓ → Option σ) (ok : σ → ℓ → Bool) : σ → List ℓ → Option σ
  | s, [] => some s
  | s, l :: ls => if ok s l then (exec s l).bind fun s' => replay exec ok s' ls else none

variable {exec : σ → ℓ → Option σ} {ok : σ → ℓ → Bool} {step : σ → ℓ → σ → Prop}

/-- What was replayed extends a run by allowed steps. -/
theorem Run.replay (hexec : ∀ {s l s'}, exec s l = some s' → step s l s') {s₀ s s' : σ}
    {tr : List (σ × ℓ)} {ls : List ℓ} (hrun : Run step s₀ tr s)
    (hok : ∀ x ∈ tr, ok x.1 x.2 = true) (h : replay exec ok s ls = some s') :
    ∃ tr', Run step s₀ tr' s' ∧ ∀ x ∈ tr', ok x.1 x.2 = true := by
  induction ls generalizing s tr with
  | nil =>
      cases h
      exact ⟨tr, hrun, hok⟩
  | cons l ls ih =>
      rw [Lib.replay] at h
      split at h
      case isTrue hl =>
        obtain ⟨s₁, hs₁, hrest⟩ := Option.bind_eq_some_iff.mp h
        refine ih (hrun.snoc (hexec hs₁)) (fun x hx => ?_) hrest
        rcases List.mem_append.mp hx with hx | hx
        · exact hok x hx
        · rw [List.mem_singleton.mp hx]
          exact hl
      case isFalse => contradiction

end FuseNt.Lib
