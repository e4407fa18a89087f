/-
  FuseNt.Lib.Simulation

  One transition system in terms of another.

  A simulation relates the states of a program to those of its specification,
  so that the specification can follow every step of the program with a step of
  the same label.  What the program shows in a run, the labels, is then what the
  specification shows in a run.
-/

import FuseNt.Lib.Run

namespace FuseNt.Lib

/-- The labels of a trace. -/
def labels {σ ℓ : Type _} (tr : List (σ × ℓ)) : List ℓ := tr.map Prod.snd

section Simulation

variable {σ α ℓ : Type _} {step : σ → ℓ → σ → Prop} {spec : α → ℓ → α → Prop} {R : σ → α → Prop}

/-- `R` relates the starts, and the specification follows the steps whose label
    meets `ok`. -/
structure Simulates (step : σ → ℓ → σ → Prop) (spec : α → ℓ → α → Prop) (ok : ℓ → Prop)
    (R : σ → α → Prop) (s₀ : σ) (a₀ : α) : Prop where
  start : R s₀ a₀
  follow : ∀ s a l s', R s a → ok l → step s l s' → ∃ a', spec a l a' ∧ R s' a'

/-- A run of the program is, to who sees its labels only, a run of the
    specification. -/
theorem Simulates.run {ok : ℓ → Prop} {s₀ s : σ} {a₀ : α} {tr : List (σ × ℓ)}
    (h : Simulates step spec ok R s₀ a₀) (hrun : Run step s₀ tr s) (hok : ∀ l ∈ labels tr, ok l) :
    ∃ tr' a, Run spec a₀ tr' a ∧ R s a ∧ labels tr' = labels tr := by
  induction hrun with
  | nil => exact ⟨[], a₀, .nil, h.start, rfl⟩
  | @snoc tr s s' l hr hs ih =>
      have hsplit : labels (tr ++ [(s, l)]) = labels tr ++ [l] := List.map_append
      rw [hsplit] at hok
      obtain ⟨tr', a, hspec, hR, hlabels⟩ := ih fun l hl => hok l (List.mem_append_left _ hl)
      obtain ⟨a', hstep, hR'⟩ := h.follow s a l s' hR
        (hok l (List.mem_append_right _ (List.mem_singleton_self l))) hs
      refine ⟨tr' ++ [(a, l)], a', hspec.snoc hstep, hR', ?_⟩
      rw [hsplit, ← hlabels]
      exact List.map_append

end Simulation

end FuseNt.Lib
