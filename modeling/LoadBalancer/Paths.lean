/-! The paths of a labelled transition relation. A path grows at its end, as a history does, and the rule
below takes what holds of every history from what holds of one more label. -/

/-- The labels lead from `s` to the last state. -/
inductive LabelledPath {σ α : Type} (step : σ → α → σ → Prop) (s : σ) : List α → σ → Prop
  | nil : LabelledPath step s [] s
  | snoc {t u : σ} {as : List α} {a : α} (path : LabelledPath step s as t) (last : step t a u) :
      LabelledPath step s (as ++ [a]) u

namespace LabelledPath

variable {σ α : Type} {step : σ → α → σ → Prop} {s t : σ} {as : List α}

/-- What one more label preserves holds of every history and the state it leads to. -/
theorem history_invariant (P : List α → σ → Prop) (hstart : P [] s)
    (hstep : ∀ as t a u, P as t → step t a u → P (as ++ [a]) u) (path : LabelledPath step s as t) : P as t := by
  induction path with
  | nil => exact hstart
  | snoc _ last ih => exact hstep _ _ _ _ ih last

end LabelledPath
