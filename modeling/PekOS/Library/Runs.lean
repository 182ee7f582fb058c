import Mathlib.Data.List.Induction

/-! Runs of a labelled transition system, as lists of labels extended at the
end, and the induction rules for what holds along them. -/

namespace Labelled

variable {σ ε : Type}

inductive Run (step : σ → ε → σ → Prop) (s : σ) : List ε → σ → Prop
  | nil : Run step s [] s
  | snoc {es : List ε} {t u : σ} {e : ε} : Run step s es t → step t e u → Run step s (es ++ [e]) u

/-- The steps of a system that meet a condition on the state they start from. -/
def Guarded (cond : σ → ε → Prop) (step : σ → ε → σ → Prop) (s : σ) (e : ε) (t : σ) : Prop :=
  cond s e ∧ step s e t

/-- The steps of a system that lead to a state with a property. -/
def Leading (post : σ → Prop) (step : σ → ε → σ → Prop) (s : σ) (e : ε) (t : σ) : Prop :=
  step s e t ∧ post t

variable {step step' : σ → ε → σ → Prop} {cond : σ → ε → Prop} {s t u : σ} {es es' : List ε} {e : ε}

namespace Run

theorem single (h : step s e t) : Run step s [e] t := snoc nil h

theorem append (h : Run step s es t) (h' : Run step t es' u) : Run step s (es ++ es') u := by
  induction h' with
  | nil => rwa [List.append_nil]
  | snoc _ hs ih => rw [← List.append_assoc]; exact snoc ih hs

/-- What the start satisfies and every step keeps holds at the end. -/
theorem inv {I : σ → Prop} (h0 : I s) (hstep : ∀ t e u, I t → step t e u → I u)
    (h : Run step s es t) : I t := by
  induction h with
  | nil => exact h0
  | snoc _ hs ih => exact hstep _ _ _ ih hs

theorem inv_history {I : List ε → σ → Prop} (h0 : I [] s)
    (hstep : ∀ es t e u, I es t → step t e u → I (es ++ [e]) u) (h : Run step s es t) : I es t := by
  induction h with
  | nil => exact h0
  | snoc _ hs ih => exact hstep _ _ _ _ ih hs

theorem mono (hstep : ∀ t e u, step t e u → step' t e u) (h : Run step s es t) :
    Run step' s es t := by
  induction h with
  | nil => exact nil
  | snoc _ hs ih => exact snoc ih (hstep _ _ _ hs)

theorem unguard (h : Run (Guarded cond step) s es t) : Run step s es t := h.mono fun _ _ _ hs => hs.2

/-- A run passes through a state after each prefix of its labels. -/
theorem split (h : Run step s (es ++ es') t) : ∃ u, Run step s es u ∧ Run step u es' t := by
  induction es' using List.reverseRecOn generalizing t with
  | nil => exact ⟨t, by simpa using h, nil⟩
  | append_singleton es' e ih =>
    rw [← List.append_assoc] at h
    generalize hl : es ++ es' ++ [e] = l at h
    cases h with
    | nil => simp at hl
    | snoc hr hs =>
      obtain ⟨rfl, he⟩ := List.append_inj' hl rfl
      obtain rfl : e = _ := by simpa using he
      obtain ⟨u, hu, hu'⟩ := ih hr
      exact ⟨u, hu, snoc hu' hs⟩

theorem det (hdet : ∀ t e u u', step t e u → step t e u' → u = u') (h : Run step s es t)
    (h' : Run step s es u) : t = u := by
  induction h generalizing u with
  | nil =>
    generalize hes : ([] : List ε) = es at h'
    cases h' with
    | nil => rfl
    | snoc _ _ => simp at hes
  | @snoc es t t' e _ hs ih =>
    generalize hes : es ++ [e] = es' at h'
    cases h' with
    | nil => simp at hes
    | snoc hr hs' =>
      obtain ⟨rfl, he⟩ := List.append_inj' hes rfl
      obtain rfl : e = _ := by simpa using he
      exact hdet _ _ _ _ (ih hr ▸ hs) hs'

end Run

end Labelled
