import PekOS.Library.Program

/-! One program on two machines, its operations performed alike on both: what
relates the machines before the first operation and after the last. -/

namespace OpTree.Prog

variable {Op : Type} {Res : Op → Type} {α σ τ ε ε' : Type} {P : Op → Prop}
  {exec : (o : Op) → σ → Except ε (Res o × σ)} {exec' : (o : Op) → τ → Except ε' (Res o × τ)}

/-- The second machine follows the first, operation by operation. -/
theorem run_forward {R : σ → τ → Prop} (hstep : ∀ o s m r s', R s m → exec o s = .ok (r, s') →
      ∃ m', exec' o m = .ok (r, m') ∧ R s' m')
    {p : Prog Op Res α} {s t : σ} {m : τ} {a : α} (hr : run exec p s = .ok (a, t)) (hs : R s m) :
    ∃ m', run exec' p m = .ok (a, m') ∧ R t m' := by
  induction p generalizing s m with
  | ret b =>
    simp only [run_ret, Except.ok.injEq, Prod.mk.injEq] at hr
    obtain ⟨rfl, rfl⟩ := hr
    exact ⟨m, rfl, hs⟩
  | op o k ih =>
    rw [run] at hr
    cases he : exec o s with
    | error e => simp [he] at hr
    | ok x =>
      simp only [he] at hr
      obtain ⟨m₁, he', h₁⟩ := hstep o s m x.1 x.2 hs he
      obtain ⟨m', hr', h'⟩ := ih x.1 hr h₁
      refine ⟨m', ?_, h'⟩
      rw [run, he']
      exact hr'

/-- The state the second machine starts from is settled by the one it is to end
in: an operation of the first may fix what the second must have held before. -/
theorem All.run_backward {I : σ → Prop} {R : σ → τ → Prop} (hstep : ∀ o s, P o → I s →
      ∃ r s', exec o s = .ok (r, s') ∧ I s' ∧ ∀ m', R s' m' → ∃ m, R s m ∧ exec' o m = .ok (r, m'))
    {p : Prog Op Res α} (hp : All P p) {s : σ} (hs : I s) :
    ∃ a t, run exec p s = .ok (a, t) ∧ I t ∧ ∀ m', R t m' → ∃ m, R s m ∧ run exec' p m = .ok (a, m') := by
  induction p generalizing s with
  | ret a => exact ⟨a, s, rfl, hs, fun m' h => ⟨m', h, rfl⟩⟩
  | op o k ih =>
    obtain ⟨r, s₁, he, h₁, hback⟩ := hstep o s hp.1 hs
    obtain ⟨a, t, hr, ht, hrest⟩ := ih r (hp.2 r) h₁
    refine ⟨a, t, ?_, ht, fun m' hm' => ?_⟩
    · rw [run, he]
      exact hr
    · obtain ⟨m₁, hm₁, hr'⟩ := hrest m' hm'
      obtain ⟨m, hm, he'⟩ := hback m₁ hm₁
      refine ⟨m, hm, ?_⟩
      rw [run, he']
      exact hr'

end OpTree.Prog
