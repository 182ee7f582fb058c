import PekOS.Library.Loops

/-! Programs that work on two machines side by side. -/

namespace OpTree

namespace Prog

variable {Op Op' : Type} {Res : Op → Type} {Res' : Op' → Type} {α σ τ ε : Type}

/-- A program of the first machine. -/
def left : Prog Op Res α → Prog (Op ⊕ Op') (Sum.elim Res Res') α
  | ret a => ret a
  | op o k => op (.inl o) fun r => (k r).left

section Run

variable (exec : (o : Op) → σ → Except ε (Res o × σ)) (exec' : (o : Op') → τ → Except ε (Res' o × τ))

def execBoth : (o : Op ⊕ Op') → σ × τ → Except ε (Sum.elim Res Res' o × (σ × τ))
  | .inl o, s =>
    match exec o s.1 with
    | .ok (r, s') => .ok (r, (s', s.2))
    | .error e => .error e
  | .inr o, s =>
    match exec' o s.2 with
    | .ok (r, t') => .ok (r, (s.1, t'))
    | .error e => .error e

variable {exec exec'}

/-- The second machine is left alone. -/
theorem run_left {p : Prog Op Res α} {s s' : σ} {a : α} (h : run exec p s = .ok (a, s')) (t : τ) :
    run (execBoth exec exec') p.left (s, t) = .ok (a, (s', t)) := by
  induction p generalizing s with
  | ret b =>
    simp only [run_ret, Except.ok.injEq, Prod.mk.injEq] at h
    rw [left, run_ret, h.1, h.2]
  | op o k ih =>
    rw [run] at h
    cases he : exec o s with
    | error e => simp [he] at h
    | ok x =>
      simp only [he] at h
      rw [left, run, execBoth, he]
      exact ih x.1 h

theorem of_run_left {p : Prog Op Res α} {s : σ} {t : τ} {a : α} {x : σ × τ}
    (h : run (execBoth exec exec') p.left (s, t) = .ok (a, x)) : run exec p s = .ok (a, x.1) ∧
    x.2 = t := by
  induction p generalizing s with
  | ret b =>
    simp only [left, run_ret, Except.ok.injEq, Prod.mk.injEq] at h
    rw [run_ret, h.1, ← h.2]
    exact ⟨rfl, rfl⟩
  | op o k ih =>
    rw [left, run, execBoth] at h
    rw [run]
    cases he : exec o s with
    | error e => simp [he] at h
    | ok y =>
      simp only [he] at h
      exact ih y.1 h

end Run

end Prog

end OpTree
