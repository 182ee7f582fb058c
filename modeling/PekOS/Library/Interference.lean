import Mathlib.Logic.Relation
import PekOS.Library.Loops
import PekOS.Library.Runs

/-! Programs whose state others may change between any two of their operations:
rely-guarantee reasoning over the tree of operations, and what it says about
the runs of a main program that handlers interrupt. -/

namespace OpTree

namespace Prog

variable {Op : Type} {Res : Op → Type} {α β γ σ ε ι : Type}

section Safe

variable (exec : (o : Op) → σ → Except ε (Res o × σ)) (rely : Op → σ → σ → Prop) (G : Op → Prop)

/-- With others acting as `rely` allows before each operation, every operation
satisfies `G`, and a run that returns does so in `post`. -/
def Safe (post : α → σ → Prop) : Prog Op Res α → σ → Prop
  | ret a, s => post a s
  | op o k, s => ∀ s', Relation.ReflTransGen (rely o) s s' →
      G o ∧ ∀ r t, exec o s' = .ok (r, t) → Safe post (k r) t

variable {exec rely G}

theorem Safe.bind {M : α → σ → Prop} {post : β → σ → Prop} {p : Prog Op Res α} {f : α → Prog Op Res β}
    {s : σ} (h : Safe exec rely G M p s) (hf : ∀ a t, M a t → Safe exec rely G post (f a) t) :
    Safe exec rely G post (p >>= f) s := by
  induction p generalizing s with
  | ret a => exact hf a s h
  | op o k ih =>
    intro s' hs
    exact ⟨(h s' hs).1, fun r t hr => ih r ((h s' hs).2 r t hr)⟩

/-- What the others keep may be assumed when the operation is performed. -/
theorem Safe.perform {o : Op} {I : σ → Prop} {post : Res o → σ → Prop} {s : σ}
    (hrely : ∀ t u, I t → rely o t u → I u) (hG : G o)
    (hpost : ∀ t r u, I t → exec o t = .ok (r, u) → post r u) (h : I s) :
    Safe exec rely G post (perform o : Prog Op Res (Res o)) s := by
  intro s' hs
  have hI : I s' := by
    induction hs with
    | refl => exact h
    | tail _ hstep ih => exact hrely _ _ ih hstep
  exact ⟨hG, fun r t hr => hpost s' r t hI hr⟩

theorem Safe.loop {post : γ → σ → Prop} {stuck : Prog Op Res γ} {body : β → Prog Op Res (β ⊕ γ)}
    {I : β → σ → Prop} (hstuck : ∀ b s, I b s → Safe exec rely G post stuck s)
    (hbody : ∀ b s, I b s → Safe exec rely G (fun r t => match r with
      | .inl b' => I b' t
      | .inr c => post c t) (body b) s) {n : Nat} {b : β} {s : σ} (h : I b s) :
    Safe exec rely G post (Prog.loop stuck body n b) s := by
  induction n generalizing b s with
  | zero => exact hstuck b s h
  | succ n ih =>
    refine (hbody b s h).bind fun r t ht => ?_
    cases r with
    | inl b' => exact ih ht
    | inr c => exact ht

theorem Safe.forUp {I : β → σ → Prop} {n : Nat} {body : Nat → β → Prog Op Res β}
    (hbody : ∀ i < n, ∀ b s, I b s → Safe exec rely G I (body i b) s) {b : β} {s : σ} (h : I b s) :
    Safe exec rely G I (Prog.forUp n b body) s := by
  have hiterate (i m : Nat) (him : i + m ≤ n) {b : β} {s : σ} (h : I b s) :
      Safe exec rely G I (Prog.iterate body i m b) s := by
    induction m generalizing i b s with
    | zero => exact h
    | succ m ih =>
      refine (hbody i (by omega) b s h).bind fun b' t ht => ?_
      exact ih (i + 1) (by omega) ht
  exact hiterate 0 n (by omega) h

/-- Left to itself, a safe program performs only what it guarantees. -/
theorem Safe.performs {post : α → σ → Prop} {p : Prog Op Res α} {s : σ} (h : Safe exec rely G post p s) :
    Performs exec G p s := by
  induction p generalizing s with
  | ret a => exact performs_ret exec G a s
  | op o k ih =>
    intro x hx
    obtain ⟨hG, hk⟩ := h s .refl
    rw [trace] at hx
    rcases List.mem_cons.mp hx with rfl | hx
    · exact hG
    · cases he : exec o s with
      | error e => simp [he] at hx
      | ok y =>
        simp only [he] at hx
        exact ih y.1 (hk y.1 y.2 he) x hx

theorem Safe.post {post : α → σ → Prop} {p : Prog Op Res α} {s t : σ} {a : α}
    (h : Safe exec rely G post p s) (hr : run exec p s = .ok (a, t)) : post a t := by
  induction p generalizing s with
  | ret b =>
    obtain ⟨rfl, rfl⟩ : b = a ∧ s = t := by simpa using hr
    exact h
  | op o k ih =>
    obtain ⟨-, hk⟩ := h s .refl
    rw [run] at hr
    cases he : exec o s with
    | error e => simp [he] at hr
    | ok y =>
      simp only [he] at hr
      exact ih y.1 (hk y.1 y.2 he) hr

end Safe

section Interrupts

/-- What happens to a main program: it is started, it performs an operation, or
a handler runs from beginning to end. -/
inductive Event (Op ι : Type) (Res : Op → Type)
  | call (p : Prog Op Res Unit)
  | main (o : Op)
  | interrupt (i : ι) (ops : List Op)

def Event.ops : Event Op ι Res → List Op
  | .call _ => []
  | .main o => [o]
  | .interrupt _ ops => ops

variable (exec : (o : Op) → σ → Except ε (Res o × σ)) (calls : Prog Op Res Unit → Prop)
  (handler : ι → Prog Op Res Unit)

/-- What is left of the main program, and the state. -/
inductive Interrupted : Prog Op Res Unit × σ → Event Op ι Res → Prog Op Res Unit × σ → Prop
  | call {p : Prog Op Res Unit} {s : σ} : calls p → Interrupted (ret (), s) (.call p) (p, s)
  | main {o : Op} {k : Res o → Prog Op Res Unit} {s t : σ} {r : Res o} : exec o s = .ok (r, t) →
      Interrupted (op o k, s) (.main o) (k r, t)
  | interrupt {i : ι} {p : Prog Op Res Unit} {s t : σ} : run exec (handler i) s = .ok ((), t) →
      Interrupted (p, s) (.interrupt i ((trace exec (handler i) s).map fun x => x.1)) (p, t)

def next : Prog Op Res α → Option Op
  | ret _ => none
  | op o _ => some o

variable (guard : Option Op → σ → ι → Prop)

/-- The handlers that may run before an operation, as a relation on the state. -/
def Handled (o : Op) (s t : σ) : Prop := ∃ i, guard (some o) s i ∧ run exec (handler i) s = .ok ((), t)

/-- An interrupt comes when the guard allows it. -/
def Admitted (c : Prog Op Res Unit × σ) : Event Op ι Res → Prop
  | .interrupt i _ => guard (next c.1) c.2 i
  | _ => True

variable {exec calls handler guard}

/-- Nothing has to come between the operations of the main program. -/
theorem Interrupted.exists_run {p : Prog Op Res α} {k : α → Prog Op Res Unit} {s t : σ} {a : α}
    (h : run exec p s = .ok (a, t)) : ∃ es, Labelled.Run
      (Labelled.Guarded (Admitted guard) (Interrupted exec calls handler)) (p >>= k, s) es (k a, t) := by
  induction p generalizing s with
  | ret b =>
    obtain ⟨rfl, rfl⟩ : b = a ∧ s = t := by simpa using h
    exact ⟨[], .nil⟩
  | op o q ih =>
    rw [run] at h
    cases he : exec o s with
    | error e => simp [he] at h
    | ok y =>
      simp only [he] at h
      obtain ⟨es, hrun⟩ := ih y.1 h
      have hfirst : Labelled.Guarded (Admitted guard) (Interrupted exec calls handler) (op o q >>=
          k, s) (.main o) (q y.1 >>= k, y.2) := ⟨trivial, .main he⟩
      exact ⟨_, (Labelled.Run.single hfirst).append hrun⟩

theorem Interrupted.safe {G : Op → Prop} {I : σ → Prop}
    (hcall : ∀ p s, calls p → I s → Safe exec (Handled exec handler guard) G (fun _ => I) p s)
    (hidle : ∀ i s t, guard none s i → I s → run exec (handler i) s = .ok ((), t) → I t)
    (hG : ∀ o s i, guard o s i → Performs exec G (handler i) s) {s : σ} (hs : I s)
    {es : List (Event Op ι Res)} {c : Prog Op Res Unit × σ}
    (h : Labelled.Run (Labelled.Guarded (Admitted guard) (Interrupted exec calls handler))
      (ret (), s) es c) :
    (∀ e ∈ es, ∀ o ∈ e.ops, G o) ∧
      Safe exec (Handled exec handler guard) G (fun _ => I) c.1 c.2 := by
  have hstart : Safe exec (Handled exec handler guard) G (fun _ => I) (ret () : Prog Op Res Unit) s := hs
  refine Labelled.Run.inv_history (I := fun es c => (∀ e ∈ es, ∀ o ∈ e.ops, G o) ∧
    Safe exec (Handled exec handler guard) G (fun _ => I) c.1 c.2) ⟨by simp, hstart⟩ ?_ h
  intro es c e d hI hstep
  obtain ⟨hops, hsafe⟩ := hI
  obtain ⟨hadmitted, hstep⟩ := hstep
  have hadd (he : ∀ o ∈ e.ops, G o) : ∀ e' ∈ es ++ [e], ∀ o ∈ e'.ops, G o := by
    intro e' he'
    rcases List.mem_append.mp he' with he' | he'
    · exact hops e' he'
    · exact List.mem_singleton.mp he' ▸ he
  cases hstep with
  | call hp => exact ⟨hadd (by simp [Event.ops]), hcall _ _ hp hsafe⟩
  | main hr =>
    obtain ⟨ho, hk⟩ := hsafe _ .refl
    exact ⟨hadd (by simpa [Event.ops] using ho), hk _ _ hr⟩
  | @interrupt i p s t hr =>
    refine ⟨hadd ?_, ?_⟩
    · intro o ho
      obtain ⟨x, hx, rfl⟩ := List.mem_map.mp ho
      exact hG _ s i hadmitted x hx
    · cases p with
      | ret a => exact hidle i s t hadmitted hsafe hr
      | op o k =>
        intro s' hs'
        exact hsafe s' (.head ⟨i, hadmitted, hr⟩ hs')

end Interrupts

end Prog

end OpTree
