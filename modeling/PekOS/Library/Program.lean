import Mathlib.Data.List.Basic

/-! Programs as trees of operations. A tree fixes which operations a piece of
code performs and in which order; what an operation does is the business of
the interpreter it is run under, so one text can be run on several machines. -/

namespace OpTree

inductive Prog (Op : Type) (Res : Op → Type) (α : Type) : Type
  | ret (a : α) : Prog Op Res α
  | op (o : Op) (k : Res o → Prog Op Res α) : Prog Op Res α

namespace Prog

variable {Op : Type} {Res : Op → Type} {α β γ σ ε : Type}

def bind : Prog Op Res α → (α → Prog Op Res β) → Prog Op Res β
  | ret a, f => f a
  | op o k, f => op o fun r => (k r).bind f

instance : Monad (Prog Op Res) where
  pure := ret
  bind := bind

@[simp] theorem pure_eq (a : α) : (pure a : Prog Op Res α) = ret a := rfl

@[simp] theorem ret_bind (a : α) (f : α → Prog Op Res β) : ret a >>= f = f a := rfl

@[simp] theorem op_bind (o : Op) (k : Res o → Prog Op Res α) (f : α → Prog Op Res β) :
    op o k >>= f = op o fun r => k r >>= f := rfl

theorem bind_ret (p : Prog Op Res α) : p >>= ret = p := by
  induction p with
  | ret a => rfl
  | op o k ih => exact congrArg (op o) (funext ih)

theorem bind_assoc (p : Prog Op Res α) (f : α → Prog Op Res β) (g : β → Prog Op Res γ) :
    p >>= f >>= g = p >>= fun a => f a >>= g := by
  induction p with
  | ret a => rfl
  | op o k ih => exact congrArg (op o) (funext ih)

def perform (o : Op) : Prog Op Res (Res o) := op o ret

/-- The iterations `i`, `i + 1`, …, `i + n - 1` of a counted loop that carries
the value `b`. -/
def iterate (body : Nat → β → Prog Op Res β) : Nat → Nat → β → Prog Op Res β
  | _, 0, b => ret b
  | i, n + 1, b => body i b >>= fun b' => iterate body (i + 1) n b'

theorem iterate_add (body : Nat → β → Prog Op Res β) (i m n : Nat) (b : β) :
    iterate body i (m + n) b = iterate body i m b >>= fun b' => iterate body (i + m) n b' := by
  induction m generalizing i b with
  | zero => rw [Nat.zero_add]; rfl
  | succ m ih =>
    rw [show m + 1 + n = m + n + 1 by omega, iterate, iterate, bind_assoc]
    refine congrArg _ (funext fun b' => ?_)
    rw [ih, show i + 1 + m = i + (m + 1) by omega]

/-- The loop `for (i = 0; i < n; i++) b = body(i, b)`. -/
def forUp (n : Nat) (b : β) (body : Nat → β → Prog Op Res β) : Prog Op Res β :=
  iterate body 0 n b

/-- At most `n` iterations of a loop that may leave early with a result. -/
def search (body : Nat → Prog Op Res (Option β)) : Nat → Nat → Prog Op Res (Option β)
  | _, 0 => ret none
  | i, n + 1 => body i >>= fun r =>
      match r with
      | some b => ret (some b)
      | none => search body (i + 1) n

section Run

variable (exec : (o : Op) → σ → Except ε (Res o × σ))

def run : Prog Op Res α → σ → Except ε (α × σ)
  | ret a, s => .ok (a, s)
  | op o k, s =>
    match exec o s with
    | .ok (r, s') => run (k r) s'
    | .error e => .error e

/-- The operations performed from a state, each with the state it found. -/
def trace : Prog Op Res α → σ → List (Op × σ)
  | ret _, _ => []
  | op o k, s => (o, s) ::
    match exec o s with
    | .ok (r, s') => trace (k r) s'
    | .error _ => []

@[simp] theorem run_ret (a : α) (s : σ) :
    run exec (ret a : Prog Op Res α) s = .ok (a, s) := rfl

@[simp] theorem run_perform (o : Op) (s : σ) :
    run exec (perform o : Prog Op Res (Res o)) s = exec o s := by
  cases h : exec o s <;> simp [perform, run, h]

theorem run_bind (p : Prog Op Res α) (f : α → Prog Op Res β) (s : σ) :
    run exec (p >>= f) s =
      match run exec p s with
      | .ok (a, s') => run exec (f a) s'
      | .error e => .error e := by
  induction p generalizing s with
  | ret a => rfl
  | op o k ih =>
    simp only [op_bind, run]
    cases exec o s with
    | error e => rfl
    | ok x => exact ih x.1 x.2

theorem run_bind_ok {p : Prog Op Res α} {f : α → Prog Op Res β} {s s' : σ} {a : α}
    (h : run exec p s = .ok (a, s')) : run exec (p >>= f) s = run exec (f a) s' := by
  rw [run_bind, h]

theorem run_bind_error {p : Prog Op Res α} {f : α → Prog Op Res β} {s : σ} {e : ε}
    (h : run exec p s = .error e) : run exec (p >>= f) s = .error e := by
  rw [run_bind, h]

/-- A sequence returns only through a state in which its first part returned. -/
theorem of_run_bind {p : Prog Op Res α} {f : α → Prog Op Res β} {s t : σ} {b : β}
    (h : run exec (p >>= f) s = .ok (b, t)) :
    ∃ a s', run exec p s = .ok (a, s') ∧ run exec (f a) s' = .ok (b, t) := by
  cases hp : run exec p s with
  | error e => simp [run_bind, hp] at h
  | ok x => exact ⟨x.1, x.2, rfl, by simpa [run_bind, hp] using h⟩

theorem run_bind_ok_iff {p : Prog Op Res α} {f : α → Prog Op Res β} {s t : σ} {b : β} :
    run exec (p >>= f) s = .ok (b, t) ↔
      ∃ a s', run exec p s = .ok (a, s') ∧ run exec (f a) s' = .ok (b, t) := by
  refine ⟨of_run_bind exec, fun h => ?_⟩
  obtain ⟨a, s', hp, hf⟩ := h
  rw [run_bind_ok exec hp, hf]

/-- What returns where fewer operations succeed returns the same where more do. -/
theorem run_mono {exec : (o : Op) → σ → Except ε (Res o × σ)}
    (exec' : (o : Op) → σ → Except ε (Res o × σ))
    (h : ∀ o s x, exec o s = .ok x → exec' o s = .ok x) {p : Prog Op Res α} {s : σ} {x : α × σ}
    (hr : run exec p s = .ok x) : run exec' p s = .ok x := by
  induction p generalizing s with
  | ret a => exact hr
  | op o k ih =>
    rw [run] at hr ⊢
    cases ho : exec o s with
    | error e => simp [ho] at hr
    | ok y =>
      rw [h o s y ho]
      simp only [ho] at hr
      exact ih y.1 hr

/-- A run that no failure of another kind ends is the same where only failures of that kind are
mended. -/
theorem run_agree {exec : (o : Op) → σ → Except ε (Res o × σ)}
    (exec' : (o : Op) → σ → Except ε (Res o × σ)) {K : ε → Prop}
    (h : ∀ o s x, exec o s = .ok x → exec' o s = .ok x) (he : ∀ o s e, K e → exec o s = .error e →
      exec' o s = .error e) {p : Prog Op Res α} {s : σ}
    (hp : ∀ e, run exec p s = .error e → K e) :
    run exec' p s = run exec p s ∧ trace exec' p s = trace exec p s := by
  induction p generalizing s with
  | ret a => exact ⟨rfl, rfl⟩
  | op o k ih =>
    cases ho : exec o s with
    | error e =>
      have hK := hp e (by rw [run, ho])
      simp only [run, trace, ho, he o s e hK ho, and_self]
    | ok x =>
      obtain ⟨hr, ht⟩ := ih x.1 (s := x.2) fun e hx => hp e (by rw [run, ho]; exact hx)
      simp only [run, trace, ho, h o s x ho]
      exact ⟨hr, congrArg _ ht⟩

/-- Until its first failure a run performs the same operations in the same states. -/
theorem trace_subset {exec : (o : Op) → σ → Except ε (Res o × σ)}
    (exec' : (o : Op) → σ → Except ε (Res o × σ))
    (h : ∀ o s x, exec o s = .ok x → exec' o s = .ok x) (p : Prog Op Res α) (s : σ) :
    trace exec p s ⊆ trace exec' p s := by
  induction p generalizing s with
  | ret a => exact List.Subset.refl _
  | op o k ih =>
    cases ho : exec o s with
    | error e =>
      simp only [trace, ho, List.cons_subset, List.mem_cons, true_or, List.nil_subset, and_self]
    | ok x =>
      simp only [trace, ho, h o s x ho]
      exact List.cons_subset_cons _ (ih x.1 x.2)

@[simp] theorem trace_ret (a : α) (s : σ) :
    trace exec (ret a : Prog Op Res α) s = [] := rfl

@[simp] theorem trace_perform (o : Op) (s : σ) :
    trace exec (perform o : Prog Op Res (Res o)) s = [(o, s)] := by
  cases h : exec o s <;> simp [perform, trace, h]

theorem trace_bind (p : Prog Op Res α) (f : α → Prog Op Res β) (s : σ) :
    trace exec (p >>= f) s = trace exec p s ++
      match run exec p s with
      | .ok (a, s') => trace exec (f a) s'
      | .error _ => [] := by
  induction p generalizing s with
  | ret a => rfl
  | op o k ih =>
    simp only [op_bind, trace, run]
    cases exec o s with
    | error e => simp
    | ok x => simp [ih]

theorem trace_bind_ok {p : Prog Op Res α} {f : α → Prog Op Res β} {s s' : σ} {a : α}
    (h : run exec p s = .ok (a, s')) :
    trace exec (p >>= f) s = trace exec p s ++ trace exec (f a) s' := by
  rw [trace_bind, h]

theorem trace_bind_error {p : Prog Op Res α} {f : α → Prog Op Res β} {s : σ} {e : ε}
    (h : run exec p s = .error e) : trace exec (p >>= f) s = trace exec p s := by
  simp [trace_bind, h]

/-- Loop rule: an invariant established before the loop and carried by every
iteration holds after it, and the loop returns if every iteration does. -/
theorem run_iterate (body : Nat → β → Prog Op Res β) (I : Nat → β → σ → Prop)
    {i n : Nat} {b : β} {s : σ} (h0 : I i b s)
    (hstep : ∀ j b s, i ≤ j → j < i + n → I j b s →
      ∃ b' s', run exec (body j b) s = .ok (b', s') ∧ I (j + 1) b' s') :
    ∃ b' s', run exec (iterate body i n b) s = .ok (b', s') ∧ I (i + n) b' s' := by
  induction n generalizing i b s with
  | zero => exact ⟨b, s, rfl, h0⟩
  | succ n ih =>
    obtain ⟨b', s', hr, hI⟩ := hstep i b s (Nat.le_refl _) (by omega) h0
    obtain ⟨b'', s'', hr', hI'⟩ := ih hI fun j b s hj hj' => hstep j b s (by omega) (by omega)
    refine ⟨b'', s'', ?_, by rwa [show i + (n + 1) = i + 1 + n by omega]⟩
    rw [iterate, run_bind_ok exec hr, hr']

theorem run_forUp (body : Nat → β → Prog Op Res β) (I : Nat → β → σ → Prop)
    {n : Nat} {b : β} {s : σ} (h0 : I 0 b s)
    (hstep : ∀ j b s, j < n → I j b s →
      ∃ b' s', run exec (body j b) s = .ok (b', s') ∧ I (j + 1) b' s') :
    ∃ b' s', run exec (forUp n b body) s = .ok (b', s') ∧ I n b' s' := by
  have h := run_iterate exec body I (n := n) h0 fun j b s _ hj => hstep j b s (by omega)
  simpa only [Nat.zero_add, forUp] using h

/-- Loop rule for traces: every operation of a loop satisfies what every
operation of an iteration satisfies under the invariant. -/
theorem trace_iterate {body : Nat → β → Prog Op Res β} (I : Nat → β → σ → Prop)
    (P : Op × σ → Prop) {i n : Nat} {b : β} {s : σ} (h0 : I i b s)
    (hstep : ∀ j b s, i ≤ j → j < i + n → I j b s →
      (∀ x ∈ trace exec (body j b) s, P x) ∧
      ∀ b' s', run exec (body j b) s = .ok (b', s') → I (j + 1) b' s') :
    ∀ x ∈ trace exec (iterate body i n b) s, P x := by
  induction n generalizing i b s with
  | zero => simp [iterate]
  | succ n ih =>
    obtain ⟨hP, hI⟩ := hstep i b s (Nat.le_refl _) (by omega) h0
    rw [iterate, trace_bind]
    intro x hx
    rcases List.mem_append.mp hx with hx | hx
    · exact hP x hx
    · cases hr : run exec (body i b) s with
      | error e => simp [hr] at hx
      | ok y =>
        simp only [hr] at hx
        exact ih (hI y.1 y.2 hr) (fun j b s hj hj' => hstep j b s (by omega) (by omega)) x hx

theorem trace_forUp {body : Nat → β → Prog Op Res β} (I : Nat → β → σ → Prop)
    (P : Op × σ → Prop) {n : Nat} {b : β} {s : σ} (h0 : I 0 b s)
    (hstep : ∀ j b s, j < n → I j b s →
      (∀ x ∈ trace exec (body j b) s, P x) ∧
      ∀ b' s', run exec (body j b) s = .ok (b', s') → I (j + 1) b' s') :
    ∀ x ∈ trace exec (forUp n b body) s, P x :=
  trace_iterate exec I P h0 fun j b s _ hj => hstep j b s (by omega)

end Run

/-- Every operation of the tree, whatever the results of the ones before it,
satisfies `P`. -/
def All (P : Op → Prop) : Prog Op Res α → Prop
  | ret _ => True
  | op o k => P o ∧ ∀ r, All P (k r)

section All

variable {P : Op → Prop}

@[simp] theorem all_ret (a : α) : All P (ret a : Prog Op Res α) := trivial

@[simp] theorem all_perform {o : Op} : All P (perform o : Prog Op Res (Res o)) ↔ P o := by
  simp [perform, All]

theorem all_true (p : Prog Op Res α) : All (fun _ => True) p := by
  induction p with
  | ret a => trivial
  | op o k ih => exact ⟨trivial, ih⟩

theorem All.mono {Q : Op → Prop} (hPQ : ∀ o, P o → Q o) {p : Prog Op Res α} (h : All P p) : All Q p := by
  induction p with
  | ret a => trivial
  | op o k ih => exact ⟨hPQ o h.1, fun r => ih r (h.2 r)⟩

theorem All.bind {p : Prog Op Res α} {f : α → Prog Op Res β} (hp : All P p)
    (hf : ∀ a, All P (f a)) : All P (p >>= f) := by
  induction p with
  | ret a => exact hf a
  | op o k ih => exact ⟨hp.1, fun r => ih r (hp.2 r)⟩

theorem All.iterate_of_lt {body : Nat → β → Prog Op Res β} {i n : Nat}
    (h : ∀ j, i ≤ j → j < i + n → ∀ b, All P (body j b)) (b : β) : All P (iterate body i n b) := by
  induction n generalizing i b with
  | zero => trivial
  | succ n ih =>
    refine (h i (by omega) (by omega) b).bind fun b' => ?_
    exact ih (fun j hj hlt => h j (by omega) (by omega)) b'

theorem All.forUp_of_lt {body : Nat → β → Prog Op Res β} {n : Nat}
    (h : ∀ i < n, ∀ b, All P (body i b)) (b : β) : All P (forUp n b body) :=
  All.iterate_of_lt (fun j _ hlt => h j (by omega)) b

theorem All.forUp {body : Nat → β → Prog Op Res β} (h : ∀ i b, All P (body i b))
    (n : Nat) (b : β) : All P (forUp n b body) := All.forUp_of_lt (fun i _ => h i) b

theorem All.search_of_lt {body : Nat → Prog Op Res (Option β)} {i n : Nat}
    (h : ∀ j, i ≤ j → j < i + n → All P (body j)) : All P (search body i n) := by
  induction n generalizing i with
  | zero => trivial
  | succ n ih =>
    refine (h i (Nat.le_refl i) (by omega)).bind fun r => ?_
    cases r with
    | none => exact ih fun j hj hlt => h j (by omega) (by omega)
    | some b => trivial

theorem All.search {body : Nat → Prog Op Res (Option β)} (h : ∀ i, All P (body i))
    (i n : Nat) : All P (search body i n) := All.search_of_lt fun j _ _ => h j

theorem All.trace {exec : (o : Op) → σ → Except ε (Res o × σ)} {p : Prog Op Res α}
    (h : All P p) (s : σ) : ∀ x ∈ trace exec p s, P x.1 := by
  induction p generalizing s with
  | ret a => simp
  | op o k ih =>
    intro x hx
    rw [Prog.trace] at hx
    rcases List.mem_cons.mp hx with rfl | hx
    · exact h.1
    · cases he : exec o s with
      | error e => simp [he] at hx
      | ok y =>
        simp only [he] at hx
        exact ih y.1 (h.2 y.1) y.2 x hx

end All

section Along

variable (exec : (o : Op) → σ → Except ε (Res o × σ)) (P : Op × σ → Prop)

/-- Every operation of the run, with the state it is performed in, satisfies `P`. -/
def Along (p : Prog Op Res α) (s : σ) : Prop := ∀ x ∈ trace exec p s, P x

theorem along_ret (a : α) (s : σ) : Along exec P (ret a : Prog Op Res α) s := by
  simp [Along]

@[simp] theorem along_perform {o : Op} {s : σ} :
    Along exec P (perform o : Prog Op Res (Res o)) s ↔ P (o, s) := by
  simp [Along]

theorem along_bind_iff {p : Prog Op Res α} {f : α → Prog Op Res β} {s : σ} :
    Along exec P (p >>= f) s ↔
      Along exec P p s ∧ ∀ a t, run exec p s = .ok (a, t) → Along exec P (f a) t := by
  unfold Along
  rw [trace_bind]
  cases hp : run exec p s with
  | error e => simp
  | ok x =>
    simp only [List.mem_append, Except.ok.injEq]
    constructor
    · intro h
      refine ⟨fun y hy => h y (Or.inl hy), ?_⟩
      intro a t hx y hy
      subst hx
      exact h y (Or.inr hy)
    · intro h y hy
      rcases hy with hy | hy
      · exact h.1 y hy
      · exact h.2 x.1 x.2 rfl y hy

variable {P}

theorem All.along {R : Op → Prop} {p : Prog Op Res α} (h : All R p) (hP : ∀ o s, R o → P (o, s)) (s : σ) :
    Along exec P p s := fun x hx => hP x.1 x.2 (h.trace s x hx)

variable {Q : Op × σ → Prop}

/-- Two observations that amount to the same along a first part, and along what
follows it, amount to the same along both. -/
theorem along_iff_bind {p : Prog Op Res α} {f : α → Prog Op Res β} {s : σ}
    (hp : Along exec P p s ↔ Along exec Q p s)
    (hf : ∀ a t, run exec p s = .ok (a, t) → (Along exec P (f a) t ↔ Along exec Q (f a) t)) :
    Along exec P (p >>= f) s ↔ Along exec Q (p >>= f) s := by
  rw [along_bind_iff, along_bind_iff]
  refine and_congr hp (forall_congr' fun a => forall_congr' fun t => ?_)
  exact ⟨fun h hr => (hf a t hr).mp (h hr), fun h hr => (hf a t hr).mpr (h hr)⟩

end Along

section Performs

variable (exec : (o : Op) → σ → Except ε (Res o × σ)) (P : Op → Prop)

/-- The run performs operations that satisfy `P` only. -/
def Performs (p : Prog Op Res α) (s : σ) : Prop := ∀ x ∈ trace exec p s, P x.1

theorem performs_ret (a : α) (s : σ) : Performs exec P (ret a : Prog Op Res α) s := by
  simp [Performs]

theorem performs_bind_iff {p : Prog Op Res α} {f : α → Prog Op Res β} {s : σ} :
    Performs exec P (p >>= f) s ↔
      Performs exec P p s ∧ ∀ a t, run exec p s = .ok (a, t) → Performs exec P (f a) t :=
  along_bind_iff exec fun x => P x.1

variable {P}

theorem All.performs {p : Prog Op Res α} (h : All P p) (s : σ) : Performs exec P p s := h.trace s

theorem performs_bind_right {p : Prog Op Res α} (h : All P p) {f : α → Prog Op Res β} {s : σ} :
    Performs exec P (p >>= f) s ↔ ∀ a t, run exec p s = .ok (a, t) → Performs exec P (f a) t := by
  rw [performs_bind_iff]
  exact and_iff_right (h.performs exec s)

theorem performs_bind_left {p : Prog Op Res α} {f : α → Prog Op Res β} (h : ∀ a, All P (f a)) {s : σ} :
    Performs exec P (p >>= f) s ↔ Performs exec P p s := by
  rw [performs_bind_iff]
  exact and_iff_left fun a t _ => (h a).performs exec t

/-- A first part of no interest, whose result is known. -/
theorem performs_bind_of_run {p : Prog Op Res α} (h : All P p) {f : α → Prog Op Res β} {s t : σ} {a : α}
    (hr : run exec p s = .ok (a, t)) : Performs exec P (p >>= f) s ↔ Performs exec P (f a) t := by
  rw [performs_bind_right exec h]
  constructor
  · intro hf
    exact hf a t hr
  · intro hf b u hu
    obtain ⟨rfl, rfl⟩ : a = b ∧ t = u := by simpa using hr.symm.trans hu
    exact hf

end Performs

section Returns

variable (exec : (o : Op) → σ → Except ε (Res o × σ)) (P : Op → Prop)

/-- The run returns `a` in state `t`, and performs operations that satisfy `P` only. -/
def Returns (p : Prog Op Res α) (s : σ) (a : α) (t : σ) : Prop :=
  run exec p s = .ok (a, t) ∧ Performs exec P p s

variable {exec P}

theorem returns_ret (a : α) (s : σ) : Returns exec P (ret a : Prog Op Res α) s a s :=
  ⟨rfl, performs_ret exec P a s⟩

theorem returns_perform {o : Op} {s t : σ} {r : Res o} (h : exec o s = .ok (r, t)) (hP : P o) :
    Returns exec P (perform o : Prog Op Res (Res o)) s r t :=
  ⟨(run_perform exec o s).trans h, (all_perform.mpr hP).performs exec s⟩

theorem Returns.bind {p : Prog Op Res α} {f : α → Prog Op Res β} {s t u : σ} {a : α} {b : β}
    (hp : Returns exec P p s a t) (hf : Returns exec P (f a) t b u) : Returns exec P (p >>= f) s b u := by
  refine ⟨(run_bind_ok exec hp.1).trans hf.1, (performs_bind_iff exec P).mpr ⟨hp.2, fun a' t' h => ?_⟩⟩
  obtain ⟨rfl, rfl⟩ : a = a' ∧ t = t' := by simpa using hp.1.symm.trans h
  exact hf.2

variable (exec P) in
/-- The run comes to `q` in state `t`, having performed operations that satisfy `P` only. -/
structure Reaches (p : Prog Op Res α) (s : σ) (q : Prog Op Res α) (t : σ) : Prop where
  returns : ∀ a u, Returns exec P q t a u → Returns exec P p s a u
  performs : Performs exec P p s → Performs exec P q t

theorem Reaches.refl (p : Prog Op Res α) (s : σ) : Reaches exec P p s p s := ⟨fun _ _ h => h, fun h => h⟩

theorem Reaches.bind {p : Prog Op Res β} {k : β → Prog Op Res α} {s t u : σ} {b : β} {q : Prog Op Res α}
    (h : Returns exec P p s b t) (hk : Reaches exec P (k b) t q u) : Reaches exec P (p >>= k) s q u := by
  refine ⟨fun a v hq => h.bind (hk.returns a v hq), fun hp => hk.performs ?_⟩
  exact ((performs_bind_iff exec P).mp hp).2 b t h.1

end Returns

section Notes

variable (exec : (o : Op) → σ → Except ε (Res o × σ)) (note : Op → Option γ)

/-- What an observer of some of the operations sees of a run. -/
def notes (p : Prog Op Res α) (s : σ) : List γ := (trace exec p s).filterMap fun x => note x.1

theorem notes_bind_ok {p : Prog Op Res α} {f : α → Prog Op Res β} {s s' : σ} {a : α}
    (h : run exec p s = .ok (a, s')) :
    notes exec note (p >>= f) s = notes exec note p s ++ notes exec note (f a) s' := by
  rw [notes, trace_bind_ok exec h, List.filterMap_append, notes, notes]

theorem notes_bind_error {p : Prog Op Res α} {f : α → Prog Op Res β} {s : σ} {e : ε}
    (h : run exec p s = .error e) : notes exec note (p >>= f) s = notes exec note p s := by
  rw [notes, trace_bind_error exec h, notes]

theorem notes_eq_nil {p : Prog Op Res α} (h : All (fun o => note o = none) p) (s : σ) :
    notes exec note p s = [] := by
  refine List.filterMap_eq_nil_iff.mpr ?_
  intro x hx
  exact h.trace s x hx

/-- Nothing is seen of a second part that performs none of these operations. -/
theorem notes_bind_left (p : Prog Op Res α) {f : α → Prog Op Res β}
    (h : ∀ a, All (fun o => note o = none) (f a)) (s : σ) :
    notes exec note (p >>= f) s = notes exec note p s := by
  cases hp : run exec p s with
  | error e => exact notes_bind_error exec note hp
  | ok x =>
    rw [notes_bind_ok exec note (show run exec p s = .ok (x.1, x.2) from hp),
      notes_eq_nil exec note (h x.1), List.append_nil]

end Notes

end Prog

end OpTree
