import PekOS.Library.Program

/-! Loops that may leave early, or never: what an execution of the loop that
returns has passed through, as a chain of executions of its body. -/

namespace OpTree

namespace Prog

variable {Op : Type} {Res : Op → Type} {α β γ σ ε : Type}

/-- At most `n` iterations of an unbounded loop. The body says how to go on or
what to return; `stuck` is what is done when the bound is reached. -/
def loop (stuck : Prog Op Res γ) (body : β → Prog Op Res (β ⊕ γ)) : Nat → β → Prog Op Res γ
  | 0, _ => stuck
  | n + 1, b => body b >>= fun r =>
      match r with
      | .inl b' => loop stuck body n b'
      | .inr c => ret c

/-- `n` steps, numbered from `i` on. -/
def Chain (R : Nat → σ → σ → Prop) : Nat → Nat → σ → σ → Prop
  | _, 0, s, t => s = t
  | i, n + 1, s, t => ∃ u, R i s u ∧ Chain R (i + 1) n u t

theorem chain_congr {R R' : Nat → σ → σ → Prop} (h : ∀ i s t, R i s t ↔ R' i s t) {i n : Nat} {s t : σ} :
    Chain R i n s t ↔ Chain R' i n s t := by
  induction n generalizing i s with
  | zero => exact Iff.rfl
  | succ n ih => exact exists_congr fun u => and_congr (h i s u) ih

section Run

variable (exec : (o : Op) → σ → Except ε (Res o × σ))

/-- A chain of iterations that all go on. -/
inductive Iterates (body : β → Prog Op Res (β ⊕ γ)) : β → σ → β → σ → Prop
  | refl (b : β) (s : σ) : Iterates body b s b s
  | head {b b' b'' : β} {s s' s'' : σ} : run exec (body b) s = .ok (.inl b', s') →
      Iterates body b' s' b'' s'' → Iterates body b s b'' s''

/-- With a large enough bound, a loop returns what the last iteration of such a chain returns. -/
theorem exists_run_loop_iff {stuck : Prog Op Res γ} (hstuck : ∀ s x, run exec stuck s ≠ .ok x)
    {body : β → Prog Op Res (β ⊕ γ)} {b : β} {c : γ} {s t : σ} :
    (∃ n, run exec (loop stuck body n b) s = .ok (c, t)) ↔
      ∃ b' s', Iterates exec body b s b' s' ∧ run exec (body b') s' = .ok (.inr c, t) := by
  constructor
  · intro h
    obtain ⟨n, hn⟩ := h
    induction n generalizing b s with
    | zero => exact absurd hn (hstuck s _)
    | succ n ih =>
      obtain ⟨r, u, hr, hk⟩ := of_run_bind exec hn
      cases r with
      | inl b' =>
        obtain ⟨b'', s'', hi, hlast⟩ := ih hk
        exact ⟨b'', s'', .head hr hi, hlast⟩
      | inr c' =>
        simp only [run_ret, Except.ok.injEq, Prod.mk.injEq] at hk
        obtain ⟨rfl, rfl⟩ := hk
        exact ⟨b, s, .refl b s, hr⟩
  · intro h
    obtain ⟨b', s', hi, hlast⟩ := h
    induction hi with
    | refl b s => exact ⟨1, by rw [loop, run_bind_ok exec hlast]; rfl⟩
    | head hr _ ih =>
      obtain ⟨n, hn⟩ := ih hlast
      exact ⟨n + 1, by rw [loop, run_bind_ok exec hr]; exact hn⟩

theorem run_loop_mono {stuck : Prog Op Res γ} (hstuck : ∀ s x, run exec stuck s ≠ .ok x)
    {body : β → Prog Op Res (β ⊕ γ)} {b : β} {s : σ} {x : γ × σ} {n m : Nat} (hle : n ≤ m)
    (h : run exec (loop stuck body n b) s = .ok x) : run exec (loop stuck body m b) s = .ok x := by
  induction n generalizing b s m with
  | zero => exact absurd h (hstuck s x)
  | succ n ih =>
    cases m with
    | zero => omega
    | succ m =>
      obtain ⟨r, u, hr, hk⟩ := of_run_bind exec h
      rw [loop, run_bind_ok exec hr]
      cases r with
      | inl b' => exact ih (Nat.le_of_succ_le_succ hle) hk
      | inr c => exact hk

/-- What a last iteration leaves, the loop leaves. -/
theorem run_loop_last {stuck : Prog Op Res γ} (hstuck : ∀ s x, run exec stuck s ≠ .ok x)
    {body : β → Prog Op Res (β ⊕ γ)} {P : γ → σ → Prop}
    (hlast : ∀ b s c t, run exec (body b) s = .ok (.inr c, t) → P c t) {n : Nat} {b : β} {c : γ} {s t : σ}
    (h : run exec (loop stuck body n b) s = .ok (c, t)) : P c t := by
  obtain ⟨b', s', _, hr⟩ := (exists_run_loop_iff exec hstuck).mp ⟨n, h⟩
  exact hlast b' s' c t hr

/-- Loop rule for a loop that is known to return. -/
theorem of_run_loop {stuck : Prog Op Res γ} (hstuck : ∀ s x, run exec stuck s ≠ .ok x)
    {body : β → Prog Op Res (β ⊕ γ)} (I : β → σ → Prop) {P : γ → σ → Prop}
    (hnext : ∀ b s b' t, I b s → run exec (body b) s = .ok (.inl b', t) → I b' t)
    (hlast : ∀ b s c t, I b s → run exec (body b) s = .ok (.inr c, t) → P c t) {n : Nat} {b : β}
    {c : γ} {s t : σ} (h : run exec (loop stuck body n b) s = .ok (c, t)) (h0 : I b s) : P c t := by
  obtain ⟨b', s', hi, hr⟩ := (exists_run_loop_iff exec hstuck).mp ⟨n, h⟩
  clear h
  induction hi with
  | refl b s => exact hlast b s c t h0 hr
  | head hstep _ ih => exact ih (hnext _ _ _ _ h0 hstep) hr

/-- `n` iterations of a search, from `i` on, that all find nothing. -/
def Passed (body : Nat → Prog Op Res (Option β)) : Nat → Nat → σ → σ → Prop :=
  Chain fun i s t => run exec (body i) s = .ok (none, t)

theorem run_search_none {body : Nat → Prog Op Res (Option β)} {i n : Nat} {s t : σ} :
    run exec (search body i n) s = .ok (none, t) ↔ Passed exec body i n s t := by
  induction n generalizing i s with
  | zero => simp [search, Passed, Chain]
  | succ n ih =>
    constructor
    · intro h
      obtain ⟨r, u, hr, hk⟩ := of_run_bind exec h
      cases r with
      | none => exact ⟨u, hr, ih.mp hk⟩
      | some b => simp at hk
    · intro h
      obtain ⟨u, hr, hp⟩ := h
      rw [search, run_bind_ok exec hr]
      exact ih.mpr hp

/-- The first iteration that finds something ends a search. -/
theorem run_search_some {body : Nat → Prog Op Res (Option β)} {i n : Nat} {s t : σ} {b : β} :
    run exec (search body i n) s = .ok (some b, t) ↔
      ∃ k < n, ∃ u, Passed exec body i k s u ∧ run exec (body (i + k)) u = .ok (some b, t) := by
  induction n generalizing i s with
  | zero => simp [search]
  | succ n ih =>
    constructor
    · intro h
      obtain ⟨r, u, hr, hk⟩ := of_run_bind exec h
      cases r with
      | none =>
        obtain ⟨k, hlt, v, hp, hlast⟩ := ih.mp hk
        refine ⟨k + 1, by omega, v, ⟨u, hr, hp⟩, ?_⟩
        rwa [show i + (k + 1) = i + 1 + k by omega]
      | some b' =>
        simp only [run_ret, Except.ok.injEq, Prod.mk.injEq, Option.some.injEq] at hk
        obtain ⟨rfl, rfl⟩ := hk
        exact ⟨0, by omega, s, rfl, hr⟩
    · intro h
      obtain ⟨k, hlt, v, hp, hlast⟩ := h
      cases k with
      | zero =>
        obtain rfl : s = v := hp
        rw [search, run_bind_ok exec (show run exec (body i) s = .ok (some b, t) from hlast)]
        rfl
      | succ k =>
        obtain ⟨u, hr, hp⟩ := hp
        rw [search, run_bind_ok exec hr]
        refine ih.mpr ⟨k, by omega, v, hp, ?_⟩
        rwa [show i + 1 + k = i + (k + 1) by omega]

theorem exists_passed {body : Nat → Prog Op Res (Option β)} (I : σ → Prop) {i n : Nat} {s : σ} (hs : I s)
    (h : ∀ j u, i ≤ j → j < i + n → I u → ∃ t, run exec (body j) u = .ok (none, t) ∧ I t) :
    ∃ t, Passed exec body i n s t ∧ I t := by
  induction n generalizing i s with
  | zero => exact ⟨s, rfl, hs⟩
  | succ n ih =>
    obtain ⟨u, hr, hu⟩ := h i s (Nat.le_refl i) (by omega) hs
    obtain ⟨t, hp, ht⟩ := ih (i := i + 1) hu fun j v hj hlt => h j v (by omega) (by omega)
    exact ⟨t, ⟨u, hr, hp⟩, ht⟩

/-- A search under an invariant, whose iterations find what they look for exactly at some indices.
-/
theorem run_search_first (body : Nat → Prog Op Res (Option β)) (I : σ → Prop) (hit : Nat → Prop)
    (found : Nat → β) {i n : Nat} {s : σ} (hs : I s)
    (h : ∀ j s, i ≤ j → j < i + n → I s → ∃ r t, run exec (body j) s = .ok (r, t) ∧ I t ∧
      (hit j ∧ r = some (found j) ∨ ¬ hit j ∧ r = none)) :
    ∃ r t, run exec (search body i n) s = .ok (r, t) ∧ I t ∧
      (r = none ∧ (∀ j, i ≤ j → j < i + n → ¬ hit j) ∨
        ∃ j, i ≤ j ∧ j < i + n ∧ hit j ∧ (∀ k, i ≤ k → k < j → ¬ hit k) ∧ r = some (found j)) := by
  induction n generalizing i s with
  | zero => exact ⟨none, s, rfl, hs, Or.inl ⟨rfl, fun j hj hlt => absurd hj (by omega)⟩⟩
  | succ n ih =>
    obtain ⟨r, t, hr, ht, hfirst⟩ := h i s (Nat.le_refl i) (by omega) hs
    rcases hfirst with ⟨hhit, rfl⟩ | ⟨hno, rfl⟩
    · refine ⟨some (found i), t, ?_, ht,
        Or.inr ⟨i, Nat.le_refl i, by omega, hhit, fun k hk hlt => absurd hk (by omega), rfl⟩⟩
      rw [search, run_bind_ok exec hr]
      rfl
    · obtain ⟨r, u, hrest, hu, hcases⟩ := ih (i := i + 1) ht fun j u hj hlt => h j u (by omega) (by omega)
      refine ⟨r, u, ?_, hu, ?_⟩
      · rw [search, run_bind_ok exec hr]
        exact hrest
      · -- nothing is found at the first index
        have hpast {k : Nat} (hk : i ≤ k) (h : i + 1 ≤ k → ¬ hit k) : ¬ hit k := by
          rcases Nat.eq_or_lt_of_le hk with rfl | hlt
          · exact hno
          · exact h hlt
        rcases hcases with ⟨hnone, hall⟩ | ⟨j, hj, hlt, hhit, hbefore, hsome⟩
        · exact Or.inl ⟨hnone, fun j hj hlt => hpast hj fun hj' => hall j hj' (by omega)⟩
        · exact Or.inr ⟨j, by omega, by omega, hhit,
            fun k hk hlt => hpast hk fun hk' => hbefore k hk' hlt, hsome⟩

/-- A search whose iterations leave the state alone finds nothing if none of them does. -/
theorem run_search_none_const {body : Nat → Prog Op Res (Option β)} {n : Nat} {s : σ}
    (hconst : ∀ i r t, run exec (body i) s = .ok (r, t) → t = s) {t : σ} :
    run exec (search body 0 n) s = .ok (none, t) ↔
    t = s ∧ ∀ i < n, run exec (body i) s = .ok (none, s) := by
  rw [run_search_none]
  have hpassed {i n : Nat} : Passed exec body i n s t ↔
      t = s ∧ ∀ j < n, run exec (body (i + j)) s = .ok (none, s) := by
    induction n generalizing i with
    | zero => exact ⟨fun h => ⟨h.symm, fun j hj => absurd hj (Nat.not_lt_zero j)⟩, fun h => h.1.symm⟩
    | succ n ih =>
      constructor
      · intro h
        obtain ⟨u, hr, hp⟩ := h
        obtain rfl := hconst i none u hr
        obtain ⟨ht, hrest⟩ := ih.mp hp
        refine ⟨ht, fun j hj => ?_⟩
        cases j with
        | zero => exact hr
        | succ j => exact (show i + 1 + j = i + (j + 1) by omega) ▸ hrest j (by omega)
      · intro h
        refine ⟨s, h.2 0 (by omega), ih.mpr ⟨h.1, fun j hj => ?_⟩⟩
        exact (show i + (j + 1) = i + 1 + j by omega) ▸ h.2 (j + 1) (by omega)
  simpa using hpassed (i := 0)

theorem run_search_some_const {body : Nat → Prog Op Res (Option β)} {n : Nat} {s : σ}
    (hconst : ∀ i r t, run exec (body i) s = .ok (r, t) → t = s) {t : σ} {b : β} :
    run exec (search body 0 n) s = .ok (some b, t) ↔
    t = s ∧ ∃ i < n, run exec (body i) s = .ok (some b, s) ∧
      ∀ j < i, run exec (body j) s = .ok (none, s) := by
  rw [run_search_some]
  constructor
  · intro h
    obtain ⟨k, hk, u, hp, hr⟩ := h
    obtain ⟨rfl, hrest⟩ := (run_search_none_const exec hconst).mp ((run_search_none exec).mpr hp)
    rw [Nat.zero_add] at hr
    obtain rfl := hconst k _ t hr
    exact ⟨rfl, k, hk, hr, hrest⟩
  · intro h
    obtain ⟨rfl, k, hk, hr, hrest⟩ := h
    refine ⟨k, hk, t, (run_search_none exec).mp ((run_search_none_const exec hconst).mpr ⟨rfl,
      hrest⟩), ?_⟩
    rwa [Nat.zero_add]

end Run

section Returns

variable {exec : (o : Op) → σ → Except ε (Res o × σ)} {P : Op → Prop}

theorem Returns.loop_next {stuck : Prog Op Res γ} {body : β → Prog Op Res (β ⊕ γ)} {n : Nat}
    {b b' : β} {c : γ} {s t u : σ} (h : Returns exec P (body b) s (.inl b') t)
    (hn : Returns exec P (loop stuck body n b') t c u) :
    Returns exec P (loop stuck body (n + 1) b) s c u :=
  h.bind hn

theorem Returns.loop_done {stuck : Prog Op Res γ} {body : β → Prog Op Res (β ⊕ γ)} {n : Nat} {b : β}
    {c : γ} {s t : σ} (h : Returns exec P (body b) s (.inr c) t) :
    Returns exec P (loop stuck body (n + 1) b) s c t :=
  h.bind (returns_ret c t)

end Returns

section Settles

variable (exec : (o : Op) → σ → Except ε (Res o × σ))

/-- With every large enough bound, the run returns `a` in state `t`. -/
def Settles (p : Nat → Prog Op Res α) (s : σ) (a : α) (t : σ) : Prop :=
  ∃ n, ∀ fuel ≥ n, run exec (p fuel) s = .ok (a, t)

variable {exec}

theorem Settles.of_run {p : Nat → Prog Op Res α} {s t : σ} {a : α}
    (h : ∀ fuel, run exec (p fuel) s = .ok (a, t)) :
    Settles exec p s a t := ⟨0, fun fuel _ => h fuel⟩

theorem Settles.bind {p : Nat → Prog Op Res α} {q : Nat → α → Prog Op Res β} {s t u : σ} {a : α} {b : β}
    (hp : Settles exec p s a t) (hq : Settles exec (fun fuel => q fuel a) t b u) :
    Settles exec (fun fuel => p fuel >>= q fuel) s b u := by
  obtain ⟨n, hn⟩ := hp
  obtain ⟨m, hm⟩ := hq
  refine ⟨max n m, fun fuel h => ?_⟩
  rw [run_bind_ok exec (hn fuel (Nat.le_trans (Nat.le_max_left n m) h))]
  exact hm fuel (Nat.le_trans (Nat.le_max_right n m) h)

theorem Settles.unique {p : Nat → Prog Op Res α} {s t u : σ} {a b : α} (h : Settles exec p s a t)
    (h' : Settles exec p s b u) : t = u := by
  obtain ⟨n, hn⟩ := h
  obtain ⟨m, hm⟩ := h'
  have hsame := (hn (max n m) (Nat.le_max_left n m)).symm.trans (hm (max n m) (Nat.le_max_right n m))
  simp only [Except.ok.injEq, Prod.mk.injEq] at hsame
  exact hsame.2

/-- Polling for something that is at most `k` iterations away. -/
theorem Settles.poll {stuck : Prog Op Res γ} {body : Prog Op Res (Unit ⊕ γ)} (P : Nat → σ → Prop)
    (hstep : ∀ k s, P k s → (∃ c t, run exec body s = .ok (.inr c, t)) ∨
      ∃ j t, k = j + 1 ∧ run exec body s = .ok (.inl (), t) ∧ P j t) {k : Nat} {s : σ} (h : P k s) :
    ∃ c t, Settles exec (fun fuel => loop stuck (fun _ => body) fuel ()) s c t := by
  have hdone {s : σ} {c : γ} {t : σ} (hr : run exec body s = .ok (.inr c, t)) :
      Settles exec (fun fuel => loop stuck (fun _ => body) fuel ()) s c t := by
    refine ⟨1, fun fuel hf => ?_⟩
    obtain ⟨m, rfl⟩ : ∃ m, fuel = m + 1 := ⟨fuel - 1, by omega⟩
    exact (run_bind_ok exec hr).trans rfl
  induction k generalizing s with
  | zero =>
    rcases hstep 0 s h with ⟨c, t, hr⟩ | ⟨j, _, hj, _⟩
    · exact ⟨c, t, hdone hr⟩
    · omega
  | succ k ih =>
    rcases hstep (k + 1) s h with ⟨c, t, hr⟩ | ⟨j, u, hj, hr, hP⟩
    · exact ⟨c, t, hdone hr⟩
    · obtain rfl : k = j := by omega
      obtain ⟨c, t, n, hn⟩ := ih hP
      refine ⟨c, t, n + 1, fun fuel hf => ?_⟩
      obtain ⟨m, rfl⟩ : ∃ m, fuel = m + 1 := ⟨fuel - 1, by omega⟩
      exact (run_bind_ok exec hr).trans (hn m (by omega))

end Settles

section Inv

variable {exec : (o : Op) → σ → Except ε (Res o × σ)}

theorem All.run_inv {P : Op → Prop} {p : Prog Op Res α} (h : All P p) {I : σ → Prop}
    (hop : ∀ o s x, P o → exec o s = .ok x → I s → I x.2) {s t : σ} {a : α}
    (hr : run exec p s = .ok (a, t)) (hs : I s) : I t := by
  induction p generalizing s with
  | ret b =>
    simp only [run_ret, Except.ok.injEq, Prod.mk.injEq] at hr
    exact hr.2 ▸ hs
  | op o k ih =>
    rw [run] at hr
    cases he : exec o s with
    | error e => simp [he] at hr
    | ok x =>
      simp only [he] at hr
      exact ih x.1 (h.2 x.1) hr (hop o s x h.1 he hs)

/-- The invariant holds at each operation, whether or not the run comes to its end. -/
theorem All.trace_inv {P : Op → Prop} {p : Prog Op Res α} (h : All P p) {I : σ → Prop}
    (hop : ∀ o s x, P o → exec o s = .ok x → I s → I x.2) {s : σ} (hs : I s) :
    ∀ x ∈ Prog.trace exec p s, I x.2 := by
  induction p generalizing s with
  | ret a => exact fun x hx => absurd hx List.not_mem_nil
  | op o k ih =>
    intro x hx
    rw [Prog.trace] at hx
    rcases List.mem_cons.mp hx with rfl | hx
    · exact hs
    · cases he : exec o s with
      | error e => simp [he] at hx
      | ok y =>
        simp only [he] at hx
        exact ih y.1 (h.2 y.1) (hop o s y h.1 he hs) x hx

theorem All.run_ok {P : Op → Prop} {p : Prog Op Res α} (h : All P p)
    (hop : ∀ o s, P o → ∃ x, exec o s = .ok x) (s : σ) : ∃ a t, run exec p s = .ok (a, t) := by
  induction p generalizing s with
  | ret a => exact ⟨a, s, rfl⟩
  | op o k ih =>
    obtain ⟨x, hx⟩ := hop o s h.1
    obtain ⟨a, t, hr⟩ := ih x.1 (h.2 x.1) x.2
    exact ⟨a, t, by rw [run, hx]; exact hr⟩

theorem All.run_ne_error {P : Op → Prop} {p : Prog Op Res α} (h : All P p) {e : ε}
    (hop : ∀ o s, P o → exec o s ≠ .error e) (s : σ) : run exec p s ≠ .error e := by
  induction p generalizing s with
  | ret a => simp
  | op o k ih =>
    rw [run]
    cases he : exec o s with
    | error e' =>
      intro hc
      exact hop o s h.1 (he.trans (congrArg Except.error (Except.error.inj hc)))
    | ok x => exact ih x.1 (h.2 x.1) x.2

theorem All.loop {P : Op → Prop} {stuck : Prog Op Res γ} {body : β → Prog Op Res (β ⊕ γ)}
    (hs : All P stuck) (hb : ∀ b, All P (body b)) (n : Nat) (b : β) :
    All P (Prog.loop stuck body n b) := by
  induction n generalizing b with
  | zero => exact hs
  | succ n ih =>
    refine (hb b).bind fun r => ?_
    cases r with
    | inl b' => exact ih b'
    | inr c => trivial

end Inv

end Prog

end OpTree
