import PekOS.Library.Loops
import Mathlib.Data.Fintype.Pigeonhole
import Mathlib.Logic.Relation

/-! Loops whose iterations leave the state alone: a walk from value to value,
which ends exactly if it comes to no value twice. -/

namespace OpTree

open Relation

section Relation

variable {β : Type} {r : β → β → Prop}

/-- On a finite type, a walk with one way to go ends unless it runs in a circle. -/
theorem ends_iff_acyclic [Finite β] (hr : Relator.RightUnique r) (b : β) :
    (∃ c, ReflTransGen r b c ∧ ∀ d, ¬ r c d) ↔ ∀ c, ReflTransGen r b c → ¬ TransGen r c c := by
  constructor
  · rintro ⟨last, hlast, hend⟩ c hc hcycle
    -- on a circle every value has a next one
    have hgoes {d : β} (hd : ReflTransGen r c d) : ∃ e, r d e := by
      have hloop : TransGen r d d := by
        induction hd with
        | refl => exact hcycle
        | tail _ hstep ih =>
          obtain ⟨e, he, hrest⟩ := TransGen.head'_iff.mp ih
          obtain rfl := hr he hstep
          exact TransGen.tail' hrest hstep
      obtain ⟨e, he, -⟩ := TransGen.head'_iff.mp hloop
      exact ⟨e, he⟩
    rcases ReflTransGen.total_of_right_unique hr hlast hc with h | h
    · rcases ReflTransGen.cases_head h with rfl | ⟨d, hd, -⟩
      · obtain ⟨e, he⟩ := hgoes .refl
        exact hend e he
      · exact hend d hd
    · obtain ⟨e, he⟩ := hgoes h
      exact hend e he
  · intro h
    by_contra hnone
    have hnext : ∀ c : β, ∃ d, ReflTransGen r b c → r c d := fun c => by
      by_cases hc : ReflTransGen r b c
      · by_contra hno
        exact hnone ⟨c, hc, fun d hd => hno ⟨d, fun _ => hd⟩⟩
      · exact ⟨c, fun hc' => absurd hc' hc⟩
    choose f hf using hnext
    have hreach (n : Nat) : ReflTransGen r b (f^[n] b) := by
      induction n with
      | zero => exact .refl
      | succ n ih =>
        rw [Function.iterate_succ_apply']
        exact ih.tail (hf _ ih)
    have hlater {m n : Nat} (hlt : m < n) : TransGen r (f^[m] b) (f^[n] b) := by
      induction n with
      | zero => omega
      | succ n ih =>
        have hstep := hf _ (hreach n)
        rw [← Function.iterate_succ_apply' f n b] at hstep
        rcases Nat.lt_succ_iff_lt_or_eq.mp hlt with hlt | rfl
        · exact (ih hlt).tail hstep
        · exact .single hstep
    obtain ⟨m, n, hne, hsame⟩ := Finite.exists_ne_map_eq_of_infinite fun n : Nat => f^[n] b
    rcases Nat.lt_or_gt_of_ne hne with hlt | hlt
    · have hcycle := hlater hlt
      rw [← show f^[m] b = f^[n] b from hsame] at hcycle
      exact h _ (hreach m) hcycle
    · have hcycle := hlater hlt
      rw [show f^[m] b = f^[n] b from hsame] at hcycle
      exact h _ (hreach n) hcycle

theorem acyclic_of_increasing {b : β} (f : β → Nat)
    (h : ∀ c d, ReflTransGen r b c → r c d → f c < f d) (c : β) (hc : ReflTransGen r b c) :
    ¬ TransGen r c c := by
  have hlater {d : β} (hd : TransGen r c d) : f c < f d := by
    induction hd with
    | single hd => exact h _ _ hc hd
    | tail hd hstep ih => exact ih.trans (h _ _ (hc.trans hd.to_reflTransGen) hstep)
  exact fun hcycle => Nat.lt_irrefl _ (hlater hcycle)

end Relation

namespace Prog

variable {Op : Type} {Res : Op → Type} {β γ σ ε : Type} (exec : (o : Op) → σ → Except ε (Res o × σ))
variable (body : β → Prog Op Res (β ⊕ γ)) (s : σ)

/-- An iteration from `b` goes on from `c`. -/
def Next (b c : β) : Prop := run exec (body b) s = .ok (.inl c, s)

theorem next_unique : Relator.RightUnique (Next exec body s) := by
  intro b c d hc hd
  have h := hc.symm.trans hd
  simpa using h

variable {exec body s} {stuck : Prog Op Res γ} {b c : β}

theorem Next.run_loop (h : Next exec body s b c) (n : Nat) :
    run exec (loop stuck body (n + 1) b) s = run exec (loop stuck body n c) s := by
  rw [loop, run_bind_ok exec h]

/-- The bound is reached exactly if the walk does not end. -/
theorem loop_ends_iff {e : ε} (hconst : ∀ b r t, run exec (body b) s = .ok (r, t) → t = s)
    (hstuck : run exec stuck s = .error e) (hbody : ∀ b, run exec (body b) s ≠ .error e) :
    (∃ n, ∀ fuel ≥ n, run exec (loop stuck body fuel b) s ≠ .error e) ↔
      ∃ c, ReflTransGen (Next exec body s) b c ∧ ∀ d, ¬ Next exec body s c d := by
  constructor
  · rintro ⟨n, hn⟩
    have h := hn n (Nat.le_refl n)
    clear hn
    induction n generalizing b with
    | zero => exact absurd hstuck h
    | succ n ih =>
      by_cases hnext : ∃ c, Next exec body s b c
      · obtain ⟨c, hc⟩ := hnext
        rw [hc.run_loop] at h
        obtain ⟨d, hd, hend⟩ := ih h
        exact ⟨d, .head hc hd, hend⟩
      · exact ⟨b, .refl, fun d hd => hnext ⟨d, hd⟩⟩
  · rintro ⟨c, hc, hend⟩
    induction hc using ReflTransGen.head_induction_on with
    | refl =>
      refine ⟨1, fun fuel hfuel => ?_⟩
      obtain ⟨n, rfl⟩ : ∃ n, fuel = n + 1 := ⟨fuel - 1, by omega⟩
      cases hr : run exec (body c) s with
      | error e' =>
        rw [loop, run_bind_error exec hr]
        intro he
        obtain rfl := Except.error.inj he
        exact hbody c hr
      | ok x =>
        obtain ⟨r, t⟩ := x
        obtain rfl := hconst c r t hr
        rw [loop, run_bind_ok exec hr]
        cases r with
        | inl d => exact absurd hr (hend d)
        | inr a => simp
    | head hstep _ ih =>
      obtain ⟨n, hn⟩ := ih
      refine ⟨n + 1, fun fuel hfuel => ?_⟩
      obtain ⟨m, rfl⟩ : ∃ m, fuel = m + 1 := ⟨fuel - 1, by omega⟩
      rw [hstep.run_loop]
      exact hn m (by omega)

/-- A loop each of whose iterations along the walk returns fails at the bound only. -/
theorem loop_error {e e' : ε} (hbody : ∀ c, ReflTransGen (Next exec body s) b c →
    ∃ r, run exec (body c) s = .ok (r, s)) (hstuck : run exec stuck s = .error e) {n : Nat} (h :
    run exec (loop stuck body n b) s = .error e') : e' = e := by
  induction n generalizing b with
  | zero => exact Except.error.inj (h.symm.trans hstuck)
  | succ n ih =>
    obtain ⟨r, hr⟩ := hbody b .refl
    rw [loop, run_bind_ok exec hr] at h
    cases r with
    | inl c => exact ih (fun d hd => hbody d (.head hr hd)) h
    | inr a => cases h

/-- What the loop does is what the iterations along the walk do. -/
theorem along_loop_iff {P : Op × σ → Prop} (hconst : ∀ b r t, run exec (body b) s = .ok (r, t) → t = s)
    (hstuck : Along exec P stuck s) :
    (∀ n, Along exec P (loop stuck body n b) s) ↔
      ∀ c, ReflTransGen (Next exec body s) b c → Along exec P (body c) s := by
  constructor
  · intro h c hc
    induction hc using ReflTransGen.head_induction_on with
    | refl => exact ((along_bind_iff exec P).mp (h 1)).1
    | head hstep _ ih => exact ih fun n => ((along_bind_iff exec P).mp (h (n + 1))).2 _ s hstep
  · intro h n
    induction n generalizing b with
    | zero => exact hstuck
    | succ n ih =>
      refine (along_bind_iff exec P).mpr ⟨h b .refl, fun r t hr => ?_⟩
      obtain rfl := hconst b r t hr
      cases r with
      | inl d => exact ih fun c hc => h c (.head hr hc)
      | inr a => exact along_ret exec P a t

end Prog

end OpTree
