import Mathlib.Data.List.Nodup
import Mathlib.Data.List.Range
import Mathlib.Order.Bounds.Defs

/-! First-fit allocation of numbered slots. The slots an allocator still has to
offer form a queue: each request takes its head. -/

namespace FirstFit

/-- The unused slots from `lo` up to `hi`, in order. -/
def free (used : Nat → Bool) (lo hi : Nat) : List Nat :=
  (List.range' lo (hi - lo)).filter fun q => !used q

variable {used used' : Nat → Bool} {lo lo' hi p q : Nat} {rest : List Nat}

theorem mem_free : q ∈ free used lo hi ↔ lo ≤ q ∧ q < hi ∧ used q = false := by
  simp only [free, List.mem_filter, List.mem_range'_1, Bool.not_eq_true']
  constructor
  · rintro ⟨⟨hlo, hhi⟩, hu⟩
    exact ⟨hlo, by omega, hu⟩
  · rintro ⟨hlo, hhi, hu⟩
    exact ⟨⟨hlo, by omega⟩, hu⟩

theorem pairwise_free (used : Nat → Bool) (lo hi : Nat) : (free used lo hi).Pairwise (· < ·) :=
  (List.pairwise_lt_range' 1).filter _

theorem lt_of_free_cons (h : free used lo hi = p :: rest) (hq : q ∈ rest) : p < q := by
  have hp := pairwise_free used lo hi
  rw [h, List.pairwise_cons] at hp
  exact hp.1 q hq

theorem free_head (h : free used lo hi = p :: rest) : lo ≤ p ∧ p < hi ∧ used p = false :=
  mem_free.mp (h ▸ List.mem_cons_self)

theorem exists_free_head (hm : q ∈ free used lo hi) : ∃ p rest, free used lo hi = p :: rest ∧ p ≤ q := by
  cases hf : free used lo hi with
  | nil => simp [hf] at hm
  | cons p rest =>
    refine ⟨p, rest, rfl, ?_⟩
    rcases List.mem_cons.mp (hf ▸ hm) with he | hr
    · exact he.ge
    · exact (lt_of_free_cons hf hr).le

theorem used_of_lt_head (h : free used lo hi = p :: rest) (hlo : lo ≤ q) (hq : q < p) :
    used q = true := by
  by_contra hu
  have hm : q ∈ p :: rest :=
    h ▸ mem_free.mpr ⟨hlo, hq.trans (free_head h).2.1, Bool.eq_false_iff.mpr hu⟩
  rcases List.mem_cons.mp hm with rfl | hm
  · exact hq.ne rfl
  · exact absurd (lt_of_free_cons h hm) (by omega)

theorem free_of_isLeast (h : IsLeast {q | lo ≤ q ∧ q < hi ∧ used q = false} p) :
    ∃ rest, free used lo hi = p :: rest := by
  obtain ⟨q, rest, hf, hq⟩ := exists_free_head (mem_free.mpr h.1)
  have hle : p ≤ q := h.2 (free_head hf)
  exact ⟨rest, Nat.le_antisymm hle hq ▸ hf⟩

theorem free_split (used : Nat → Bool) (hlo : lo ≤ p) (hp : p ≤ hi) :
    free used lo hi = free used lo p ++ free used p hi := by
  have hr : List.range' lo (hi - lo) = List.range' lo (p - lo) ++ List.range' p (hi - p) := by
    have h := List.range'_append_1 (s := lo) (m := p - lo) (n := hi - p)
    rw [show lo + (p - lo) = p by omega, show p - lo + (hi - p) = hi - lo by omega] at h
    exact h.symm
  rw [free, hr, List.filter_append, free, free]

theorem free_congr (h : ∀ q, lo ≤ q → q < hi → used q = used' q) :
    free used lo hi = free used' lo hi := by
  refine List.filter_congr fun q hq => ?_
  rw [List.mem_range'_1] at hq
  rw [h q hq.1 (by omega)]

theorem free_eq_nil (h : ∀ q, lo ≤ q → q < hi → used q = true) : free used lo hi = [] := by
  refine List.eq_nil_iff_forall_not_mem.mpr fun q hq => ?_
  obtain ⟨hlo, hhi, hu⟩ := mem_free.mp hq
  simp [h q hlo hhi] at hu

theorem free_succ (hp : p < hi) :
    free used p hi = if used p then free used (p + 1) hi else p :: free used (p + 1) hi := by
  rw [free, show hi - p = hi - (p + 1) + 1 by omega, List.range'_succ, List.filter_cons]
  cases used p <;> rfl

/-- Marking the head, wherever at or below it the search resumes, leaves the tail. -/
theorem free_of_take (h : free used lo hi = p :: rest) (hlo : lo ≤ lo') (hp : lo' ≤ p)
    (hu : ∀ q, used' q = (decide (q = p) || used q)) : free used' lo' hi = rest := by
  obtain ⟨hle, hlt, hfree⟩ := free_head h
  have hpre : free used lo p = [] := free_eq_nil fun q hlo hq => used_of_lt_head h hlo hq
  have hpre' : free used' lo' p = [] := free_eq_nil fun q hlo' hq => by
    rw [hu, used_of_lt_head h (hlo.trans hlo') hq, Bool.or_true]
  have hsame : free used' (p + 1) hi = free used (p + 1) hi := free_congr fun q hq _ => by
    rw [hu, decide_eq_false (by omega), Bool.false_or]
  have hup : used' p = true := by rw [hu, decide_eq_true rfl, Bool.true_or]
  have hrest := free_split used hle hlt.le
  rw [h, hpre, List.nil_append, free_succ hlt, hfree, if_neg Bool.false_ne_true] at hrest
  rw [free_split _ hp hlt.le, hpre', List.nil_append, free_succ hlt, hup, if_pos rfl, hsame]
  exact (List.cons.inj hrest).2.symm

/-- What is left of a queue after `n` slots are the slots not among these. -/
theorem mem_drop_of_nodup {l : List Nat} (hl : l.Nodup) {n : Nat} :
    q ∈ l.drop n ↔ q ∈ l ∧ ∀ k < n, l[k]? ≠ some q := by
  constructor
  · intro h
    refine ⟨List.mem_of_mem_drop h, fun k hk he => ?_⟩
    obtain ⟨i, hi⟩ := List.getElem?_of_mem h
    rw [List.getElem?_drop] at hi
    have hlt : k < l.length := (List.getElem?_eq_some_iff.mp he).1
    have := (List.getElem?_inj hlt hl).mp (he.trans hi.symm)
    omega
  · rintro ⟨h, hnot⟩
    obtain ⟨i, hi⟩ := List.getElem?_of_mem h
    have hni : n ≤ i := Nat.le_of_not_lt fun hlt => hnot i hlt hi
    refine List.mem_of_getElem? (i := i - n) ?_
    rw [List.getElem?_drop, show n + (i - n) = i by omega, hi]

/-- A queue that holds `k + 1` slots in a row has served them after `k` others. -/
theorem getElem_le_of_mem {l : List Nat} (hl : l.Pairwise (· < ·)) {k : Nat} (h : ∀ j ≤ k, p + j ∈ l) :
    ∃ hk : k < l.length, l[k] ≤ p + k := by
  induction k generalizing l p with
  | zero =>
    have hp : p ∈ l := h 0 (Nat.le_refl 0)
    cases l with
    | nil => simp at hp
    | cons a l =>
      refine ⟨Nat.zero_lt_succ _, ?_⟩
      rcases List.mem_cons.mp hp with rfl | hp
      · exact Nat.le_refl p
      · exact (List.rel_of_pairwise_cons hl hp).le
  | succ k ih =>
    cases l with
    | nil => exact absurd (h 0 (Nat.zero_le _)) List.not_mem_nil
    | cons a l =>
      have ha : a ≤ p := by
        rcases List.mem_cons.mp (h 0 (Nat.zero_le _)) with he | hp
        · exact he.ge
        · exact (List.rel_of_pairwise_cons hl hp).le
      obtain ⟨hk, hle⟩ := ih (p := p + 1) hl.of_cons fun j hj => by
        have hmem := h (j + 1) (by omega)
        rw [show p + (j + 1) = p + 1 + j by omega] at hmem
        exact (List.mem_cons.mp hmem).resolve_left (by omega)
      exact ⟨Nat.succ_lt_succ hk, by rw [List.getElem_cons_succ]; omega⟩

/-- A queue served `n` times, `none` standing for a request that finds it empty. -/
def served : Nat → List Nat → List (Option Nat)
  | 0, _ => []
  | n + 1, l => l.head? :: served n l.tail

theorem some_mem_served {n : Nat} {l : List Nat} : some q ∈ served n l ↔ q ∈ l.take n := by
  induction n generalizing l with
  | zero => simp [served]
  | succ n ih =>
    cases l with
    | nil => simp [served, ih]
    | cons p l => simp [served, ih]

/-- A bound on the slots of a queue that ends beyond it: none of the first `n`
slots reaches the bound exactly when `n` does not exceed the slots below it, or
no slot is beyond it. -/
theorem take_lt_iff (hlo : lo ≤ p) (hp : p ≤ hi) {n : Nat} :
    (∀ q ∈ (free used lo hi).take n, q < p) ↔
      n ≤ (free used lo p).length ∨ ∀ q, p ≤ q → q < hi → used q = true := by
  rw [free_split _ hlo hp, List.take_append]
  constructor
  · intro h
    by_contra hn
    obtain ⟨hlen, hall⟩ := not_or.mp hn
    obtain ⟨q, hq⟩ := not_forall.mp hall
    obtain ⟨hpq, hq⟩ := Classical.not_imp.mp hq
    obtain ⟨hq, hu⟩ := Classical.not_imp.mp hq
    have hmem : q ∈ free used p hi := mem_free.mpr ⟨hpq, hq, Bool.eq_false_iff.mpr hu⟩
    obtain ⟨r, l, hf, -⟩ := exists_free_head hmem
    have hr := (free_head hf).1
    refine absurd (h r (List.mem_append_right _ ?_)) (by omega)
    rw [hf, show n - (free used lo p).length = n - (free used lo p).length - 1 + 1 by omega]
    exact List.mem_cons_self
  · intro h q hq
    rcases List.mem_append.mp hq with hq | hq
    · exact (mem_free.mp (List.mem_of_mem_take hq)).2.1
    · rcases h with h | h
      · simp [show n - (free used lo p).length = 0 by omega] at hq
      · simp [free_eq_nil h] at hq

end FirstFit
