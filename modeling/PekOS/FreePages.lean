import PekOS.Bitmap
import Mathlib.Order.Lattice.Nat

/-! `find_free_virtaddr` called again and again from boot's cursor on: every call
serves the least page left, though it resumes where the last one ended. -/

namespace PekOS

open FirstFit

variable {g : Globals} {n page : Nat}

def afterCalls (g : Globals) : Nat → Globals
  | 0 => g
  | n + 1 => (findFreeVirtaddr (afterCalls g n)).2

/-- What the call after `n` others returns. -/
def answer (g : Globals) (n : Nat) : Word := (findFreeVirtaddr (afterCalls g n)).1

/-- The pages from 0xC0000000 on whose bit was clear at the start and that none of `n` calls has
returned. -/
def leftAfter (g : Globals) (n : Nat) : Set Nat :=
  {page | 768 * 1024 ≤ page ∧ page < 1024 * 1024 ∧ marked g.virtualMmap page = false ∧
    ∀ k < n, answer g k ≠ pageAddr page}

/-- All pages from 0xC0000000 on that are clear, in order. -/
def Globals.clearPages (g : Globals) : List Nat := free (marked g.virtualMmap) (768 * 1024) (1024 * 1024)

/-- The cursor may be where it is or at the start: the search finds the same. -/
structure Resumes (g : Globals) (pages : List Nat) : Prop where
  fromCursor : g.freePages = pages
  fromStart : g.clearPages = pages

theorem Resumes.next {rest : List Nat} (h : Resumes g (page :: rest)) : Resumes (g.takePage page) rest :=
  ⟨freePages_takePage h.fromCursor,
    free_of_take h.fromStart (Nat.le_refl _) (free_head h.fromStart).1 (marked_takePage g page)⟩

theorem afterCalls_resumes (hc : g.curVirtaddrIdx = 768 * 32) (n : Nat) :
    Resumes (afterCalls g n) (g.clearPages.drop n) := by
  induction n with
  | zero =>
    refine ⟨?_, rfl⟩
    rw [afterCalls, Globals.freePages, hc]
    rfl
  | succ n ih =>
    rw [afterCalls]
    cases h : g.clearPages.drop n with
    | nil =>
      rw [h] at ih
      rw [findFreeVirtaddr_nil ih.fromCursor, ← List.drop_drop, h]
      exact ih
    | cons page rest =>
      rw [h] at ih
      rw [findFreeVirtaddr_cons ih.fromCursor, ← List.drop_drop, h]
      exact ih.next

theorem pageAddr_injective {p q : Nat} (hp : p < 1024 * 1024) (hq : q < 1024 * 1024)
    (h : pageAddr p = pageAddr q) : p = q := by
  have hnat := congrArg BitVec.toNat h
  rw [pageAddr_toNat hp, pageAddr_toNat hq] at hnat
  omega

theorem answer_eq (hc : g.curVirtaddrIdx = 768 * 32) (n : Nat) :
    answer g n = ((g.clearPages[n]?).map pageAddr).getD 0#32 := by
  have h := afterCalls_resumes hc n
  rw [← List.head?_drop, answer]
  cases hd : g.clearPages.drop n with
  | nil =>
    rw [hd] at h
    rw [findFreeVirtaddr_nil h.fromCursor]
    rfl
  | cons page rest =>
    rw [hd] at h
    rw [findFreeVirtaddr_cons h.fromCursor]
    rfl

theorem mem_clearPages : page ∈ g.clearPages ↔
    768 * 1024 ≤ page ∧ page < 1024 * 1024 ∧ marked g.virtualMmap page = false := mem_free

theorem answer_eq_pageAddr (hc : g.curVirtaddrIdx = 768 * 32) (hp : page ∈ g.clearPages) (k : Nat) :
    answer g k = pageAddr page ↔ g.clearPages[k]? = some page := by
  obtain ⟨hge, hlt, -⟩ := mem_clearPages.mp hp
  rw [answer_eq hc]
  cases hk : g.clearPages[k]? with
  | none =>
    have hzero : 0#32 ≠ pageAddr page := fun he => by
      have hnat := congrArg BitVec.toNat he
      rw [pageAddr_toNat hlt, BitVec.toNat_ofNat] at hnat
      omega
    simpa using hzero
  | some q =>
    have hq := mem_clearPages.mp (List.mem_of_getElem? hk)
    simp only [Option.map_some, Option.getD_some, Option.some.injEq]
    exact ⟨pageAddr_injective hq.2.1 hlt, congrArg pageAddr⟩

theorem mem_leftAfter (hc : g.curVirtaddrIdx = 768 * 32) :
    page ∈ leftAfter g n ↔ page ∈ g.clearPages.drop n := by
  have hnodup : g.clearPages.Nodup := (pairwise_free _ _ _).imp fun h => h.ne
  rw [mem_drop_of_nodup hnodup]
  constructor
  · rintro ⟨hge, hlt, hu, hnot⟩
    have hmem := mem_clearPages.mpr ⟨hge, hlt, hu⟩
    exact ⟨hmem, fun k hk he => hnot k hk ((answer_eq_pageAddr hc hmem k).mpr he)⟩
  · rintro ⟨hmem, hnot⟩
    obtain ⟨hge, hlt, hu⟩ := mem_clearPages.mp hmem
    exact ⟨hge, hlt, hu, fun k hk he => hnot k hk ((answer_eq_pageAddr hc hmem k).mp he)⟩

theorem answer_of_isLeast (hc : g.curVirtaddrIdx = 768 * 32) (h : IsLeast (leftAfter g n) page) :
    answer g n = pageAddr page ∧ afterCalls g (n + 1) = (afterCalls g n).takePage page := by
  have hr := afterCalls_resumes hc n
  have hmem := (mem_leftAfter hc).mp h.1
  rw [answer, afterCalls]
  cases hd : g.clearPages.drop n with
  | nil => simp [hd] at hmem
  | cons q rest =>
    have hsorted : (q :: rest).Pairwise (· < ·) :=
      hd ▸ (pairwise_free _ _ _).sublist (List.drop_sublist n _)
    rw [hd] at hr hmem
    have hle : page ≤ q := h.2 ((mem_leftAfter hc).mpr (hd ▸ List.mem_cons_self))
    have hpage : page = q := by
      rcases List.mem_cons.mp hmem with hq | hq
      · exact hq
      · have := List.rel_of_pairwise_cons hsorted hq
        omega
    rw [findFreeVirtaddr_cons hr.fromCursor, hpage]
    exact ⟨rfl, rfl⟩

theorem answer_of_empty (hc : g.curVirtaddrIdx = 768 * 32) (h : leftAfter g n = ∅) :
    answer g n = 0#32 ∧ afterCalls g (n + 1) = afterCalls g n := by
  have hr := afterCalls_resumes hc n
  have hnil : g.clearPages.drop n = [] := List.eq_nil_iff_forall_not_mem.mpr fun page hp => by
    have : page ∈ leftAfter g n := (mem_leftAfter hc).mpr hp
    rw [h] at this
    exact this
  rw [hnil] at hr
  rw [answer, afterCalls, findFreeVirtaddr_nil hr.fromCursor]
  exact ⟨rfl, rfl⟩

theorem exists_isLeast_leftAfter (h : leftAfter g n ≠ ∅) : ∃ page, IsLeast (leftAfter g n) page := by
  obtain ⟨page, hp⟩ := Set.nonempty_iff_ne_empty.mpr h
  exact ⟨sInf (leftAfter g n), Nat.sInf_mem ⟨page, hp⟩, fun q hq => Nat.sInf_le hq⟩

theorem pageAddr_lt {p q : Nat} (hq : q < 1024 * 1024) (h : p < q) : pageAddr p < pageAddr q := by
  rw [BitVec.lt_def, pageAddr_toNat hq, pageAddr_toNat (h.trans hq)]
  exact Nat.mul_lt_mul_of_pos_right h (by decide)

theorem clearPages_lt {k : Nat} (hk : k < n) (hn : g.clearPages[n]? = some page) :
    ∃ q, g.clearPages[k]? = some q ∧ q < page := by
  have hsorted : g.clearPages.Pairwise (· < ·) := pairwise_free _ _ _
  obtain ⟨hlen, hpage⟩ := List.getElem?_eq_some_iff.mp hn
  have hlt := List.pairwise_iff_getElem.mp hsorted k n (hk.trans hlen) hlen hk
  exact ⟨_, List.getElem?_eq_getElem (hk.trans hlen), hpage ▸ hlt⟩

/-- The answer that is not `NULL` is above every earlier one. -/
theorem answer_lt_answer (hc : g.curVirtaddrIdx = 768 * 32) {k : Nat} (hk : k < n)
    (hz : answer g n ≠ 0#32) : answer g k < answer g n := by
  have ha := answer_eq hc n
  cases hn : g.clearPages[n]? with
  | none => exact absurd (by rw [ha, hn]; rfl) hz
  | some page =>
    obtain ⟨q, hq, hlt⟩ := clearPages_lt hk hn
    rw [ha, answer_eq hc k, hn, hq]
    exact pageAddr_lt (mem_clearPages.mp (List.mem_of_getElem? hn)).2.1 hlt

theorem freePages_start (g : Globals) :
    Globals.freePages { g with curVirtaddrIdx := 768 * 32 } = g.clearPages := by
  rw [Globals.freePages, Globals.clearPages, show 768 * 32 * 32 = 768 * 1024 by omega]

/-- However often it has been called, a call searches as if from 0xC0000000 on. -/
theorem findFreeVirtaddr_fullScan (hc : g.curVirtaddrIdx = 768 * 32) (n : Nat) :
    (findFreeVirtaddr { afterCalls g n with curVirtaddrIdx := 768 * 32 }).1 = answer g n ∧
      (findFreeVirtaddr { afterCalls g n with curVirtaddrIdx := 768 * 32 }).2.virtualMmap =
        (afterCalls g (n + 1)).virtualMmap := by
  have hr := afterCalls_resumes hc n
  have hstart := (freePages_start (afterCalls g n)).trans hr.fromStart
  rw [answer, afterCalls]
  cases hd : g.clearPages.drop n with
  | nil =>
    rw [hd] at hr hstart
    rw [findFreeVirtaddr_nil hr.fromCursor, findFreeVirtaddr_nil hstart]
    exact ⟨rfl, rfl⟩
  | cons page rest =>
    rw [hd] at hr hstart
    rw [findFreeVirtaddr_cons hr.fromCursor, findFreeVirtaddr_cons hstart]
    exact ⟨rfl, rfl⟩

/-- Any number of calls of `find_free_virtaddr` from boot's cursor on serve the
clear pages from 0xC0000000 on, the least one left each time. -/
theorem findFreeVirtaddr_first_fit (hc : g.curVirtaddrIdx = 768 * 32) (n : Nat) :
    (∀ page, IsLeast (leftAfter g n) page →
      answer g n = pageAddr page ∧ (answer g n).toNat = page * 4096 ∧
      ∀ q, marked (afterCalls g (n + 1)).virtualMmap q =
        (decide (q = page) || marked (afterCalls g n).virtualMmap q)) ∧
    (answer g n = 0#32 ↔ leftAfter g n = ∅) ∧
    (afterCalls g (n + 1) = afterCalls g n ↔ leftAfter g n = ∅) ∧
    ((findFreeVirtaddr { afterCalls g n with curVirtaddrIdx := 768 * 32 }).1 = answer g n ∧
      (findFreeVirtaddr { afterCalls g n with curVirtaddrIdx := 768 * 32 }).2.virtualMmap =
        (afterCalls g (n + 1)).virtualMmap) ∧
    (answer g n).toNat % 4096 = 0 ∧ ∀ k < n, answer g n ≠ 0#32 → answer g k < answer g n := by
  have hleast : ∀ page, IsLeast (leftAfter g n) page →
      answer g n = pageAddr page ∧ (answer g n).toNat = page * 4096 ∧
      ∀ q, marked (afterCalls g (n + 1)).virtualMmap q =
        (decide (q = page) || marked (afterCalls g n).virtualMmap q) := fun page h => by
    obtain ⟨ha, hg⟩ := answer_of_isLeast hc h
    refine ⟨ha, by rw [ha, pageAddr_toNat h.1.2.1], fun q => ?_⟩
    rw [hg, marked_takePage]
  have hnull : answer g n = 0#32 → leftAfter g n = ∅ := fun hz => by
    by_contra hne
    obtain ⟨page, h⟩ := exists_isLeast_leftAfter hne
    obtain ⟨-, ha, -⟩ := hleast page h
    rw [hz, BitVec.toNat_ofNat] at ha
    have := h.1.1
    omega
  have hsame : afterCalls g (n + 1) = afterCalls g n → leftAfter g n = ∅ := fun hs => by
    by_contra hne
    obtain ⟨page, h⟩ := exists_isLeast_leftAfter hne
    obtain ⟨-, -, hm⟩ := hleast page h
    have hbit := hm page
    have hclear := (mem_leftAfter hc).mp h.1
    rw [← (afterCalls_resumes hc n).fromStart] at hclear
    simp [hs, (mem_clearPages.mp hclear).2.2] at hbit
  refine ⟨hleast, ⟨hnull, fun h => (answer_of_empty hc h).1⟩, ⟨hsame, fun h => (answer_of_empty hc h).2⟩,
    findFreeVirtaddr_fullScan hc n, ?_, fun k hk hz => answer_lt_answer hc hk hz⟩
  by_cases h : leftAfter g n = ∅
  · simp [(answer_of_empty hc h).1]
  · obtain ⟨page, h⟩ := exists_isLeast_leftAfter h
    rw [(hleast page h).2.1, Nat.mul_mod_left]

/-- The first and the third page from 0xC0000000 on are marked. -/
def twoMarked : Globals :=
  { initialGlobals with virtualMmap := fun k => if k = 768 * 32 then 0xA0000000#32 else 0#32 }

/-- The third call on that bitmap answers the fifth page. -/
theorem findFreeVirtaddr_first_fit_third :
    answer twoMarked 0 = 0xC0001000#32 ∧ answer twoMarked 1 = 0xC0003000#32 ∧
      answer twoMarked 2 = 0xC0004000#32 ∧
      (∀ q, marked (afterCalls twoMarked 3).virtualMmap q =
        (decide (q = 0xC0004) || marked (afterCalls twoMarked 2).virtualMmap q)) ∧
      ((findFreeVirtaddr { afterCalls twoMarked 2 with curVirtaddrIdx := 768 * 32 }).1 =
        answer twoMarked 2 ∧
        (findFreeVirtaddr { afterCalls twoMarked 2 with curVirtaddrIdx := 768 * 32 }).2.virtualMmap =
          (afterCalls twoMarked 3).virtualMmap) ∧
      ∀ k < 2, answer twoMarked k < answer twoMarked 2 := by
  have hanswers : answer twoMarked 0 = 0xC0001000#32 ∧ answer twoMarked 1 = 0xC0003000#32 ∧
      answer twoMarked 2 = 0xC0004000#32 := by decide +kernel
  obtain ⟨h0, h1, h2⟩ := hanswers
  obtain ⟨hleast, hnull, -, hscan, -, hlt⟩ := findFreeVirtaddr_first_fit (g := twoMarked) rfl 2
  have hne : answer twoMarked 2 ≠ 0#32 := by
    rw [h2]
    decide
  obtain ⟨page, hp⟩ := exists_isLeast_leftAfter fun h => hne (hnull.mpr h)
  obtain ⟨-, hpage, hmarked⟩ := hleast page hp
  have hpage' : 0xC0004000 = page * 4096 := by
    rw [h2] at hpage
    exact hpage
  obtain rfl : page = 0xC0004 := by omega
  exact ⟨h0, h1, h2, hmarked, hscan, fun k hk => hlt k hk hne⟩

end PekOS
