import PekOS.Steps
import Mathlib.Data.Fintype.Card
import Mathlib.Order.Interval.Finset.Nat

/-! A machine whose bitmap covers its page tables, and what it takes to give a
physical page the next virtual one. -/

namespace PekOS

open OpTree FirstFit

variable {image : KernelImage} {s t : Machine} {p v : Word} {page : Nat} {rest : List Nat}

theorem dirOf_ne_selfDir_iff : dirOf v ≠ selfDir ↔ v.toNat < 0xFFC00000 := by
  have hv := v.isLt
  have hd := dirOf_toNat v
  rw [Ne, ← BitVec.toNat_inj, selfDir, BitVec.toNat_ofNat]
  omega

theorem mapped_iff {page : Nat} (h : page < 1024 * 1024) :
    s.mapped page = true ↔ s.walk (dirOf (pageAddr page)) (tabOf (pageAddr page)) ≠ none := by
  rw [Machine.mapped, dirOf_pageAddr h, tabOf_pageAddr h, Option.isSome_iff_ne_none]

theorem mapped_frameOf (v : Word) :
    s.mapped (frameOf v).toNat = true ↔ s.walk (dirOf v) (tabOf v) ≠ none := by
  have hlt : (frameOf v).toNat < 1024 * 1024 := (frameOf v).isLt
  have hframe : frameOf (pageAddr (frameOf v).toNat) = frameOf v := by
    apply BitVec.eq_of_toNat_eq
    rw [frameOf_toNat, pageAddr_toNat hlt]
    omega
  obtain ⟨hd, hi⟩ := frameOf_eq_iff.mp hframe
  rw [mapped_iff hlt, hd, hi]

theorem aligned_pageAddr {page : Nat} (h : page < 1024 * 1024) : aligned 4096 (pageAddr page) := by
  rw [aligned, pageAddr_toNat h]
  omega

/-- The page served next, and the bitmap without it. -/
theorem nextPage_of_cons {page : Nat} {rest : List Nat} (h : s.globals.freePages = page :: rest) :
    s.nextPage = pageAddr page ∧ s.takePage.globals = s.globals.takePage page := by
  rw [Machine.nextPage, Machine.takePage, Machine.withGlobals_globals, findFreeVirtaddr_cons h]
  exact ⟨rfl, rfl⟩

theorem nextPage_of_nil (h : s.globals.freePages = []) : s.nextPage = 0#32 := by
  rw [Machine.nextPage, findFreeVirtaddr_nil h]

theorem nextPage_ne_zero (h : s.nextPage ≠ 0#32) : ∃ page rest, s.globals.freePages = page :: rest ∧
    page < 1024 * 1024 ∧ s.globals.curVirtaddrIdx * 32 ≤ page ∧
    marked s.globals.virtualMmap page = false := by
  cases hf : s.globals.freePages with
  | nil => exact absurd (nextPage_of_nil hf) h
  | cons page rest =>
    obtain ⟨hlo, hhi, hu⟩ := free_head hf
    exact ⟨page, rest, rfl, hhi, hlo, hu⟩

/-- With no table below the kernel half there are at most 254 of them, for the
entries 769 to 1022. -/
theorem Tables.kernelPTIndex_le (h : Tables image s)
    (hlow : ∀ d, present (s.pde d) = true → 768 ≤ d.toNat) : s.globals.kernelPTIndex.toNat ≤ 254 := by
  by_contra hgt
  have hused (k : Fin 255) := h.used k (by omega)
  choose d hself h768 hd hf using hused
  have hrange (k : Fin 255) : 769 ≤ (d k).toNat ∧ (d k).toNat ≤ 1022 := by
    have hlt := (d k).isLt
    have hge := hlow _ (hd k)
    have h₁ : (d k).toNat ≠ 1023 := fun he => hself k (BitVec.eq_of_toNat_eq he)
    have h₂ : (d k).toNat ≠ 768 := fun he => h768 k (BitVec.eq_of_toNat_eq he)
    omega
  have hinj : Function.Injective fun k => (d k).toNat := by
    intro j k hjk
    have hd' : d j = d k := BitVec.eq_of_toNat_eq hjk
    have hframe : image.tableFrame j = image.tableFrame k := by rw [← hf, ← hf, hd']
    exact Fin.ext (image.tableFrame_injective (by omega) (by omega) hframe)
  have hsub : Finset.univ.image (fun k => (d k).toNat) ⊆ Finset.Icc 769 1022 := by
    intro x hx
    obtain ⟨k, -, rfl⟩ := Finset.mem_image.mp hx
    exact Finset.mem_Icc.mpr (hrange k)
  have hcard := Finset.card_le_card hsub
  rw [Finset.card_image_of_injective _ hinj, Finset.card_univ, Fintype.card_fin, Nat.card_Icc] at hcard
  omega

/-- The state between boot and the first page fault: the pages that are mapped
below the window are marked, and there is no table for the lower half. -/
structure Paged (image : KernelImage) (s : Machine) : Prop where
  tables : Tables image s
  cursor : 768 * 32 ≤ s.globals.curVirtaddrIdx
  bitmap : ∀ page, 0xC0000 ≤ page → page < 0xFFC00 → s.mapped page = true →
    marked s.globals.virtualMmap page = true
  high : ∀ d, present (s.pde d) = true → 768 ≤ d.toNat

theorem Booted.paged (h : Booted image s) : Paged image s := by
  obtain ⟨m, hl, hi⟩ := h.initialised
  refine ⟨hi.tables_wf, hi.curVirtaddrIdx.ge, fun page _ hlt hm => ?_, fun d hd => ?_⟩
  · rw [hi.bitmap page (by omega), hm]
  · rcases hi.present_pde_iff.mp hd with rfl | rfl <;> decide

/-- Boot leaves the directory entries from 769 up to the window absent, and their pages clear. -/
theorem Booted.clear (h : Booted image s) (hge : 0xC0400 ≤ page) (hlt : page < 0xFFC00) :
    marked s.globals.virtualMmap page = false := by
  obtain ⟨m, hl, hi⟩ := h.initialised
  have hd : present (s.pde (BitVec.ofNat 10 (page / 1024))) = false := by
    rw [Bool.eq_false_iff, Ne, hi.present_pde_iff, ← BitVec.toNat_inj, ← BitVec.toNat_inj,
      BitVec.toNat_ofNat]
    show ¬ (page / 1024 % 1024 = 1023 ∨ page / 1024 % 1024 = 768)
    omega
  rw [hi.bitmap _ (by omega), Machine.mapped_eq, hd, Bool.false_and]

theorem Booted.mem_freePages (h : Booted image s) (hge : 0xC0400 ≤ page) (hlt : page < 0xFFC00) :
    page ∈ s.globals.freePages := by
  obtain ⟨m, hl, hi⟩ := h.initialised
  exact mem_free.mpr ⟨by rw [hi.curVirtaddrIdx]; omega, by omega, h.clear hge hlt⟩

theorem Booted.freePages_cons (h : Booted image s) :
    ∃ page rest, s.globals.freePages = page :: rest ∧ page ≤ 0xC0400 :=
  exists_free_head (h.mem_freePages (Nat.le_refl _) (by decide))

/-- `page`, the head of the queue, has been given to `p`. -/
structure Entered (image : KernelImage) (s : Machine) (page : Nat) (rest : List Nat) (p : Word)
    (t : Machine) : Prop where
  paged : Paged image t
  self : t.walk (dirOf (pageAddr page)) (tabOf (pageAddr page)) = some ⟨frameOf p, true⟩
  kept : ∀ d i, s.walk d i ≠ none → t.walk d i = s.walk d i
  new : ∀ d i, s.walk d i = none → t.walk d i ≠ none →
    (d = dirOf (pageAddr page) ∧ i = tabOf (pageAddr page)) ∨ d = selfDir
  memory : ∀ f, image.Apart f → ∀ i, t.mem f i = s.mem f i
  freePages : t.globals.freePages = rest
  globals : ∃ mmap i k, t.globals =
    { s.globals with virtualMmap := mmap, curVirtaddrIdx := i, kernelPTIndex := k }

namespace Paged

theorem tableLeft (h : Paged image s) : TableLeft s :=
  Nat.lt_of_le_of_lt (h.tables.kernelPTIndex_le h.high) (by decide)

theorem walk_head (h : Paged image s) (hf : s.globals.freePages = page :: rest) (hlt : page < 0xFFC00) :
    0xC0000 ≤ page ∧ s.walk (dirOf (pageAddr page)) (tabOf (pageAddr page)) = none := by
  obtain ⟨hlo, hhi, hu⟩ := free_head hf
  have hcur := h.cursor
  have hge : 0xC0000 ≤ page := by omega
  refine ⟨hge, ?_⟩
  by_contra hm
  rw [h.bitmap page hge hlt ((mapped_iff hhi).mpr hm)] at hu
  exact Bool.noConfusion hu

theorem run_findFreeVirtaddr (hf : s.globals.freePages = page :: rest) :
    s.run (Code.globals findFreeVirtaddr) = .ok (pageAddr page, s.takePage) := by
  rw [Machine.run_globals, ← (nextPage_of_cons hf).1, Machine.nextPage, Machine.takePage]

theorem run_mapPage (h : Paged image s) (p v : Word) :
    s.takePage.run (mapPage image p v 3#32) = .ok ((), s.takePage.afterMap image p v 3#32) :=
  h.tables.takePage.run_mapPage p v 3#32 fun _ => h.tableLeft.takePage

theorem enter (h : Paged image s) (hf : s.globals.freePages = page :: rest) (hlt : page < 0xFFC00)
    (hp : aligned 4096 p) :
    Entered image s page rest p (s.takePage.afterMap image p (pageAddr page) 3#32) := by
  obtain ⟨hge, hnone⟩ := h.walk_head hf hlt
  have hglobals := (nextPage_of_cons hf).2
  have hhi : page < 1024 * 1024 := by omega
  have hk := h.tableLeft.takePage
  have hv : dirOf (pageAddr page) ≠ selfDir :=
    dirOf_ne_selfDir_iff.mpr (by rw [pageAddr_toNat hhi]; omega)
  have hw := h.tables.takePage
  have hself := hw.walk_afterMap_self hp hv fun _ => hk
  have hkept {d i : Index} := hw.walk_afterMap_of_mapped (d := d) (i := i) hp hv fun _ => hk
  have hnew {d i : Index} := hw.walk_afterMap_new (d := d) (i := i) hp hv fun _ => hk
  obtain ⟨hmmap, hcur, -⟩ := afterMap_bitmap image s.takePage p (pageAddr page) 3#32
  rw [walk_takePage] at hself hkept hnew
  rw [hnone, Option.getD_none] at hself
  refine ⟨⟨hw.afterMap hv fun _ => hk, ?_, fun q hq hq' hm => ?_, fun d hd => ?_⟩, hself,
    fun d i hm => hkept hm, fun d i hn hm => ?_, fun f hf i => ?_, ?_, ?_⟩
  · rw [hcur, hglobals, Globals.takePage]
    show 768 * 32 ≤ page / 32
    omega
  · rw [hmmap, hglobals, marked_takePage, Bool.or_eq_true, decide_eq_true_eq]
    by_cases hs : s.mapped q = true
    · exact Or.inr (h.bitmap q hq hq' hs)
    · have hq20 : q < 1024 * 1024 := by omega
      rw [mapped_iff hq20, not_not] at hs
      rcases hnew hs ((mapped_iff hq20).mp hm) with ⟨hd, hi⟩ | ⟨hd, -⟩
      · have hframe := congrArg BitVec.toNat (frameOf_eq_iff.mpr ⟨hd, hi⟩)
        rw [frameOf_toNat, frameOf_toNat, pageAddr_toNat hq20, pageAddr_toNat hhi] at hframe
        exact Or.inl (by omega)
      · have hwin : dirOf (pageAddr q) ≠ selfDir :=
          dirOf_ne_selfDir_iff.mpr (by rw [pageAddr_toNat hq20]; omega)
        exact absurd hd hwin
  · rw [hw.editable.pde_afterMap hw.distinct hv fun _ => hw.unused_nextTable hk] at hd
    by_cases hd' : present (s.takePage.pde (dirOf (pageAddr page))) = false ∧ d = dirOf (pageAddr page)
    · rw [hd'.2, dirOf_toNat, pageAddr_toNat hhi]
      omega
    · rw [if_neg hd', pde_takePage] at hd
      exact h.high d hd
  · exact (hnew hn hm).imp_right fun h => h.1
  · rw [hw.mem_afterMap hk hf, Machine.takePage_mem]
  · rw [Globals.freePages, hmmap, hcur, hglobals, ← Globals.freePages, freePages_takePage hf]
  · rw [afterMap_globals, hglobals]
    split
    · exact ⟨_, _, s.globals.kernelPTIndex, rfl⟩
    · rw [Machine.takeTable_globals, hglobals]
      exact ⟨_, _, _, rfl⟩

end Paged

end PekOS
