import PekOS.Allocations

/-! The bitmap against the page tables: which runs keep every mapped page of
the kernel half marked. -/

namespace PekOS

open OpTree FirstFit Labelled

variable {image : KernelImage} {s₀ s t : Machine} {es : List Event} {e : Event} {p v ec : Word}

/-- Every mapped page from 0xC0000000 on has its bit set; so an allocation
finds an unmapped page, and its `map_page` is not dropped. -/
structure Consistent (image : KernelImage) (s : Machine) : Prop where
  marked : ∀ page, 0xC0000 ≤ page → page < 1024 * 1024 → s.mapped page = true →
    marked s.globals.virtualMmap page = true
  unmapped : ∀ p v t, Step image s (.mapped p v) t → s.walk (dirOf v) (tabOf v) = none
  entered : ∀ p v t, Step image s (.mapped p v) t → t.walk (dirOf v) (tabOf v) = some ⟨frameOf p, true⟩

/-- An allocation for whose page the page table is there already. -/
def InPlace (s : Machine) : Event → Prop
  | .mapped _ v => present (s.pde (dirOf v)) = true
  | .faulted _ _ => False

/-- After such allocations alone, the bits are exactly those of the tables. -/
structure Exact (image : KernelImage) (s : Machine) : Prop where
  tables : Tables image s
  kernelPTIndex : s.globals.kernelPTIndex = 0#32
  dirs : ∀ d, present (s.pde d) = true ↔ d = selfDir ∨ d = 768#10
  curPhysaddr : s.globals.curPhysaddr = 0x10000000#32
  cursor : 768 * 32 ≤ s.globals.curVirtaddrIdx ∧ s.globals.curVirtaddrIdx ≤ 769 * 32
  exact : ∀ page, 0xC0000 ≤ page → page < 1024 * 1024 →
    marked s.globals.virtualMmap page = s.mapped page

theorem Booted.exact (h : Booted image s) : Exact image s := by
  obtain ⟨m, hl, hi⟩ := h.initialised
  exact ⟨hi.tables_wf, hi.kernelPTIndex, fun d => hi.present_pde_iff, hi.curPhysaddr,
    by rw [hi.curVirtaddrIdx]; exact ⟨by decide, by decide⟩, fun page _ hlt => hi.bitmap page hlt⟩

namespace Exact

theorem tableLeft (h : Exact image s) : TableLeft s := by
  rw [TableLeft, h.kernelPTIndex]
  decide

theorem absent (h : Exact image s) {d : Index} (h₁ : d ≠ selfDir) (h₂ : d ≠ 768#10) :
    present (s.pde d) = false := by
  rw [Bool.eq_false_iff, Ne, h.dirs]
  exact not_or.mpr ⟨h₁, h₂⟩

/-- The first page of entry 769 is clear, so the queue starts at or below it. -/
theorem head (h : Exact image s) : ∃ page rest, s.globals.freePages = page :: rest ∧
    0xC0000 ≤ page ∧ page ≤ 0xC0400 ∧ marked s.globals.virtualMmap page = false := by
  obtain ⟨hlo, hhi⟩ := h.cursor
  have hd := h.absent (d := 769#10) (by decide) (by decide)
  have hm : marked s.globals.virtualMmap 0xC0400 = false := by
    rw [h.exact _ (by decide) (by decide), Machine.mapped_eq]
    exact (congrArg (· && _) hd).trans (Bool.false_and _)
  have hmem : 0xC0400 ∈ s.globals.freePages := mem_free.mpr ⟨by omega, by decide, hm⟩
  obtain ⟨page, rest, hf, hpage⟩ := exists_free_head hmem
  obtain ⟨hle, -, hu⟩ := free_head hf
  exact ⟨page, rest, hf, by omega, hpage, hu⟩

theorem step_mapped (h : Exact image s) (hs : Step image s (.mapped p v) t) :
    ∃ page rest, s.globals.freePages = page :: rest ∧ v = pageAddr page ∧ 0xC0000 ≤ page ∧
      page ≤ 0xC0400 ∧ aligned 4096 p ∧ s.walk (dirOf v) (tabOf v) = none ∧
      t = s.takePage.afterMap image p v 3#32 := by
  obtain ⟨page, rest, hf, hge, hle, hu⟩ := h.head
  obtain ⟨hp, hv, rfl⟩ := h.tables.step_mapped (fun _ => h.tableLeft) hs
  rw [(nextPage_of_cons hf).1] at hv
  refine ⟨page, rest, hf, hv, hge, hle, hp, ?_, rfl⟩
  rw [h.exact page hge (by omega), ← Bool.not_eq_true, mapped_iff (by omega), not_not] at hu
  rw [hv, hu]

theorem belowWindow {page : Nat} (h : page ≤ 0xC0400) : dirOf (pageAddr page) ≠ selfDir :=
  dirOf_ne_selfDir_iff.mpr (by rw [pageAddr_toNat (by omega)]; omega)

theorem consistent (h : Exact image s) : Consistent image s := by
  refine ⟨fun page hge hlt hm => by rw [h.exact page hge hlt, hm], fun p v t hs => ?_, fun p v t hs => ?_⟩
  · obtain ⟨page, rest, hf, rfl, hge, hle, hp, hn, rfl⟩ := h.step_mapped hs
    exact hn
  · obtain ⟨page, rest, hf, rfl, hge, hle, hp, hn, rfl⟩ := h.step_mapped hs
    have hself := h.tables.takePage.walk_afterMap_self hp (belowWindow hle) fun _ => h.tableLeft.takePage
    rwa [walk_takePage, hn, Option.getD_none] at hself

theorem step (h : Exact image s) (hs : Guarded InPlace (Step image) s e t) : Exact image t := by
  obtain ⟨hc, hs⟩ := hs
  cases e with
  | faulted v ec => exact hc.elim
  | mapped p v =>
  obtain ⟨page, rest, hf, rfl, hge, hle, hp, hn, rfl⟩ := h.step_mapped hs
  have hc : present (s.pde (dirOf (pageAddr page))) = true := hc
  have hv := belowWindow hle
  have hht := h.tables.takePage
  have hd : present (s.takePage.pde (dirOf (pageAddr page))) = true := by rwa [pde_takePage]
  have hi := Machine.present_pte_of_walk hd (by rwa [walk_takePage])
  have hafter : s.takePage.afterMap image p (pageAddr page) 3#32 =
      s.takePage.put (frameOf (s.takePage.pde (dirOf (pageAddr page)))) (tabOf (pageAddr page))
        (p ||| (3#32 &&& 0xFFF#32)) := by
    rw [Machine.afterMap, if_pos hd, hi, if_neg Bool.false_ne_true]
  have hglobals := (nextPage_of_cons hf).2
  have hpde := Machine.pde_put_of_frame_ne (hht.editable.frame_ne hht.distinct hd hv)
    (tabOf (pageAddr page)) (p ||| (3#32 &&& 0xFFF#32))
  have hself := hht.walk_afterMap_self hp hv fun _ => h.tableLeft.takePage
  have hkept {d i : Index} := hht.walk_afterMap_of_mapped (d := d) (i := i) hp hv fun _ =>
    h.tableLeft.takePage
  have hnew {d i : Index} := hht.walk_afterMap_new (d := d) (i := i) hp hv fun _ => h.tableLeft.takePage
  rw [walk_takePage] at hself hkept hnew
  rw [hafter] at hself hkept hnew ⊢
  refine ⟨hht.put hd hv hi _, ?_, fun d => ?_, ?_, ?_, fun q hq hq' => ?_⟩
  · rw [Machine.put_globals, hglobals, Globals.takePage, h.kernelPTIndex]
  · rw [hpde, pde_takePage, h.dirs]
  · rw [Machine.put_globals, hglobals, Globals.takePage, h.curPhysaddr]
  · rw [Machine.put_globals, hglobals]
    show 768 * 32 ≤ page / 32 ∧ page / 32 ≤ 769 * 32
    omega
  · rw [Machine.put_globals, hglobals, marked_takePage, h.exact q hq hq', Bool.eq_iff_iff,
      Bool.or_eq_true, decide_eq_true_eq, mapped_iff hq', mapped_iff hq']
    constructor
    · rintro (rfl | hm)
      · rw [hself]
        exact Option.some_ne_none _
      · rwa [hkept hm]
    · intro hm
      by_contra hno
      obtain ⟨hne, hnone⟩ := not_or.mp hno
      rcases hnew (not_not.mp hnone) hm with ⟨hdq, hiq⟩ | ⟨-, -, habs⟩
      · have hframe := congrArg BitVec.toNat (frameOf_eq_iff.mpr ⟨hdq, hiq⟩)
        rw [frameOf_toNat, frameOf_toNat, pageAddr_toNat hq', pageAddr_toNat (by omega)] at hframe
        omega
      · rw [hd] at habs
        exact Bool.noConfusion habs

/-- A page mapped without a mark. -/
theorem not_consistent (page : Nat) (hge : 0xC0000 ≤ page) (hlt : page < 1024 * 1024)
    (hm : t.mapped page = true) (hu : marked t.globals.virtualMmap page = false) :
    ¬ Consistent image t := fun hc => by
  rw [hc.marked page hge hlt hm] at hu
  exact Bool.noConfusion hu

theorem not_consistent_window (h : Exact image s) {d : Index} (hd : present (s.pde d) = false)
    (hw : t.walk selfDir d ≠ none) (hm : marked t.globals.virtualMmap (0xFFC00 + d.toNat) =
      marked s.globals.virtualMmap (0xFFC00 + d.toNat)) : ¬ Consistent image t := by
  have hlt := d.isLt
  refine not_consistent (0xFFC00 + d.toNat) (by omega) (by omega) ?_ ?_
  · rw [Machine.mapped_window, Option.isSome_iff_ne_none]
    exact hw
  · rw [hm, h.exact _ (by omega) (by omega), h.tables.editable.mapped_window, hd]

theorem faulted_not_consistent (h : Exact image s) (hs : Step image s (.faulted v ec) t) :
    ¬ Consistent image t := by
  cases hs with
  | faulted hn hec hr =>
  by_cases hv : dirOf v = selfDir
  · rw [h.tables.run_fault_window hec hv hn] at hr
    obtain rfl : s.windowFault image (tabOf v) = t := by simpa using hr
    have hd : present (s.pde (tabOf v)) = false := by
      rw [hv, h.tables.editable.walk_window] at hn
      by_contra hp
      rw [if_pos (eq_true_of_ne_false hp)] at hn
      exact Option.some_ne_none _ hn
    have hne : selfDir ≠ tabOf v := fun he => by
      rw [← he, h.tables.editable.present] at hd
      exact Bool.noConfusion hd
    refine h.not_consistent_window hd ?_ rfl
    have hself : (s.windowFault image (tabOf v)).SelfMapped :=
      h.tables.editable.toSelfMapped.of_pde rfl (Machine.pde_put_of_ne (s := s.takeTable) hne _)
    rw [hself.walk_window, if_pos]
    · exact Option.some_ne_none _
    · simp [Machine.windowFault, Machine.pde]
  · rw [h.tables.run_fault_page hec hv fun _ => h.tableLeft] at hr
    obtain rfl : s.takeFrame.afterMap image s.globals.curPhysaddr v 3#32 = t := by simpa using hr
    have hp : aligned 4096 s.globals.curPhysaddr := by rw [h.curPhysaddr]; decide
    have hbits := (afterMap_bitmap image s.takeFrame s.globals.curPhysaddr v 3#32).1
    have hsame : s.takeFrame.globals.virtualMmap = s.globals.virtualMmap := by
      rw [Machine.takeFrame, Machine.withGlobals_globals, findFreePhysaddr]
    by_cases hd : present (s.pde (dirOf v)) = true
    · -- the table of 768 is there: the page itself is the witness
      have h768 := ((h.dirs _).mp hd).resolve_left hv
      have hdn := dirOf_toNat v
      have hpn := frameOf_toNat v
      have hvn := v.isLt
      rw [h768, BitVec.toNat_ofNat] at hdn
      have hself := h.tables.takeFrame.walk_afterMap_self hp hv fun _ => h.tableLeft.takeFrame
      have hlt : (frameOf v).toNat < 1024 * 1024 := (frameOf v).isLt
      refine not_consistent (frameOf v).toNat (by omega) hlt ?_ ?_
      · rw [mapped_frameOf, hself]
        exact Option.some_ne_none _
      · rw [hbits, hsame, h.exact _ (by omega) hlt, ← Bool.not_eq_true, mapped_frameOf, hn]
        exact not_not.mpr rfl
    · have hd' := Bool.eq_false_iff.mpr hd
      refine h.not_consistent_window hd' ?_ (by rw [hbits, hsame])
      rw [h.tables.takeFrame.walk_afterMap_window hp hv h.tableLeft.takeFrame (by rwa [pde_takeFrame])]
      exact Option.some_ne_none _

theorem mapped_not_consistent (h : Exact image s) (hs : Step image s (.mapped p v) t)
    (hd : present (s.pde (dirOf v)) = false) : ¬ Consistent image t := by
  obtain ⟨page, rest, hf, rfl, hge, hle, hp, hn, rfl⟩ := h.step_mapped hs
  have hv := belowWindow hle
  have hbits := (afterMap_bitmap image s.takePage p (pageAddr page) 3#32).1
  have hlt := (dirOf (pageAddr page)).isLt
  refine h.not_consistent_window hd ?_ ?_
  · rw [h.tables.takePage.walk_afterMap_window hp hv h.tableLeft.takePage (by rwa [pde_takePage])]
    exact Option.some_ne_none _
  · rw [hbits, (nextPage_of_cons hf).2, marked_takePage, decide_eq_false (by omega), Bool.false_or]

end Exact

/-- The runs in all of whose states the bitmap is consistent are those whose
every step is an allocation in a page table that is there already: a demand
fault, and a new page table, map a page without setting its bit. -/
theorem bitmap_consistent_iff (hb : Booted image s₀) :
    Consistent image s₀ ∧ Run (Leading (Consistent image) (Step image)) s₀ es t ↔
      Run (Guarded InPlace (Step image)) s₀ es t := by
  constructor
  · rintro ⟨-, hr⟩
    induction hr with
    | nil => exact .nil
    | @snoc es u w e _ hs ih =>
      obtain ⟨hs, hc⟩ := hs
      have hx := ih.inv hb.exact fun _ _ _ h hs => h.step hs
      refine ih.snoc ⟨?_, hs⟩
      cases e with
      | faulted v ec => exact hx.faulted_not_consistent hs hc
      | mapped p v =>
        by_contra hd
        exact hx.mapped_not_consistent hs (Bool.eq_false_iff.mpr hd) hc
  · intro hr
    refine ⟨hb.exact.consistent, ?_⟩
    induction hr with
    | nil => exact .nil
    | snoc hr hs ih =>
      have hx := hr.inv hb.exact fun _ _ _ h hs => h.step hs
      exact ih.snoc ⟨hs.2, (hx.step hs).consistent⟩

theorem exists_inPlace :
    ∃ s₀ e t, Booted alignedImage s₀ ∧ Guarded InPlace (Step alignedImage) s₀ e t := by
  obtain ⟨s₀, hb, hi⟩ := exists_booted (loaded_zeroMachine alignedImage)
  have h := hb.exact
  have hm : marked s₀.globals.virtualMmap 0xC0300 = false := by
    have hpte : s₀.pte 768#10 (BitVec.ofNat 10 0xC0300) = 0#32 := by
      rw [Machine.pte, h.tables.kernelMapped.frameOf_pde_768, hi.table1]
      decide
    rw [h.exact _ (by decide) (by decide), Machine.mapped_eq,
      show BitVec.ofNat 10 (0xC0300 / 1024) = 768#10 by decide, hpte]
    exact Bool.and_false _
  obtain ⟨page, rest, hf, hge, hle, hu⟩ := h.head
  have hcur := hi.curVirtaddrIdx
  have hlt : page < 0xC0400 := by
    by_contra hlt
    rw [used_of_lt_head hf (q := 0xC0300) (by omega) (by omega)] at hm
    exact Bool.noConfusion hm
  have hd : dirOf (pageAddr page) = 768#10 := by
    rw [dirOf_pageAddr (by omega)]
    apply BitVec.eq_of_toNat_eq
    rw [BitVec.toNat_ofNat, BitVec.toNat_ofNat]
    omega
  have hpage := (nextPage_of_cons hf).1
  have hrun := h.tables.run_mapPhysaddr 0xE0000000#32 fun _ => h.tableLeft
  refine ⟨s₀, .mapped 0xE0000000#32 s₀.nextPage, _, hb, ?_, .mapped (by decide) hrun⟩
  show present (s₀.pde (dirOf s₀.nextPage)) = true
  rw [hpage, hd]
  exact (h.dirs _).mpr (Or.inr rfl)

theorem bitmap_consistent_one : ∃ s₀ e t, Booted alignedImage s₀ ∧ Consistent alignedImage s₀ ∧
    Run (Leading (Consistent alignedImage) (Step alignedImage)) s₀ [e] t := by
  obtain ⟨s₀, e, t, hb, hs⟩ := exists_inPlace
  exact ⟨s₀, e, t, hb, (bitmap_consistent_iff hb).mpr (Run.single hs)⟩

/-- One demand fault in the kernel half is enough. -/
theorem bitmap_inconsistent : ∃ s₀ t, Booted alignedImage s₀ ∧
    Step alignedImage s₀ (.faulted 0xD0000000#32 0#32) t ∧ ¬ Consistent alignedImage t := by
  obtain ⟨s₀, hb, -⟩ := exists_booted (loaded_zeroMachine alignedImage)
  have h := hb.exact
  have hec : Resumable 0#32 := ⟨rfl, rfl⟩
  have hv : dirOf 0xD0000000#32 ≠ selfDir := by decide
  have hn : s₀.walk (dirOf 0xD0000000#32) (tabOf 0xD0000000#32) = none :=
    Machine.walk_eq_none_iff.mpr (Or.inl (h.absent (by decide) (by decide)))
  have hs : Step alignedImage s₀ (.faulted 0xD0000000#32 0#32) _ :=
    .faulted hn hec (h.tables.run_fault_page hec hv fun _ => h.tableLeft)
  exact ⟨s₀, _, hb, hs, h.faulted_not_consistent hs⟩

end PekOS
