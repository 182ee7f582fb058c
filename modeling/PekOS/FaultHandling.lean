import PekOS.Allocations

/-! Runs of allocations and demand faults: what a further fault does in any
state they reach. -/

namespace PekOS

open OpTree FirstFit Labelled

variable {image : KernelImage} {s₀ s t : Machine} {es : List Event} {e : Event} {p v ec : Word}

/-- The pages served by the allocations of a run are below the window. -/
def ServedBelow : Event → Prop
  | .mapped _ v => v.toNat < 0xFFC00000
  | .faulted _ _ => True

/-- A step with a page table left that does not serve a page of the window. -/
def Confined (s : Machine) (e : Event) : Prop := TableLeft s ∧ ServedBelow e

/-- The invariant of runs of confined steps. -/
structure Running (image : KernelImage) (s : Machine) : Prop extends WellFormed image s where
  curPhysaddr : aligned 4096 s.globals.curPhysaddr

theorem Booted.running (h : Booted image s) (ha : image.PageAligned) : Running image s := by
  have hw := h.wellFormed ha
  obtain ⟨m, hl, hi⟩ := h.initialised
  exact ⟨hw, by rw [hi.curPhysaddr]; decide⟩

theorem takePage_curPhysaddr (s : Machine) : s.takePage.globals.curPhysaddr = s.globals.curPhysaddr := by
  simp only [Machine.takePage, Machine.withGlobals_globals, findFreeVirtaddr]
  split <;> rfl

theorem takeFrame_curPhysaddr (s : Machine) :
    s.takeFrame.globals.curPhysaddr = s.globals.curPhysaddr + 0x1000#32 := by
  rw [Machine.takeFrame, Machine.withGlobals_globals, findFreePhysaddr]

theorem aligned_add_page {a : Word} (h : aligned 4096 a) : aligned 4096 (a + 0x1000#32) := by
  unfold aligned at h ⊢
  rw [BitVec.toNat_add, BitVec.toNat_ofNat]
  omega

/-- The two ways a fault is resumed. -/
theorem Running.step_faulted (h : Running image s) (hk : TableLeft s)
    (hs : Step image s (.faulted v ec) t) :
    (dirOf v = selfDir ∧ present (s.pde (tabOf v)) = false ∧ t = s.newTable image (tabOf v)) ∨
      (dirOf v ≠ selfDir ∧ s.walk (dirOf v) (tabOf v) = none ∧
        t = s.takeFrame.afterMap image s.globals.curPhysaddr v 3#32) := by
  cases hs with
  | faulted hn hec hr =>
  by_cases hv : dirOf v = selfDir
  · rw [h.toWellFormed.run_fault_window hk hec hv hn] at hr
    obtain rfl : s.newTable image (tabOf v) = t := by simpa using hr
    have hd : present (s.pde (tabOf v)) = false := by
      rw [← h.editable.pte_eq_pde]
      exact Machine.present_pte_of_walk h.editable.present (hv ▸ hn)
    exact Or.inl ⟨hv, hd, rfl⟩
  · rw [h.run_fault_page hec hv fun _ => hk] at hr
    obtain rfl : s.takeFrame.afterMap image s.globals.curPhysaddr v 3#32 = t := by simpa using hr
    exact Or.inr ⟨hv, hn, rfl⟩

theorem Running.step (h : Running image s) (hs : Guarded Confined (Step image) s e t) :
    Running image t := by
  obtain ⟨⟨hk, hb⟩, hs⟩ := hs
  cases e with
  | mapped p v =>
    obtain ⟨hp, rfl, rfl⟩ := h.step_mapped (fun _ => hk) hs
    have hv := dirOf_ne_selfDir_iff.mpr hb
    refine ⟨h.toWellFormed.takePage.afterMap hv fun _ => hk.takePage, ?_⟩
    rw [(afterMap_bitmap _ _ _ _ _).2.2, takePage_curPhysaddr]
    exact h.curPhysaddr
  | faulted v ec =>
    rcases h.step_faulted hk hs with ⟨hv, hd, rfl⟩ | ⟨hv, hn, rfl⟩
    · exact ⟨h.toWellFormed.newTable hk hd, h.curPhysaddr⟩
    · refine ⟨h.toWellFormed.takeFrame.afterMap hv fun _ => hk.takeFrame, ?_⟩
      rw [(afterMap_bitmap _ _ _ _ _).2.2, takeFrame_curPhysaddr]
      exact aligned_add_page h.curPhysaddr

theorem Running.of_run (hb : Booted image s₀) (ha : image.PageAligned)
    (hr : Run (Guarded Confined (Step image)) s₀ es s) : Running image s :=
  hr.inv (hb.running ha) fun _ _ _ h hs => h.step hs

/-- What resuming from a fault at `v` promises, `t` being the machine afterwards. -/
structure Resumed (s : Machine) (v : Word) (t : Machine) : Prop where
  translated : ∃ m, t.walk (dirOf v) (tabOf v) = some m ∧ m.writable = true
  unchanged : ∀ d i, s.walk d i ≠ none → t.walk d i = s.walk d i
  /-- Nothing is added but the page and, with a new page table, its page in the window. -/
  added : ∀ d i, s.walk d i = none → t.walk d i ≠ none → (d = dirOf v ∧ i = tabOf v) ∨
    (d = selfDir ∧ i = dirOf v ∧ present (s.pde (dirOf v)) = false)

/-- The handler resumes a supervisor's not-present fault, touching mapped pages
only, and halts on any other, having changed nothing. -/
structure FaultHandled (image : KernelImage) (s : Machine) (v ec : Word) : Prop where
  resumes : Resumable ec → ∃ t, s.run (pageFaultHandler image v ec) = .ok ((), t) ∧
    (∀ x ∈ s.trace (pageFaultHandler image v ec), ∀ a, x.1.address = some a →
      x.2.walk (dirOf a) (tabOf a) ≠ none) ∧ Resumed s v t
  halts : ¬ Resumable ec → s.run (pageFaultHandler image v ec) = .error .halt ∧
    ∀ x ∈ s.trace (pageFaultHandler image v ec), x.2 = s

theorem Running.resumed_window (h : Running image s) (hk : TableLeft s) (hv : dirOf v = selfDir)
    (hd : present (s.pde (tabOf v)) = false) : Resumed s v (s.newTable image (tabOf v)) := by
  have hnone : s.walk selfDir (tabOf v) = none := by
    rw [h.editable.walk_window, hd, if_neg Bool.false_ne_true]
  have hwalk := h.walk_newTable hk hd
  refine ⟨⟨⟨frameOf (s.nextTable image), true⟩, ?_, rfl⟩, fun d i hm => ?_, fun d i hn hm => ?_⟩
  · rw [hv, hwalk, enter_same, hnone, Option.getD_none]
  · rw [hwalk, enter_of_ne]
    rintro ⟨rfl, rfl⟩
    exact hm hnone
  · refine Or.inl ?_
    by_contra he
    rw [hwalk, enter_of_ne _ _ (hv ▸ he)] at hm
    exact hm hn

theorem Running.resumed_page (h : Running image s) (hk : TableLeft s) (hv : dirOf v ≠ selfDir)
    (hn : s.walk (dirOf v) (tabOf v) = none) :
    Resumed s v (s.takeFrame.afterMap image s.globals.curPhysaddr v 3#32) := by
  have ht := h.toTables.takeFrame
  have hself := ht.walk_afterMap_self h.curPhysaddr hv fun _ => hk.takeFrame
  rw [walk_takeFrame, hn, Option.getD_none] at hself
  refine ⟨⟨_, hself, rfl⟩, fun d i hm => ?_, fun d i hn hm => ?_⟩
  · rw [ht.walk_afterMap_of_mapped h.curPhysaddr hv (fun _ => hk.takeFrame) (by rwa [walk_takeFrame]),
      walk_takeFrame]
  · have hnew := ht.walk_afterMap_new h.curPhysaddr hv (fun _ => hk.takeFrame)
      (by rwa [walk_takeFrame]) hm
    rwa [pde_takeFrame] at hnew

theorem Running.faultHandled (h : Running image s) (hk : TableLeft s)
    (hn : s.walk (dirOf v) (tabOf v) = none) : FaultHandled image s v ec := by
  refine ⟨fun hec => ?_, fun hec => ?_⟩
  · by_cases hv : dirOf v = selfDir
    · have hr := h.toWellFormed.run_fault_window hk hec hv hn
      have hd : present (s.pde (tabOf v)) = false := by
        rw [← h.editable.pte_eq_pde]
        exact Machine.present_pte_of_walk h.editable.present (hv ▸ hn)
      exact ⟨_, hr, Machine.walk_of_run hr, h.resumed_window hk hv hd⟩
    · have hr := h.run_fault_page hec hv fun _ => hk
      exact ⟨_, hr, Machine.walk_of_run hr, h.resumed_page hk hv hn⟩
  · obtain ⟨hr, htr⟩ := Machine.run_pageFaultHandler_halt image s v hec
    refine ⟨hr, fun x hx => ?_⟩
    rw [htr, List.mem_singleton] at hx
    rw [hx]

/-- In every run that has a page table left at each step and never serves a
page of the window, a fault at any absent page is handled. -/
theorem faults_handled (hb : Booted image s₀) (ha : image.PageAligned)
    (hr : Run (Guarded Confined (Step image)) s₀ es s) (hk : TableLeft s)
    (hn : s.walk (dirOf v) (tabOf v) = none) : FaultHandled image s v ec :=
  (Running.of_run hb ha hr).faultHandled hk hn

theorem Allocated.run_confined (hb : Booted image s₀) (ha : image.PageAligned)
    (hr : Run (Guarded Served (Step image)) s₀ es s) : Run (Guarded Confined (Step image)) s₀ es s := by
  induction hr with
  | nil => exact .nil
  | @snoc es t u e hr hs ih =>
    refine ih.snoc ⟨⟨(Allocated.of_run hb ha hr).tableLeft, ?_⟩, hs.2⟩
    cases e with
    | mapped p v => exact hs.1.2
    | faulted v ec => exact hs.1.elim

/-- After an allocation at boot, a write to the absent page table of entry 0. -/
theorem faults_handled_window : ∃ s₀ v s, Booted alignedImage s₀ ∧
    Step alignedImage s₀ (.mapped 0xE0000000#32 v) s ∧
    FaultHandled alignedImage s 0xFFC00000#32 2#32 := by
  have ha := alignedImage_pageAligned
  obtain ⟨s₀, hb, -⟩ := exists_booted (loaded_zeroMachine alignedImage)
  obtain ⟨v, s, hs⟩ := exists_first hb ha (p := 0xE0000000#32) (by decide)
  have hr := Run.single hs
  have h := Allocated.of_run hb ha hr
  have hd : present (s.pde 0#10) = false := by
    by_contra hd
    exact absurd (h.high _ (eq_true_of_ne_false hd)) (by decide)
  have hn : s.walk (dirOf 0xFFC00000#32) (tabOf 0xFFC00000#32) = none := by
    rw [show dirOf 0xFFC00000#32 = selfDir by decide, show tabOf 0xFFC00000#32 = 0#10 by decide,
      h.wellFormed.editable.walk_window, hd, if_neg Bool.false_ne_true]
  exact ⟨s₀, v, s, hb, hs.2, faults_handled hb ha (Allocated.run_confined hb ha hr) h.tableLeft hn⟩

/-! What goes wrong beyond: a page of the window is served, and the page
mapped to it becomes a page table. -/

/-- An allocation served in the window enters its page in the directory. -/
theorem run_mapPhysaddr_window (hs : s.Editable) (hp : aligned 4096 p) {d : Index} {rest : List Nat}
    (hf : s.globals.freePages = (0xFFC00 + d.toNat) :: rest) (hd : present (s.pde d) = false) :
    Step image s (.mapped p (pageAddr (0xFFC00 + d.toNat)))
      (s.takePage.put s.cr3 d (p ||| (3#32 &&& 0xFFF#32))) := by
  have hlt := d.isLt
  have hpage := (nextPage_of_cons hf).1
  have hdir : dirOf (pageAddr (0xFFC00 + d.toNat)) = selfDir := by
    rw [dirOf_pageAddr (by omega)]
    apply BitVec.eq_of_toNat_eq
    rw [BitVec.toNat_ofNat, selfDir, BitVec.toNat_ofNat]
    omega
  have htab : tabOf (pageAddr (0xFFC00 + d.toNat)) = d := by
    rw [tabOf_pageAddr (by omega)]
    apply BitVec.eq_of_toNat_eq
    rw [BitVec.toNat_ofNat]
    omega
  have ht : s.takePage.Editable := hs.of_pde (Machine.takePage_cr3 s) (pde_takePage s selfDir)
  have hrun := ht.run_mapPage_present image p (pageAddr (0xFFC00 + d.toNat)) 3#32
    (by rw [hdir, ht.present])
  rw [hdir, htab, ht.pte_eq_pde, pde_takePage, hd, if_neg Bool.false_ne_true,
    ht.run_store_pte ht.present ht.writable, ht.frame, Machine.takePage_cr3] at hrun
  rw [← hpage] at hrun ⊢
  exact .mapped hp (run_mapPhysaddr hrun)

/-- One frame serving as the page table of entries 0 and 1: a fault at 0 maps
page 0x400 as well. -/
theorem not_faultHandled_of_alias (hs : s.Editable) {w : Word} (h0 : s.pde 0#10 = w) (h1 : s.pde 1#10 = w)
    (hw : present w = true ∧ writable w = true) (hne : frameOf w ≠ s.cr3)
    (hz : s.mem (frameOf w) 0#10 = 0#32) : ¬ FaultHandled image s 0#32 0#32 := by
  intro h
  have hec : Resumable 0#32 := ⟨rfl, rfl⟩
  obtain ⟨t, hr, -, hres⟩ := h.resumes hec
  have hd : dirOf 0#32 = 0#10 := by decide
  have hi : tabOf 0#32 = 0#10 := by decide
  have ht : s.takeFrame.Editable := hs.of_pde (Machine.takeFrame_cr3 s) (pde_takeFrame s selfDir)
  have hp0 : s.takeFrame.pde 0#10 = w := by rw [pde_takeFrame, h0]
  have hpte : present (s.takeFrame.pte 0#10 0#10) = false := by
    rw [Machine.pte, hp0, Machine.takeFrame_mem, hz]
    rfl
  have hrun := ht.run_mapPage_present image s.globals.curPhysaddr 0#32 3#32 (by rw [hd, hp0, hw.1])
  rw [hd, hi, if_neg (by rw [hpte]; exact Bool.false_ne_true),
    ht.run_store_pte (by rw [hp0, hw.1]) (by rw [hp0, hw.2]), hp0,
    show 3#32 &&& 0xFFF#32 = 3#32 by decide] at hrun
  rw [Machine.pageFaultHandler_page hec (by decide), Machine.run,
    Prog.run_bind_ok Machine.exec (Machine.run_globals _), ← Machine.takeFrame] at hr
  obtain rfl : s.takeFrame.put (frameOf w) 0#10 (s.globals.curPhysaddr ||| 3#32) = t := by
    simpa using hrun.symm.trans hr
  have hold : s.walk 1#10 0#10 = none := by
    refine Machine.walk_eq_none_iff.mpr (Or.inr ?_)
    rw [Machine.pte, h1, hz]
    rfl
  have hpde : (s.takeFrame.put (frameOf w) 0#10 (s.globals.curPhysaddr ||| 3#32)).pde 1#10 = w := by
    rw [Machine.pde_put_of_frame_ne (by rwa [Machine.takeFrame_cr3]), pde_takeFrame, h1]
  have hnew : (s.takeFrame.put (frameOf w) 0#10 (s.globals.curPhysaddr ||| 3#32)).walk 1#10 0#10 ≠
      none := by
    rw [Ne, Machine.walk_eq_none_iff, Machine.pte, hpde, Machine.put_mem, poke_same, hw.1,
      present_or_three]
    simp
  rcases hres.added 1#10 0#10 hold hnew with ⟨h, -⟩ | ⟨h, -⟩
  · exact absurd h (by decide)
  · exact absurd h (by decide)

/-- The kernel half used up, the next two allocations are served the first two
pages of the window. -/
theorem fault_not_handled : ∃ s₀ es s, Booted alignedImage s₀ ∧
    Run (Guarded (fun s _ => TableLeft s) (Step alignedImage)) s₀ es s ∧ TableLeft s ∧
    s.walk (dirOf 0#32) (tabOf 0#32) = none ∧ ¬ FaultHandled alignedImage s 0#32 0#32 := by
  have ha := alignedImage_pageAligned
  obtain ⟨s₀, hb, hi⟩ := exists_booted (loaded_zeroMachine alignedImage)
  have hp : aligned 4096 0x20000000#32 := by decide
  obtain ⟨s, hr, hfree⟩ := exists_run hb ha hp (Nat.le_refl _)
  have h := Allocated.of_run hb ha hr
  have hs := h.wellFormed.editable
  have hlow {d : Index} (hd : d.toNat < 768) : present (s.pde d) = false := by
    by_contra hpd
    have hge := h.high d (eq_true_of_ne_false hpd)
    omega
  -- the queue is down to the window
  have hclear {d : Index} (hd : d.toNat < 768) :
      marked s₀.globals.virtualMmap (0xFFC00 + d.toNat) = false := by
    rw [hi.bitmap _ (by omega), hi.kernelMapped.editable.mapped_window, Bool.eq_false_iff, Ne,
      hi.present_pde_iff]
    rintro (rfl | rfl)
    · exact absurd hd (by decide)
    · exact absurd hd (by decide)
  have hqueue : s.globals.freePages = 0xFFC00 :: 0xFFC01 ::
      free (marked s₀.globals.virtualMmap) 0xFFC02 (1024 * 1024) := by
    have h0 := hclear (d := 0#10) (by decide)
    have h1 := hclear (d := 1#10) (by decide)
    have hsplit := free_split (marked s₀.globals.virtualMmap)
      (show 0xC0000 ≤ 0xFFC00 by decide) (show 0xFFC00 ≤ 1024 * 1024 by decide)
    rw [hfree, Globals.freePages, hi.curVirtaddrIdx, show 768 * 32 * 32 = 0xC0000 by decide, hsplit,
      List.drop_left, free_succ (by decide), free_succ (by decide)]
    rw [show 0xFFC00 + (0#10 : Index).toNat = 0xFFC00 by decide] at h0
    rw [show 0xFFC00 + (1#10 : Index).toNat = 0xFFC00 + 1 by decide] at h1
    rw [h0, h1]
    rfl
  have hk := h.tableLeft
  let w : Word := 0x20000000#32 ||| (3#32 &&& 0xFFF#32)
  let s₁ := s.takePage.put s.cr3 0#10 w
  let s₂ := s₁.takePage.put s₁.cr3 1#10 w
  have hstep₁ : Step alignedImage s (.mapped 0x20000000#32 (pageAddr 0xFFC00)) s₁ :=
    run_mapPhysaddr_window hs hp (d := 0#10) hqueue (hlow (by decide))
  have hpde₁ {d : Index} (hd : d ≠ 0#10) : s₁.pde d = s.pde d :=
    (Machine.pde_put_of_ne (s := s.takePage) hd w).trans (pde_takePage s d)
  have hs₁ : s₁.Editable := hs.of_pde rfl (hpde₁ (d := selfDir) (by decide))
  have hqueue₁ : s₁.globals.freePages = 0xFFC01 ::
      free (marked s₀.globals.virtualMmap) 0xFFC02 (1024 * 1024) := by
    rw [Machine.put_globals, (nextPage_of_cons hqueue).2, freePages_takePage hqueue]
  have hstep₂ : Step alignedImage s₁ (.mapped 0x20000000#32 (pageAddr 0xFFC01)) s₂ :=
    run_mapPhysaddr_window hs₁ hp (d := 1#10) hqueue₁ ((hpde₁ (d := 1#10) (by decide)).symm ▸ hlow
      (by decide))
  have hpde₂ {d : Index} (hd : d ≠ 1#10) : s₂.pde d = s₁.pde d :=
    (Machine.pde_put_of_ne (s := s₁.takePage) hd w).trans (pde_takePage s₁ d)
  have hs₂ : s₂.Editable := hs₁.of_pde rfl (hpde₂ (d := selfDir) (by decide))
  have hcr3 : s.cr3 = alignedImage.directoryFrame := h.wellFormed.kernelMapped.cr3
  have hne : frameOf w ≠ alignedImage.directoryFrame := by decide
  have h0 : s₂.pde 0#10 = w :=
    (hpde₂ (d := 0#10) (by decide)).trans (poke_same s.takePage.mem s.cr3 0#10 w)
  have h1 : s₂.pde 1#10 = w := poke_same s₁.takePage.mem s₁.cr3 1#10 w
  have hz : s₂.mem (frameOf w) 0#10 = 0#32 := by
    have hz₂ : s₂.mem (frameOf w) 0#10 = s₁.mem (frameOf w) 0#10 :=
      poke_of_frame_ne (by rw [Machine.put_cr3, Machine.takePage_cr3, hcr3]; exact hne) _ _ _
    have hz₁ : s₁.mem (frameOf w) 0#10 = s.mem (frameOf w) 0#10 :=
      poke_of_frame_ne (by rw [hcr3]; exact hne) _ _ _
    rw [hz₂, hz₁, h.rest _ _ (by decide), hi.rest _ _ hne (by decide)]
    rfl
  have hn : s₂.walk (dirOf 0#32) (tabOf 0#32) = none := by
    refine Machine.walk_eq_none_iff.mpr (Or.inr ?_)
    rw [Machine.pte, show dirOf 0#32 = 0#10 by decide, show tabOf 0#32 = 0#10 by decide, h0, hz]
    rfl
  have hk₁ : TableLeft s₁ := hk.takePage
  have hk₂ : TableLeft s₂ := hk₁.takePage
  refine ⟨s₀, _, s₂, hb,
    (((Allocated.run_confined hb ha hr).mono fun _ _ _ hs => ⟨hs.1.1, hs.2⟩).snoc ⟨hk, hstep₁⟩).snoc
    ⟨hk₁, hstep₂⟩, hk₂, hn, ?_⟩
  have hcr3₂ : s₂.cr3 = alignedImage.directoryFrame :=
    (Machine.takePage_cr3 s₁).trans ((Machine.takePage_cr3 s).trans hcr3)
  exact not_faultHandled_of_alias hs₂ h0 h1 ⟨by decide, by decide⟩ (hcr3₂ ▸ hne) hz

end PekOS
