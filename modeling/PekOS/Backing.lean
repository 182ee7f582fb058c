import PekOS.Frames

/-! The lower half of the address space: every page that is mapped there was
mapped by a fault, and has a frame to itself. -/

namespace PekOS

open OpTree FirstFit Labelled

variable {image : KernelImage} {s₀ s t : Machine} {es : List Event} {e : Event} {p v : Word} {d i : Index}

/-- A confined step whose allocation, if it is one, is answered with a page. -/
def Supplied (s : Machine) (e : Event) : Prop := Confined s e ∧ ∀ p v, e = .mapped p v → v ≠ 0#32

structure Backed (image : KernelImage) (s : Machine) : Prop extends Running image s where
  kernelPTIndex : s.globals.kernelPTIndex.toNat ≤ 256
  cursor : 768 * 32 ≤ s.globals.curVirtaddrIdx
  counter : 0x10000000 ≤ s.globals.curPhysaddr.toNat
  taken : s.globals.curPhysaddr.toNat ≤ 0x10000000 + 4096 * s.pages.card
  frames : ∀ d i m, d.toNat < 768 → s.walk d i = some m → m.writable = true ∧ 0x10000 ≤ m.frame.toNat ∧
    m.frame.toNat < s.globals.curPhysaddr.toNat / 4096
  separate : ∀ d i d' i' m m', d.toNat < 768 → d'.toNat < 768 → s.walk d i = some m →
    s.walk d' i' = some m' →
    m.frame = m'.frame → d = d' ∧ i = i'

theorem ne_selfDir_of_lt (hd : d.toNat < 768) : d ≠ selfDir := by
  rintro rfl
  exact absurd hd (by decide)

/-- The page-fault handler finds tables and frames in order:
every frame handed out is behind a page. -/
structure Pageable (image : KernelImage) (s : Machine) : Prop where
  tables : Tables image s
  kernelPTIndex : s.globals.kernelPTIndex.toNat ≤ 256
  curPhysaddr : aligned 4096 s.globals.curPhysaddr
  counter : 0x10000000 ≤ s.globals.curPhysaddr.toNat
  taken : s.globals.curPhysaddr.toNat ≤ 0x10000000 + 4096 * s.pages.card

namespace Pageable

theorem curPhysaddr_lt (h : Pageable image s) :
    s.globals.curPhysaddr.toNat ≤ 0x10000000 + 4096 * (257 * 1024) :=
  h.taken.trans (Nat.add_le_add_left (Nat.mul_le_mul_left _ (h.tables.card_pages_le h.kernelPTIndex)) _)

theorem curPhysaddr_afterFault (h : Pageable image s) (v : Word) :
    (s.afterFault image v).globals.curPhysaddr.toNat = s.globals.curPhysaddr.toNat + 4096 := by
  have hlt := h.curPhysaddr_lt
  rw [(afterMap_bitmap _ _ _ _ _).2.2, takeFrame_curPhysaddr, BitVec.toNat_add, BitVec.toNat_ofNat]
  omega

theorem faulted (h : Pageable image s) (hk : present (s.pde (dirOf v)) = false → TableLeft s)
    (hv : dirOf v ≠ selfDir) (hn : s.walk (dirOf v) (tabOf v) = none) :
    Pageable image (s.afterFault image v) := by
  have hcur := h.curPhysaddr_afterFault v
  have hcounter := h.counter
  have hindex : s.takeFrame.globals.kernelPTIndex.toNat ≤ 256 := by
    rw [Machine.takeFrame_kernelPTIndex]
    exact h.kernelPTIndex
  refine ⟨h.tables.takeFrame.afterMap hv (tableLeft_takeFrame hk),
    kernelPTIndex_afterMap_le hindex (tableLeft_takeFrame hk) _ _, ?_, by omega, ?_⟩
  · rw [(afterMap_bitmap _ _ _ _ _).2.2, takeFrame_curPhysaddr]
    exact aligned_add_page h.curPhysaddr
  · have hcard := h.tables.card_pages_afterFault h.curPhysaddr hv hk hn
    have htaken := h.taken
    omega

end Pageable

namespace Backed

theorem init (hb : Booted image s) (ha : image.PageAligned) : Backed image s := by
  have hrun := hb.running ha
  obtain ⟨m, hl, hi⟩ := hb.initialised
  have hnone {d i : Index} (hd : d.toNat < 768) (mp : Mapping) : s.walk d i ≠ some mp := by
    intro hm
    rcases hi.present_pde_iff.mp (Machine.of_walk hm).1 with rfl | rfl
    · exact absurd hd (by decide)
    · exact absurd hd (by decide)
  refine ⟨hrun, by rw [hi.kernelPTIndex]; decide,
    hi.curVirtaddrIdx.ge, by rw [hi.curPhysaddr]; decide, ?_, fun d i m hd hm =>
    absurd hm (hnone hd m), fun d i d' i' m m' hd _ hm => absurd hm (hnone hd m)⟩
  rw [hi.curPhysaddr]
  exact Nat.le_add_right _ _

theorem pageable (h : Backed image s) : Pageable image s :=
  ⟨h.toTables, h.kernelPTIndex, h.curPhysaddr, h.counter, h.taken⟩

/-- A step that takes no frame and leaves the lower half as it is. -/
theorem of_walk (h : Backed image s) (hr : Running image t) (hk : t.globals.kernelPTIndex.toNat ≤ 256)
    (hcur : 768 * 32 ≤ t.globals.curVirtaddrIdx) (hc : t.globals.curPhysaddr = s.globals.curPhysaddr)
    (hp : s.pages ⊆ t.pages) (hw : ∀ d i, d.toNat < 768 → t.walk d i = s.walk d i) : Backed image t := by
  refine ⟨hr, hk, hcur, hc ▸ h.counter, ?_, fun d i m hd hm => ?_, fun d i d' i' m m' hd hd' hm hm' => ?_⟩
  · rw [hc]
    exact h.taken.trans (Nat.add_le_add_left (Nat.mul_le_mul_left _ (Finset.card_le_card hp)) _)
  · rw [hc]
    exact h.frames d i m hd (hw d i hd ▸ hm)
  · exact h.separate d i d' i' m m' hd hd' (hw d i hd ▸ hm) (hw d' i' hd' ▸ hm')

theorem mapped (h : Backed image s) (hp : aligned 4096 p) (hk : TableLeft s) (h0 : s.nextPage ≠ 0#32)
    (hv : s.nextPage.toNat < 0xFFC00000) :
    Backed image (s.takePage.afterMap image p s.nextPage 3#32) := by
  obtain ⟨page, rest, hf, hhi, hlo, -⟩ := nextPage_ne_zero h0
  obtain ⟨hpage, hglobals⟩ := nextPage_of_cons hf
  have hvd := dirOf_ne_selfDir_iff.mpr hv
  have ht := h.toTables.takePage
  have hcursor := h.cursor
  have hge : 768 ≤ (dirOf s.nextPage).toNat := by
    rw [hpage, dirOf_toNat, pageAddr_toNat hhi]
    omega
  have hsub := ht.pages_afterMap hp hvd fun _ => hk.takePage
  obtain ⟨-, hidx, hcur⟩ := afterMap_bitmap image s.takePage p s.nextPage 3#32
  refine h.of_walk ⟨h.toWellFormed.takePage.afterMap hvd fun _ => hk.takePage, ?_⟩
    (kernelPTIndex_afterMap_le (Machine.takePage_kernelPTIndex s ▸ h.kernelPTIndex)
      (fun _ => hk.takePage) _ _) ?_ ?_ ?_
    fun d i hd => ?_
  · rw [hcur, takePage_curPhysaddr]
    exact h.curPhysaddr
  · rw [hidx, hglobals]
    show 768 * 32 ≤ page / 32
    omega
  · rw [hcur, takePage_curPhysaddr]
  · exact (Machine.pages_subset fun d i hm => by rwa [walk_takePage]).trans hsub
  · rw [ht.walk_afterMap_outside hp hvd (fun _ => hk.takePage) (ne_selfDir_of_lt hd), walk_takePage,
      enter_of_ne]
    rintro ⟨rfl, -⟩
    omega

theorem window (h : Backed image s) (hk : TableLeft s) (hd : present (s.pde d) = false) :
    Backed image (s.newTable image d) := by
  refine h.of_walk ⟨h.toWellFormed.newTable hk hd, h.curPhysaddr⟩
    ((kernelPTIndex_takeTable hk).trans_le hk) h.cursor rfl (Machine.pages_subset
      (newTable_keeps h.toTables hk hd)) fun d' i hd' => ?_
  rw [h.walk_newTable hk hd, enter_of_ne]
  rintro ⟨rfl, -⟩
  exact ne_selfDir_of_lt hd' rfl

theorem faulted (h : Backed image s) (hk : present (s.pde (dirOf v)) = false → TableLeft s)
    (hv : dirOf v ≠ selfDir) (hn : s.walk (dirOf v) (tabOf v) = none) :
    Backed image (s.afterFault image v) := by
  have hk' := tableLeft_takeFrame hk
  have hw {d : Index} (hd : d.toNat < 768) (i : Index) :=
    h.walk_afterFault h.curPhysaddr hv hk (ne_selfDir_of_lt hd) i
  have hcur := h.pageable.curPhysaddr_afterFault v
  have hcounter := h.counter
  -- an entry of the lower half is the new one or an old one
  have hentry {d i : Index} {m : Mapping} (hd : d.toNat < 768)
      (hm : (s.afterFault image v).walk d i = some m) :
      (d = dirOf v ∧ i = tabOf v ∧ m.writable = true ∧
        m.frame.toNat = s.globals.curPhysaddr.toNat / 4096) ∨
        s.walk d i = some m := by
    rw [hw hd] at hm
    by_cases he : d = dirOf v ∧ i = tabOf v
    · obtain ⟨rfl, rfl⟩ := he
      rw [enter_same, hn, Option.getD_none] at hm
      obtain rfl := Option.some.inj hm
      exact Or.inl ⟨rfl, rfl, rfl, frameOf_toNat _⟩
    · rw [enter_of_ne _ _ he] at hm
      exact Or.inr hm
  have hafter := h.pageable.faulted hk hv hn
  refine ⟨⟨h.toWellFormed.takeFrame.afterMap hv hk', hafter.curPhysaddr⟩, hafter.kernelPTIndex, ?_,
    hafter.counter, hafter.taken, fun d i m hd hm => ?_, fun d i d' i' m m' hd hd' hm hm' hf => ?_⟩
  · rw [(afterMap_bitmap _ _ _ _ _).2.1, Machine.takeFrame, Machine.withGlobals_globals, findFreePhysaddr]
    exact h.cursor
  · rcases hentry hd hm with ⟨-, -, hwr, hframe⟩ | hm
    · exact ⟨hwr, by omega, by omega⟩
    · obtain ⟨hwr, hlo, hhi⟩ := h.frames d i m hd hm
      exact ⟨hwr, hlo, by omega⟩
  · rcases hentry hd hm with ⟨rfl, rfl, -, hframe⟩ | hm
    · rcases hentry hd' hm' with ⟨rfl, rfl, -⟩ | hm'
      · exact ⟨rfl, rfl⟩
      · have hlt := (h.frames d' i' m' hd' hm').2.2
        rw [← hf] at hlt
        omega
    · rcases hentry hd' hm' with ⟨rfl, rfl, -, hframe⟩ | hm'
      · have hlt := (h.frames d i m hd hm).2.2
        rw [hf] at hlt
        omega
      · exact h.separate d i d' i' m m' hd hd' hm hm' hf

theorem step (h : Backed image s) (hs : Guarded Supplied (Step image) s e t) : Backed image t := by
  obtain ⟨⟨⟨hk, hb⟩, h0⟩, hs⟩ := hs
  cases e with
  | mapped p v =>
    obtain ⟨hp, rfl, rfl⟩ := h.toTables.step_mapped (fun _ => hk) hs
    exact h.mapped hp hk (h0 _ _ rfl) hb
  | faulted v ec =>
    rcases h.toRunning.step_faulted hk hs with ⟨-, hd, rfl⟩ | ⟨hv, hn, rfl⟩
    · exact h.window hk hd
    · exact h.faulted (fun _ => hk) hv hn

theorem of_run (hb : Booted image s₀) (ha : image.PageAligned)
    (hr : Run (Guarded Supplied (Step image)) s₀ es s) : Backed image s :=
  hr.inv (init hb ha) fun _ _ _ h hs => h.step hs

end Backed

end PekOS
