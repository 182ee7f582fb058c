import PekOS.FaultHandling
import Mathlib.Algebra.Order.BigOperators.Group.Finset

/-! The frames `find_free_physaddr` hands out: a counter that asks neither the
page tables nor the memory map. -/

namespace PekOS

open OpTree FirstFit Labelled

variable {image : KernelImage} {s₀ s t u : Machine} {es es₁ es₂ : List Event} {e : Event}
    {p v ec : Word} {d i : Index}

/-! How many pages can be mapped below the window. -/

/-- The directory entries below the window that are present. -/
def Machine.dirs (s : Machine) : Finset Nat :=
  (Finset.range 1023).filter fun d => present (s.pde (BitVec.ofNat 10 d)) = true

/-- The pages below the window that are mapped. -/
def Machine.pages (s : Machine) : Finset Nat :=
  (Finset.range 0xFFC00).filter fun page => s.mapped page = true

theorem Machine.mem_dirs {d : Nat} :
    d ∈ s.dirs ↔ d < 1023 ∧ present (s.pde (BitVec.ofNat 10 d)) = true := by
  rw [dirs, Finset.mem_filter, Finset.mem_range]

theorem Machine.mem_pages {page : Nat} : page ∈ s.pages ↔ page < 0xFFC00 ∧ s.mapped page = true := by
  rw [pages, Finset.mem_filter, Finset.mem_range]

theorem Tables.card_dirs_le (h : Tables image s) :
    s.dirs.card ≤ s.globals.kernelPTIndex.toNat + 1 := by
  choose! g hself h768 hp hf using h.used
  have hsub : s.dirs ⊆ insert 768 ((Finset.range s.globals.kernelPTIndex.toNat).image fun k =>
      (g k).toNat) := by
    intro d hd
    obtain ⟨hlt, hd⟩ := Machine.mem_dirs.mp hd
    have hdn : (BitVec.ofNat 10 d).toNat = d := by rw [BitVec.toNat_ofNat, Nat.mod_eq_of_lt (by omega)]
    rcases h.source _ hd with he | he | ⟨k, hk, hf'⟩
    · have hd' := congrArg BitVec.toNat he
      rw [hdn, selfDir, BitVec.toNat_ofNat] at hd'
      omega
    · have hd' := congrArg BitVec.toNat he
      rw [hdn, BitVec.toNat_ofNat] at hd'
      exact Finset.mem_insert.mpr (Or.inl (by omega))
    · have hg := h.distinct _ _ hd (hp k hk) (hf'.trans (hf k hk).symm)
      refine Finset.mem_insert_of_mem (Finset.mem_image.mpr ⟨k, Finset.mem_range.mpr hk, ?_⟩)
      rw [← hg, hdn]
  refine (Finset.card_le_card hsub).trans ((Finset.card_insert_le _ _).trans ?_)
  exact Nat.succ_le_succ (Finset.card_image_le.trans (Finset.card_range _).le)

theorem Machine.card_pages_le (s : Machine) : s.pages.card ≤ s.dirs.card * 1024 := by
  have hsub : s.pages ⊆ s.dirs.biUnion fun d => Finset.Ico (d * 1024) (d * 1024 + 1024) := by
    intro page hpage
    rw [mem_pages, mapped_eq, Bool.and_eq_true] at hpage
    have hd : page / 1024 < 1023 := by
      have hlt := hpage.1
      omega
    rw [Finset.mem_biUnion]
    refine ⟨page / 1024, mem_dirs.mpr ⟨hd, hpage.2.1⟩, ?_⟩
    rw [Finset.mem_Ico]
    omega
  refine (Finset.card_le_card hsub).trans (Finset.card_biUnion_le_card_mul _ _ _ fun d _ => ?_)
  rw [Nat.card_Ico]
  omega

/-- 257 tables, of which none is the directory, hold this many pages. -/
theorem Tables.card_pages_le (h : Tables image s) (hk : s.globals.kernelPTIndex.toNat ≤ 256) :
    s.pages.card ≤ 257 * 1024 := by
  have hd := h.card_dirs_le
  exact s.card_pages_le.trans (Nat.mul_le_mul_right _ (by omega))

theorem Machine.pages_subset (h : ∀ d i, s.walk d i ≠ none → t.walk d i ≠ none) : s.pages ⊆ t.pages := by
  intro page hp
  rw [mem_pages, mapped, Option.isSome_iff_ne_none] at hp ⊢
  exact ⟨hp.1, h _ _ hp.2⟩

/-! What `map_page` and a fault map. -/

/-- Outside the window `map_page` enters one page. -/
theorem Tables.walk_afterMap_outside (h : Tables image s) (hp : aligned 4096 p) (hv : dirOf v ≠ selfDir)
    (hk : present (s.pde (dirOf v)) = false → TableLeft s) (hd : d ≠ selfDir) (i : Index) :
    (s.afterMap image p v 3#32).walk d i = enter s.walk (dirOf v) (tabOf v) ⟨frameOf p, true⟩ d i := by
  rw [h.walk_afterMap hp hv hk]
  by_cases he : d = dirOf v ∧ i = tabOf v
  · obtain ⟨rfl, rfl⟩ := he
    rw [enter_same, enter_same, if_neg fun h => hv h.2.1]
  · rw [enter_of_ne _ _ he, enter_of_ne _ _ he, if_neg fun h => hd h.2.1]

theorem kernelPTIndex_afterMap_le (hle : s.globals.kernelPTIndex.toNat ≤ 256)
    (hk : present (s.pde (dirOf v)) = false → TableLeft s) (p flags : Word) :
    (s.afterMap image p v flags).globals.kernelPTIndex.toNat ≤ 256 := by
  rw [afterMap_globals]
  split
  · exact hle
  · next hd =>
    have hl := hk (Bool.eq_false_iff.mpr hd)
    rw [kernelPTIndex_takeTable hl]
    exact hl

theorem Tables.pages_afterMap (h : Tables image s) (hp : aligned 4096 p) (hv : dirOf v ≠ selfDir)
    (hk : present (s.pde (dirOf v)) = false → TableLeft s) :
    s.pages ⊆ (s.afterMap image p v 3#32).pages := by
  refine Machine.pages_subset fun d i hm => ?_
  rw [h.walk_afterMap_of_mapped hp hv hk hm]
  exact hm

/-- The machine once the handler has run for `v`, a page below the window. -/
abbrev Machine.afterFault (image : KernelImage) (s : Machine) (v : Word) : Machine :=
  s.takeFrame.afterMap image s.globals.curPhysaddr v 3#32

section AfterFault

variable (h : Tables image s) (hp : aligned 4096 s.globals.curPhysaddr) (hv : dirOf v ≠ selfDir)
  (hk : present (s.pde (dirOf v)) = false → TableLeft s)

include hk in
theorem tableLeft_takeFrame (hd : present (s.takeFrame.pde (dirOf v)) = false) : TableLeft s.takeFrame :=
  (hk (by rwa [pde_takeFrame] at hd)).takeFrame

include h hp hv hk

theorem Tables.walk_afterFault (hd : d ≠ selfDir) (i : Index) : (s.afterFault image v).walk d i =
    enter s.walk (dirOf v) (tabOf v) ⟨frameOf s.globals.curPhysaddr, true⟩ d i := by
  rw [h.takeFrame.walk_afterMap_outside hp hv (tableLeft_takeFrame hk) hd, walk_takeFrame]

theorem Tables.walk_afterFault_of_mapped (hm : s.walk d i ≠ none) :
    (s.afterFault image v).walk d i = s.walk d i := by
  rw [h.takeFrame.walk_afterMap_of_mapped hp hv (tableLeft_takeFrame hk) (by rwa [walk_takeFrame]),
    walk_takeFrame]

/-- A page that was not mapped is. -/
theorem Tables.card_pages_afterFault (hn : s.walk (dirOf v) (tabOf v) = none) :
    s.pages.card < (s.afterFault image v).pages.card := by
  have hold : (frameOf v).toNat ∉ s.pages :=
    fun hm => (mapped_frameOf v).mp (Machine.mem_pages.mp hm).2 hn
  have hnew : (frameOf v).toNat ∈ (s.afterFault image v).pages := by
    have hvlt := dirOf_ne_selfDir_iff.mp hv
    refine Machine.mem_pages.mpr ⟨by rw [frameOf_toNat]; omega, (mapped_frameOf v).mpr ?_⟩
    rw [h.walk_afterFault hp hv hk hv, enter_same]
    exact Option.some_ne_none _
  have hsub : s.pages ⊆ (s.afterFault image v).pages := Machine.pages_subset fun d i hm => by
    rwa [h.walk_afterFault_of_mapped hp hv hk hm]
  have hcard := Finset.card_le_card (Finset.insert_subset hnew hsub)
  rwa [Finset.card_insert_of_notMem hold] at hcard

end AfterFault

/-! The runs in question, and their invariant. -/

/-- The page a step maps is under an absent directory entry, or its fault is in the window. -/
def TakesTable (s : Machine) : Event → Prop
  | .mapped _ _ => present (s.pde (dirOf s.nextPage)) = false
  | .faulted v _ => dirOf v = selfDir ∨ present (s.pde (dirOf v)) = false

/-- A step that takes a page table finds one left, aligned, and no page of the window is served. -/
def Provided (image : KernelImage) (s : Machine) (e : Event) : Prop :=
  (TakesTable s e → image.PageAligned ∧ TableLeft s) ∧ ServedBelow e

/-- Only tables that are taken need to be aligned. -/
structure Steady (image : KernelImage) (s : Machine) : Prop extends Tables image s where
  wellFormed : image.PageAligned → WellFormed image s
  curPhysaddr : aligned 4096 s.globals.curPhysaddr

theorem Booted.steady (h : Booted image s) : Steady image s := by
  obtain ⟨m, hl, hi⟩ := h.initialised
  exact ⟨hi.tables_wf, h.wellFormed, by rw [hi.curPhysaddr]; decide⟩

namespace Steady

/-- The two ways a fault is resumed. -/
theorem step_faulted (h : Steady image s) (hk : TakesTable s (.faulted v ec) → image.PageAligned ∧
    TableLeft s) (hs : Step image s (.faulted v ec) t) :
    (dirOf v = selfDir ∧ (image.PageAligned ∧ TableLeft s) ∧ present (s.pde (tabOf v)) = false ∧
        t = s.newTable image (tabOf v)) ∨
      (dirOf v ≠ selfDir ∧ s.walk (dirOf v) (tabOf v) = none ∧
        t = s.takeFrame.afterMap image s.globals.curPhysaddr v 3#32) := by
  cases hs with
  | faulted hn hec hr =>
  by_cases hv : dirOf v = selfDir
  · obtain ⟨ha, hl⟩ := hk (Or.inl hv)
    rw [(h.wellFormed ha).run_fault_window hl hec hv hn] at hr
    obtain rfl : s.newTable image (tabOf v) = t := by simpa using hr
    have hd : present (s.pde (tabOf v)) = false := by
      rw [← h.editable.pte_eq_pde]
      exact Machine.present_pte_of_walk h.editable.present (hv ▸ hn)
    exact Or.inl ⟨hv, ⟨ha, hl⟩, hd, rfl⟩
  · rw [h.run_fault_page hec hv fun hd => (hk (Or.inr hd)).2] at hr
    obtain rfl : s.takeFrame.afterMap image s.globals.curPhysaddr v 3#32 = t := by simpa using hr
    exact Or.inr ⟨hv, hn, rfl⟩

theorem takePage (h : Steady image s) (hv : dirOf s.nextPage ≠ selfDir)
    (hk : present (s.pde (dirOf s.nextPage)) = false → image.PageAligned ∧ TableLeft s) :
    Steady image (s.takePage.afterMap image p s.nextPage 3#32) := by
  have hk' (hd : present (s.takePage.pde (dirOf s.nextPage)) = false) : TableLeft s.takePage :=
    (hk (by rwa [pde_takePage] at hd)).2.takePage
  refine ⟨h.toTables.takePage.afterMap hv hk', fun ha => (h.wellFormed ha).takePage.afterMap hv hk', ?_⟩
  rw [(afterMap_bitmap _ _ _ _ _).2.2, takePage_curPhysaddr]
  exact h.curPhysaddr

theorem takeFrame (h : Steady image s) (hv : dirOf v ≠ selfDir)
    (hk : present (s.pde (dirOf v)) = false → image.PageAligned ∧ TableLeft s) :
    Steady image (s.takeFrame.afterMap image p v 3#32) := by
  have hk' := tableLeft_takeFrame fun hd => (hk hd).2
  refine ⟨h.toTables.takeFrame.afterMap hv hk', fun ha => (h.wellFormed ha).takeFrame.afterMap hv hk', ?_⟩
  rw [(afterMap_bitmap _ _ _ _ _).2.2, takeFrame_curPhysaddr]
  exact aligned_add_page h.curPhysaddr

theorem newTable (h : Steady image s) (hk : TableLeft s) {d : Index} (hd : present (s.pde d) = false) :
    Steady image (s.newTable image d) :=
  ⟨h.toTables.newTable hk hd, fun ha => (h.wellFormed ha).newTable hk hd, h.curPhysaddr⟩

end Steady

/-! What such a step adds to the translations. -/

/-- Demand faults outside the window take a frame. -/
def takesFrame : Event → Bool
  | .mapped _ _ => false
  | .faulted v _ => decide (dirOf v ≠ selfDir)

def taken (es : List Event) : Nat := es.countP takesFrame

theorem afterMap_frame (h : Tables image s) (hp : aligned 4096 p) (hv : dirOf v ≠ selfDir)
    (hk : present (s.pde (dirOf v)) = false → TableLeft s) {d i : Index} {m : Mapping}
    (hm : (s.afterMap image p v 3#32).walk d i = some m) :
    s.walk d i = some m ∨ m.frame = frameOf p ∨ m.frame.toNat < 0x400 := by
  rw [h.walk_afterMap hp hv hk] at hm
  have hold : ¬ (present (s.pde (dirOf v)) = false ∧ dirOf v = selfDir ∧ tabOf v = dirOf v) :=
    fun h => hv h.2.1
  by_cases he : d = dirOf v ∧ i = tabOf v
  · obtain ⟨rfl, rfl⟩ := he
    rw [enter_same, if_neg hold] at hm
    cases hs : s.walk (dirOf v) (tabOf v) with
    | none =>
      rw [hs, Option.getD_none] at hm
      obtain rfl := Option.some.inj hm
      exact Or.inr (Or.inl rfl)
    | some m' =>
      rw [hs, Option.getD_some] at hm
      exact Or.inl hm
  · rw [enter_of_ne _ _ he] at hm
    by_cases hw : present (s.pde (dirOf v)) = false ∧ d = selfDir ∧ i = dirOf v
    · rw [if_pos hw] at hm
      obtain rfl := Option.some.inj hm
      exact Or.inr (Or.inr (h.nextTable_lt (hk hw.1)))
    · rw [if_neg hw] at hm
      exact Or.inl hm

theorem newTable_frame (h : Tables image s) (hk : TableLeft s) {d : Index}
    (hd : present (s.pde d) = false) {d' i : Index} {m : Mapping}
    (hm : (s.newTable image d).walk d' i = some m) :
    s.walk d' i = some m ∨ m.frame.toNat < 0x400 := by
  rw [h.editable.walk_newTable h.distinct (h.unused_nextTable hk) hd] at hm
  by_cases he : d' = selfDir ∧ i = d
  · rw [if_pos he] at hm
    obtain rfl := Option.some.inj hm
    exact Or.inr (h.nextTable_lt hk)
  · rw [if_neg he] at hm
    exact Or.inl hm

theorem newTable_keeps (h : Tables image s) (hk : TableLeft s) {d : Index}
    (hd : present (s.pde d) = false) (d' i : Index) (hm : s.walk d' i ≠ none) :
    (s.newTable image d).walk d' i ≠ none := by
  rw [h.editable.walk_newTable h.distinct (h.unused_nextTable hk) hd]
  split
  · exact Option.some_ne_none _
  · exact hm

/-- After a run of such steps: the frames handed out are consecutive, and
every mapped frame lies in the kernel image, was entered by an allocation or
is one of them. -/
structure Framed (image : KernelImage) (es : List Event) (s : Machine) : Prop where
  steady : Steady image s
  kernelPTIndex : s.globals.kernelPTIndex.toNat ≤ 256
  cursor : s.globals.curPhysaddr.toNat = 0x10000000 + 4096 * taken es
  count : taken es ≤ s.pages.card
  frames : ∀ d i m, s.walk d i = some m → m.frame.toNat < 0x400 ∨
    (∃ p v, Event.mapped p v ∈ es ∧ m.frame = frameOf p) ∨
    (0x10000 ≤ m.frame.toNat ∧ m.frame.toNat < 0x10000 + taken es)

namespace Framed

theorem taken_le (h : Framed image es s) : taken es ≤ 257 * 1024 :=
  h.count.trans (h.steady.card_pages_le h.kernelPTIndex)

theorem taken_append (es : List Event) (e : Event) :
    taken (es ++ [e]) = taken es + if takesFrame e then 1 else 0 := by
  rw [taken, List.countP_append, List.countP_singleton, taken]

theorem init (hb : Booted image s) : Framed image [] s := by
  have hrun := hb.steady
  obtain ⟨m, hl, hi⟩ := hb.initialised
  refine ⟨hrun, by rw [hi.kernelPTIndex]; decide, by rw [hi.curPhysaddr]; rfl, Nat.zero_le _,
    fun d i mp hm => Or.inl ?_⟩
  obtain ⟨hd, hpte, hframe⟩ := Machine.of_walk hm
  rw [hframe]
  rcases hi.present_pde_iff.mp hd with rfl | rfl
  · rw [hrun.editable.pte_eq_pde] at hpte ⊢
    exact hrun.frame_lt (by rw [hi.kernelPTIndex]; decide) hpte
  · rw [Machine.pte, hrun.kernelMapped.frameOf_pde_768, hi.table1] at hpte ⊢
    exact frameOf_bootPte_lt i

theorem of_step (h : Framed image es s) (hr : Steady image t)
    (hk : t.globals.kernelPTIndex.toNat ≤ 256) (hcur : t.globals.curPhysaddr = s.globals.curPhysaddr)
    (he : takesFrame e = false) (hkeeps : ∀ d i, s.walk d i ≠ none → t.walk d i ≠ none)
    (hnew : ∀ d i m, t.walk d i = some m → s.walk d i = some m ∨ m.frame.toNat < 0x400 ∨
      ∃ p v, e = .mapped p v ∧ m.frame = frameOf p) : Framed image (es ++ [e]) t := by
  have htaken : taken (es ++ [e]) = taken es := by rw [taken_append, he]; rfl
  refine ⟨hr, hk, by rw [hcur, htaken, h.cursor], ?_, fun d i m hm => ?_⟩
  · rw [htaken]
    exact h.count.trans (Finset.card_le_card (Machine.pages_subset hkeeps))
  · rw [htaken]
    rcases hnew d i m hm with hs | hlt | ⟨p, v, rfl, hf⟩
    · rcases h.frames d i m hs with hlt | ⟨p, v, hmem, hf⟩ | hrange
      · exact Or.inl hlt
      · exact Or.inr (Or.inl ⟨p, v, List.mem_append_left _ hmem, hf⟩)
      · exact Or.inr (Or.inr hrange)
    · exact Or.inl hlt
    · exact Or.inr (Or.inl ⟨p, v, List.mem_append_right _ (List.mem_singleton.mpr rfl), hf⟩)

theorem step_mapped (h : Framed image es s)
    (hs : Guarded (Provided image) (Step image) s (.mapped p v) t) :
    Framed image (es ++ [.mapped p v]) t := by
  obtain ⟨⟨hk, hb⟩, hs⟩ := hs
  obtain ⟨hp, rfl, rfl⟩ := h.steady.step_mapped (fun hd => (hk hd).2) hs
  have hv := dirOf_ne_selfDir_iff.mpr hb
  have ht := h.steady.toTables.takePage
  have hk' (hd : present (s.takePage.pde (dirOf s.nextPage)) = false) : TableLeft s.takePage :=
    (hk (by rwa [pde_takePage] at hd)).2.takePage
  refine h.of_step (h.steady.takePage hv hk) (kernelPTIndex_afterMap_le ?_ hk' _ _) ?_
    rfl (fun d i hm => ?_) fun d i m hm => ?_
  · rw [Machine.takePage_kernelPTIndex]
    exact h.kernelPTIndex
  · rw [(afterMap_bitmap _ _ _ _ _).2.2, takePage_curPhysaddr]
  · rw [ht.walk_afterMap_of_mapped hp hv hk' (by rwa [walk_takePage]), walk_takePage]
    exact hm
  · rcases afterMap_frame ht hp hv hk' hm with hs | hf | hlt
    · exact Or.inl (by rwa [walk_takePage] at hs)
    · exact Or.inr (Or.inr ⟨p, _, rfl, hf⟩)
    · exact Or.inr (Or.inl hlt)

theorem step_faulted (h : Framed image es s)
    (hs : Guarded (Provided image) (Step image) s (.faulted v ec) t) :
    Framed image (es ++ [.faulted v ec]) t := by
  obtain ⟨⟨hk, -⟩, hs⟩ := hs
  rcases h.steady.step_faulted hk hs with ⟨hv, ⟨-, hl⟩, hd, rfl⟩ | ⟨hv, hn, rfl⟩
  · refine h.of_step (h.steady.newTable hl hd) ?_ rfl (by simp [takesFrame, hv])
      (newTable_keeps h.steady.toTables hl hd) fun d i m hm =>
        (newTable_frame h.steady.toTables hl hd hm).imp id Or.inl
    exact (kernelPTIndex_takeTable hl).trans_le hl
  · have ht := h.steady.toTables.takeFrame
    have hp := h.steady.curPhysaddr
    have hl (hd : present (s.pde (dirOf v)) = false) : TableLeft s := (hk (Or.inr hd)).2
    have htaken : taken (es ++ [.faulted v ec]) = taken es + 1 := by
      rw [taken_append]
      simp [takesFrame, hv]
    have hle := h.taken_le
    have hcur := h.cursor
    refine ⟨h.steady.takeFrame hv fun hd => hk (Or.inr hd),
      kernelPTIndex_afterMap_le ?_ (tableLeft_takeFrame hl) _ _, ?_, ?_, fun d i m hm => ?_⟩
    · rw [Machine.takeFrame_kernelPTIndex]
      exact h.kernelPTIndex
    · rw [(afterMap_bitmap _ _ _ _ _).2.2, takeFrame_curPhysaddr, htaken, BitVec.toNat_add,
        BitVec.toNat_ofNat]
      omega
    · rw [htaken]
      exact (Nat.succ_le_succ h.count).trans (h.steady.card_pages_afterFault hp hv hl hn)
    · rw [htaken]
      rcases afterMap_frame ht hp hv (tableLeft_takeFrame hl) hm with hs | hf | hlt
      · rw [walk_takeFrame] at hs
        rcases h.frames d i m hs with hlt | ⟨p, v', hmem, hf⟩ | ⟨hge, hlt⟩
        · exact Or.inl hlt
        · exact Or.inr (Or.inl ⟨p, v', List.mem_append_left _ hmem, hf⟩)
        · exact Or.inr (Or.inr ⟨hge, by omega⟩)
      · rw [hf, frameOf_toNat, hcur]
        exact Or.inr (Or.inr ⟨by omega, by omega⟩)
      · exact Or.inl hlt

theorem of_run (hb : Booted image s₀) (hr : Run (Guarded (Provided image) (Step image)) s₀ es s) :
    Framed image es s :=
  hr.inv_history (init hb) fun _ _ e _ h hs => by
    cases e with
    | mapped p v => exact h.step_mapped hs
    | faulted v ec => exact h.step_faulted hs

end Framed

theorem Provided.of_confined (ha : image.PageAligned) (hr : Run (Guarded Confined (Step image)) s₀ es s) :
    Run (Guarded (Provided image) (Step image)) s₀ es s :=
  hr.mono fun _ _ _ hs => ⟨⟨fun _ => ⟨ha, hs.1.1⟩, hs.1.2⟩, hs.2⟩

/-- What the frame `find_free_physaddr` returns is meant to be, in the state
`s` a run with the events `es` has reached from `s₀`. -/
structure FrameFresh (image : KernelImage) (s₀ : Machine) (es : List Event) (s : Machine) : Prop where
  unmapped : ∀ d i m, s.walk d i = some m → m.frame ≠ frameOf (findFreePhysaddr s.globals).1
  outside : image.size ≤ (findFreePhysaddr s.globals).1.toNat
  /-- No earlier fault was given it. -/
  first : ∀ es₁ v ec es₂ u, es = es₁ ++ Event.faulted v ec :: es₂ → dirOf v ≠ selfDir →
    Run (Step image) s₀ es₁ u → (findFreePhysaddr u.globals).1 ≠ (findFreePhysaddr s.globals).1
  noWrap : (findFreePhysaddr s.globals).1.toNat + 0x1000 < 2 ^ 32

/-- In such runs the frame is fresh unless an allocation has entered the very
page the counter has come to. -/
theorem frames_fresh (hb : Booted image s₀) (hr : Run (Guarded (Provided image) (Step image)) s₀ es s)
    (hp : ∀ p v, Event.mapped p v ∈ es → frameOf p ≠ frameOf s.globals.curPhysaddr) :
    FrameFresh image s₀ es s := by
  have h := Framed.of_run hb hr
  have hcur := h.cursor
  have hle := h.taken_le
  refine ⟨fun d i m hm hf => ?_, ?_, ?_, ?_⟩
  · have hf' : m.frame = frameOf s.globals.curPhysaddr := hf
    have hframe := congrArg BitVec.toNat hf'
    rw [frameOf_toNat, hcur] at hframe
    rcases h.frames d i m hm with hlt | ⟨p, v, hmem, hp'⟩ | ⟨hge, hlt⟩
    · omega
    · exact hp p v hmem (hp'.symm.trans hf')
    · omega
  · have hend := image.kernelEnd_le
    have hsize := size_eq image
    show image.size ≤ s.globals.curPhysaddr.toNat
    omega
  · rintro es₁ v ec es₂ u rfl hv hu he
    obtain ⟨w, hw, -⟩ := hr.split
    have hdet : ∀ t e x y, Step image t e x → Step image t e y → x = y := fun _ _ _ _ => Step.det image
    obtain rfl := hu.det hdet hw.unguard
    have hcuru := (Framed.of_run hb hw).cursor
    have htaken : taken (es₁ ++ Event.faulted v ec :: es₂) = taken es₁ + (taken es₂ + 1) := by
      rw [taken, List.countP_append, List.countP_cons]
      simp [takesFrame, hv, taken]
    have he' : u.globals.curPhysaddr = s.globals.curPhysaddr := he
    rw [he', hcur, htaken] at hcuru
    omega
  · show s.globals.curPhysaddr.toNat + 0x1000 < 2 ^ 32
    omega

/-- A fault under an absent directory entry takes a page table, an allocation follows. -/
theorem exists_run_faulted : ∃ s₀ v s, Booted alignedImage s₀ ∧
    Run (Guarded (Provided alignedImage) (Step alignedImage)) s₀
      [.faulted 0x30300000#32 2#32, .mapped 0xE0000000#32 v] s := by
  have ha := alignedImage_pageAligned
  have hec : Resumable 2#32 := ⟨by decide, by decide⟩
  obtain ⟨s₀, hb, hi⟩ := exists_booted (loaded_zeroMachine alignedImage)
  have hd : present (s₀.pde (dirOf 0x30300000#32)) = false := by
    rw [Bool.eq_false_iff, Ne, hi.present_pde_iff]
    decide
  have hn : s₀.walk (dirOf 0x30300000#32) (tabOf 0x30300000#32) = none :=
    Machine.walk_eq_none_iff.mpr (Or.inl hd)
  have hl : TableLeft s₀ := by
    rw [TableLeft, hi.kernelPTIndex]
    decide
  have hfault : Step alignedImage s₀ (.faulted 0x30300000#32 2#32)
      (s₀.afterFault alignedImage 0x30300000#32) :=
    .faulted hn hec (hb.steady.run_fault_page hec (by decide) fun _ => hl)
  have hr : Run (Guarded (Provided alignedImage) (Step alignedImage)) s₀
      [.faulted 0x30300000#32 2#32] _ :=
    Run.single ⟨⟨fun _ => ⟨ha, hl⟩, trivial⟩, hfault⟩
  have h := Framed.of_run hb hr
  generalize ht : s₀.afterFault alignedImage 0x30300000#32 = t at h hr
  have hglobals : t.globals = s₀.takeFrame.takeTable.globals := by
    rw [← ht, afterMap_globals, pde_takeFrame, hd, if_neg Bool.false_ne_true]
  obtain ⟨page, rest, hf, hle⟩ := hb.freePages_cons
  have hf' : t.globals.freePages = page :: rest := by
    rw [hglobals, ← hf, Globals.freePages, Globals.freePages, Machine.takeTable_globals,
      Machine.takeFrame, Machine.withGlobals_globals, findFreePhysaddr]
  have hl' : TableLeft t := by
    rw [TableLeft, hglobals, kernelPTIndex_takeTable hl.takeFrame, Machine.takeFrame_kernelPTIndex,
      hi.kernelPTIndex]
    decide
  have hbelow : t.nextPage.toNat < 0xFFC00000 := by
    rw [(nextPage_of_cons hf').1, pageAddr_toNat (by omega)]
    omega
  have hmap : Step alignedImage t (.mapped 0xE0000000#32 t.nextPage) _ :=
    .mapped (by decide) (h.steady.run_mapPhysaddr 0xE0000000#32 fun _ => hl')
  have hguard : Provided alignedImage t (.mapped 0xE0000000#32 t.nextPage) := ⟨fun _ => ⟨ha, hl'⟩, hbelow⟩
  exact ⟨s₀, t.nextPage, _, hb, hr.snoc ⟨hguard, hmap⟩⟩

/-- Where the tables are not aligned, a fault beside the kernel takes none. -/
theorem exists_run_unaligned : ∃ s₀ s, Booted unalignedImage s₀ ∧
    Run (Guarded (Provided unalignedImage) (Step unalignedImage)) s₀ [.faulted 0xC0380000#32 2#32] s := by
  have hec : Resumable 2#32 := ⟨by decide, by decide⟩
  obtain ⟨s₀, hb, hi⟩ := exists_booted (loaded_zeroMachine unalignedImage)
  have hd : present (s₀.pde (dirOf 0xC0380000#32)) = true := hi.present_pde_iff.mpr (Or.inr (by decide))
  have hpte : s₀.pte 768#10 896#10 = 0#32 := by
    rw [Machine.pte, hb.steady.kernelMapped.frameOf_pde_768, hi.table1]
    decide
  have hn : s₀.walk (dirOf 0xC0380000#32) (tabOf 0xC0380000#32) = none :=
    Machine.walk_eq_none_iff.mpr (Or.inr (congrArg present hpte))
  have hno (h : present (s₀.pde (dirOf 0xC0380000#32)) = false) : False := by
    rw [hd] at h
    exact Bool.noConfusion h
  have hfault : Step unalignedImage s₀ (.faulted 0xC0380000#32 2#32)
      (s₀.afterFault unalignedImage 0xC0380000#32) :=
    .faulted hn hec (hb.steady.run_fault_page hec (by decide) fun h => (hno h).elim)
  refine ⟨s₀, _, hb, Run.single ⟨⟨?_, trivial⟩, hfault⟩⟩
  rintro (hv | h)
  · exact absurd hv (by decide)
  · exact (hno h).elim

/-- The first frame is gone after one fault, with or without aligned tables. -/
theorem frames_fresh_faulted :
    (∃ s₀ v s, Booted alignedImage s₀ ∧ s.globals.curPhysaddr = 0x10001000#32 ∧
      FrameFresh alignedImage s₀ [.faulted 0x30300000#32 2#32, .mapped 0xE0000000#32 v] s) ∧
    ∃ s₀ s, Booted unalignedImage s₀ ∧ ¬ unalignedImage.PageAligned ∧
      FrameFresh unalignedImage s₀ [.faulted 0xC0380000#32 2#32] s := by
  constructor
  · obtain ⟨s₀, v, s, hb, hr⟩ := exists_run_faulted
    have hcur := BitVec.eq_of_toNat_eq (y := 0x10001000#32) (Framed.of_run hb hr).cursor
    refine ⟨s₀, v, s, hb, hcur, frames_fresh hb hr fun p v' hm => ?_⟩
    obtain ⟨rfl, -⟩ : p = 0xE0000000#32 ∧ v' = v := by simpa using hm
    rw [hcur]
    decide
  · obtain ⟨s₀, s, hb, hr⟩ := exists_run_unaligned
    refine ⟨s₀, s, hb, by unfold KernelImage.PageAligned; decide, frames_fresh hb hr fun p v hm => ?_⟩
    simp at hm

/-- A firmware page at 0x10000000 is what the counter hands out first. -/
theorem frame_not_fresh : ∃ s₀ v s, Booted alignedImage s₀ ∧
    Step alignedImage s₀ (.mapped 0x10000000#32 v) s ∧
    ¬ FrameFresh alignedImage s₀ [.mapped 0x10000000#32 v] s := by
  have ha := alignedImage_pageAligned
  obtain ⟨s₀, hb, -⟩ := exists_booted (loaded_zeroMachine alignedImage)
  obtain ⟨v, s, hs⟩ := exists_first hb ha (p := 0x10000000#32) (by decide)
  have hr := Run.single hs
  have hcur : s.globals.curPhysaddr = 0x10000000#32 :=
    BitVec.eq_of_toNat_eq
      (Framed.of_run hb (Provided.of_confined ha (Allocated.run_confined hb ha hr))).cursor
  have hw := (Allocated.of_run hb ha hr).entered _ v (List.mem_singleton.mpr rfl)
  refine ⟨s₀, v, s, hb, hs.2, fun h => h.unmapped _ _ _ hw ?_⟩
  show frameOf 0x10000000#32 = frameOf s.globals.curPhysaddr
  rw [hcur]

end PekOS
