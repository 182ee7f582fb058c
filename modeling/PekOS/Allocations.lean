import PekOS.Paged

/-! Runs of allocations without page faults: the pages are served in order and
below the window, every mapping stays, and kernel_PTs is not exhausted. -/

namespace PekOS

open OpTree FirstFit Labelled

variable {image : KernelImage} {s₀ s t : Machine} {es : List Event} {p v : Word}

theorem Tables.step_mapped (h : Tables image s)
    (hk : present (s.pde (dirOf s.nextPage)) = false → TableLeft s) (hs : Step image s (.mapped p v) t) :
    aligned 4096 p ∧ v = s.nextPage ∧ t = s.takePage.afterMap image p v 3#32 := by
  cases hs with
  | mapped hp hr =>
    rw [h.run_mapPhysaddr p hk] at hr
    obtain ⟨rfl, rfl⟩ : s.nextPage = v ∧ _ = t := by simpa using hr
    exact ⟨hp, rfl, rfl⟩

/-- An allocation answered with a page, and with one below the window. -/
def Served (_ : Machine) : Event → Prop
  | .mapped _ v => v ≠ 0#32 ∧ v.toNat < 0xFFC00000
  | .faulted _ _ => False

structure Allocated (image : KernelImage) (s₀ : Machine) (es : List Event) (s : Machine) : Prop where
  wellFormed : WellFormed image s
  cursor : 768 * 32 ≤ s.globals.curVirtaddrIdx
  bitmap : ∀ page, 0xC0000 ≤ page → page < 0xFFC00 → s.mapped page = true →
    marked s.globals.virtualMmap page = true
  high : ∀ d, present (s.pde d) = true → 768 ≤ d.toNat
  kept : ∀ d i, s₀.walk d i ≠ none → s.walk d i = s₀.walk d i
  entered : ∀ p v, Event.mapped p v ∈ es → s.walk (dirOf v) (tabOf v) = some ⟨frameOf p, true⟩
  pages : ∀ p v, Event.mapped p v ∈ es → aligned 4096 p ∧ aligned 4096 v
  rest : ∀ f i, 0x400 ≤ f.toNat → s.mem f i = s₀.mem f i

namespace Allocated

theorem paged (h : Allocated image s₀ es s) : Paged image s :=
  ⟨h.wellFormed.toTables, h.cursor, h.bitmap, h.high⟩

theorem tableLeft (h : Allocated image s₀ es s) : TableLeft s := h.paged.tableLeft

theorem init (h : Booted image s) (ha : image.PageAligned) : Allocated image s [] s := by
  obtain ⟨-, hcursor, hbitmap, hhigh⟩ := h.paged
  refine ⟨h.wellFormed ha, hcursor, hbitmap, hhigh, fun _ _ _ => rfl, ?_, ?_, fun _ _ _ => rfl⟩
  · exact fun _ _ hm => absurd hm List.not_mem_nil
  · exact fun _ _ hm => absurd hm List.not_mem_nil

theorem step (h : Allocated image s₀ es s) {e : Event} (hs : Guarded Served (Step image) s e t) :
    Allocated image s₀ (es ++ [e]) t := by
  obtain ⟨hc, hs⟩ := hs
  cases e with
  | faulted v ec => exact hc.elim
  | mapped p v =>
  obtain ⟨h0, hlt⟩ := hc
  obtain ⟨hp, rfl, rfl⟩ := h.wellFormed.step_mapped (fun _ => h.tableLeft) hs
  obtain ⟨page, rest, hf, hhi, hlo, hu⟩ := nextPage_ne_zero h0
  obtain ⟨hpage, -⟩ := nextPage_of_cons hf
  rw [hpage] at hlt ⊢
  have hv := dirOf_ne_selfDir_iff.mpr hlt
  have he := h.paged.enter hf (by rw [pageAddr_toNat hhi] at hlt; omega) hp
  refine ⟨h.wellFormed.takePage.afterMap hv fun _ => h.tableLeft.takePage, he.paged.cursor,
    he.paged.bitmap, he.paged.high, fun d i hm => ?_, fun p' v' hm => ?_, fun p' v' hm => ?_,
    fun f i hf => ?_⟩
  · rw [he.kept d i (by rwa [h.kept d i hm]), h.kept d i hm]
  · rcases List.mem_append.mp hm with hm | hm
    · have hold := h.entered p' v' hm
      rw [he.kept _ _ (by rw [hold]; exact Option.some_ne_none _), hold]
    · obtain ⟨rfl, rfl⟩ : p' = p ∧ v' = pageAddr page := by simpa using hm
      exact he.self
  · rcases List.mem_append.mp hm with hm | hm
    · exact h.pages p' v' hm
    · obtain ⟨rfl, rfl⟩ : p' = p ∧ v' = pageAddr page := by simpa using hm
      exact ⟨hp, aligned_pageAddr hhi⟩
  · rw [he.memory f (KernelImage.apart_of_ge hf), h.rest f i hf]

theorem of_run (h : Booted image s₀) (ha : image.PageAligned)
    (hr : Run (Guarded Served (Step image)) s₀ es s) : Allocated image s₀ es s :=
  hr.inv_history (init h ha) fun _ _ _ _ h hs => step h hs

end Allocated

theorem getPhysaddr_of_walk (hs : s.SelfMapped) (hp : aligned 4096 p) (hv : aligned 4096 v) {w : Bool}
    (h : s.walk (dirOf v) (tabOf v) = some ⟨frameOf p, w⟩) (o : BitVec 12) :
    s.run (getPhysaddr (v + o.setWidth 32)) = .ok (p + o.setWidth 32, s) := by
  obtain ⟨hd, hi⟩ := frameOf_eq_iff.mp (frameOf_append (frameOf v) o)
  rw [hs.run_getPhysaddr, ← frameOf_append_eq_add hv, Machine.physOf, Machine.translate, hd, hi, h,
    Option.map_some, Option.getD_some, Mapping.phys, offsetOf_append, frameOf_append_eq_add hp]

/-- All mappings made by a run of allocations below the window hold at its
end, what was mapped before translates as before, and at most 254 of the 256
page tables are taken. -/
theorem allocations_kept (hb : Booted image s₀) (ha : image.PageAligned)
    (hr : Run (Guarded Served (Step image)) s₀ es s) :
    (∀ p v, Event.mapped p v ∈ es → ∀ o : BitVec 12,
      s.run (getPhysaddr (v + o.setWidth 32)) = .ok (p + o.setWidth 32, s)) ∧
    (∀ a, s₀.translate a ≠ none → s.translate a = s₀.translate a) ∧
    s.globals.kernelPTIndex.toNat ≤ 254 := by
  have h := Allocated.of_run hb ha hr
  refine ⟨fun p v hm o => ?_, fun a hm => ?_, h.wellFormed.kernelPTIndex_le h.high⟩
  · obtain ⟨hp, hv⟩ := h.pages p v hm
    exact getPhysaddr_of_walk h.wellFormed.editable.toSelfMapped hp hv (h.entered p v hm) o
  · have hw : s₀.walk (dirOf a) (tabOf a) ≠ none := fun hn => hm (by rw [Machine.translate, hn]; rfl)
    rw [Machine.translate, Machine.translate, h.kept _ _ hw]

/-- As long as the head of the queue is below the window, an allocation succeeds. -/
theorem Allocated.exists_step (h : Allocated image s₀ es s) (hp : aligned 4096 p) {page : Nat}
    {rest : List Nat} (hf : s.globals.freePages = page :: rest) (hlt : page < 0xFFC00) :
    ∃ t, Guarded Served (Step image) s (.mapped p (pageAddr page)) t ∧ t.globals.freePages = rest := by
  have hge := (h.paged.walk_head hf hlt).1
  have hnat : (pageAddr page).toNat = page * 4096 := pageAddr_toNat (by omega)
  have hrun := h.wellFormed.run_mapPhysaddr p fun _ => h.tableLeft
  rw [(nextPage_of_cons hf).1] at hrun
  refine ⟨_, ⟨⟨fun h0 => ?_, by omega⟩, .mapped hp hrun⟩, (h.paged.enter hf hlt hp).freePages⟩
  rw [h0, BitVec.toNat_ofNat] at hnat
  omega

/-- The pages of the queue below the window are served in their order. -/
theorem exists_run (hb : Booted image s₀) (ha : image.PageAligned) (hp : aligned 4096 p) {n : Nat}
    (hn : n ≤ (free (marked s₀.globals.virtualMmap) 0xC0000 0xFFC00).length) :
    ∃ t, Run (Guarded Served (Step image)) s₀
        ((s₀.globals.freePages.take n).map fun page => .mapped p (pageAddr page)) t ∧
      t.globals.freePages = s₀.globals.freePages.drop n := by
  have hqueue : s₀.globals.freePages = free (marked s₀.globals.virtualMmap) 0xC0000 0xFFC00 ++
      free (marked s₀.globals.virtualMmap) 0xFFC00 (1024 * 1024) := by
    obtain ⟨m, hl, hi⟩ := hb.initialised
    rw [Globals.freePages, hi.curVirtaddrIdx]
    exact free_split _ (by decide) (by decide)
  induction n with
  | zero => exact ⟨s₀, .nil, rfl⟩
  | succ n ih =>
    obtain ⟨t, hr, hfree⟩ := ih (by omega)
    have hlt : n < s₀.globals.freePages.length := by
      rw [hqueue, List.length_append]
      omega
    rw [List.drop_eq_getElem_cons hlt] at hfree
    have hmem : s₀.globals.freePages[n] ∈ free (marked s₀.globals.virtualMmap) 0xC0000 0xFFC00 := by
      simp only [hqueue]
      rw [List.getElem_append_left (by omega)]
      exact List.getElem_mem _
    obtain ⟨u, hs, hfree'⟩ := (Allocated.of_run hb ha hr).exists_step hp hfree (mem_free.mp hmem).2.1
    refine ⟨u, ?_, hfree'⟩
    rw [← List.take_concat_get' _ _ hlt, List.map_append]
    exact hr.snoc hs

theorem exists_first (hb : Booted image s₀) (ha : image.PageAligned) (hp : aligned 4096 p) :
    ∃ v t, Guarded Served (Step image) s₀ (.mapped p v) t := by
  obtain ⟨page, rest, hf, hle⟩ := hb.freePages_cons
  obtain ⟨t, hs, -⟩ := (Allocated.init hb ha).exists_step hp hf (by omega)
  exact ⟨_, t, hs⟩

/-- The pages that boot has left under directory entry 768, and three beyond. -/
def beyondBoot (s₀ : Machine) : Nat := (free (marked s₀.globals.virtualMmap) 0xC0000 0xC0400).length + 3

theorem take_beyondBoot (hb : Booted image s₀) :
    beyondBoot s₀ ≤ (free (marked s₀.globals.virtualMmap) 0xC0000 0xFFC00).length ∧
    (s₀.globals.freePages.take (beyondBoot s₀)).length = beyondBoot s₀ ∧
    0xC0400 ∈ s₀.globals.freePages.take (beyondBoot s₀) := by
  have hclear {page : Nat} (hge : 0xC0400 ≤ page) (hlt : page < 0xFFC00) := hb.clear hge hlt
  have hnext : free (marked s₀.globals.virtualMmap) 0xC0400 0xFFC00 =
      0xC0400 :: 0xC0401 :: 0xC0402 :: free (marked s₀.globals.virtualMmap) 0xC0403 0xFFC00 := by
    rw [free_succ (by decide), free_succ (by decide), free_succ (by decide),
      hclear (by decide) (by decide), hclear (by decide) (by decide), hclear (by decide) (by decide)]
    rfl
  have hlow := free_split (marked s₀.globals.virtualMmap) (show 0xC0000 ≤ 0xC0400 by decide)
    (show 0xC0400 ≤ 0xFFC00 by decide)
  obtain ⟨m, hl, hi⟩ := hb.initialised
  have hqueue : s₀.globals.freePages = free (marked s₀.globals.virtualMmap) 0xC0000 0xFFC00 ++
      free (marked s₀.globals.virtualMmap) 0xFFC00 (1024 * 1024) := by
    rw [Globals.freePages, hi.curVirtaddrIdx]
    exact free_split _ (by decide) (by decide)
  have hn : beyondBoot s₀ ≤ (free (marked s₀.globals.virtualMmap) 0xC0000 0xFFC00).length := by
    rw [hlow, hnext, List.length_append, beyondBoot]
    simp only [List.length_cons]
    omega
  refine ⟨hn, ?_, ?_⟩
  · rw [List.length_take, hqueue, List.length_append]
    omega
  · rw [hqueue, hlow, hnext, beyondBoot, List.append_assoc, List.take_append, List.mem_append,
      Nat.add_sub_cancel_left]
    exact Or.inr (List.mem_cons_self ..)

/-- An allocation in the first page without a table takes one. -/
theorem allocations_kept_beyondBoot : ∃ (s₀ : Machine) (es : List Event) (s : Machine),
    Booted alignedImage s₀ ∧ 3 ≤ es.length ∧ Run (Guarded Served (Step alignedImage)) s₀ es s ∧
    0 < s.globals.kernelPTIndex.toNat ∧
    (∀ p v, Event.mapped p v ∈ es → ∀ o : BitVec 12,
      s.run (getPhysaddr (v + o.setWidth 32)) = .ok (p + o.setWidth 32, s)) ∧
    (∀ a, s₀.translate a ≠ none → s.translate a = s₀.translate a) ∧
    s.globals.kernelPTIndex.toNat ≤ 254 := by
  obtain ⟨s₀, hb, -⟩ := exists_booted (loaded_zeroMachine alignedImage)
  have ha := alignedImage_pageAligned
  obtain ⟨hn, hlength, hmem⟩ := take_beyondBoot hb
  obtain ⟨s, hr, hfree⟩ := exists_run hb ha (p := 0xE0000000#32) (by decide) hn
  have h := Allocated.of_run hb ha hr
  have hentered := h.entered _ _ (List.mem_map.mpr ⟨0xC0400, hmem, rfl⟩)
  have hd := (Machine.of_walk hentered).1
  have hindex : 0 < s.globals.kernelPTIndex.toNat := by
    rcases h.wellFormed.source _ hd with he | he | ⟨k, hk, -⟩
    · exact absurd he (by decide)
    · exact absurd he (by decide)
    · omega
  refine ⟨s₀, _, s, hb, ?_, hr, hindex, allocations_kept hb ha hr⟩
  rw [List.length_map, hlength, beyondBoot]
  exact Nat.le_add_left ..

end PekOS
