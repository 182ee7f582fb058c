import PekOS.PageFault

/-! The invariant of the page tables, kept by every step that takes its page
table from inside `kernel_PTs` and maps a page below the window. -/

namespace PekOS

open OpTree

variable {image : KernelImage}

/-- The tables are those boot made and the preallocated ones handed out so
far, each under one directory entry. -/
structure Tables (image : KernelImage) (s : Machine) : Prop where
  kernelMapped : KernelMapped image s
  distinct : s.TablesDistinct
  writable : ∀ d, present (s.pde d) = true → writable (s.pde d) = true
  source : ∀ d, present (s.pde d) = true → d = selfDir ∨ d = 768#10 ∨
    ∃ k < s.globals.kernelPTIndex.toNat, frameOf (s.pde d) = image.tableFrame k
  used : ∀ k < s.globals.kernelPTIndex.toNat, ∃ d, d ≠ selfDir ∧ d ≠ 768#10 ∧
    present (s.pde d) = true ∧ frameOf (s.pde d) = image.tableFrame k

/-- Besides, the tables still to be handed out are zero. -/
structure WellFormed (image : KernelImage) (s : Machine) : Prop extends Tables image s where
  zero : ∀ k, s.globals.kernelPTIndex.toNat ≤ k → k < 256 → ∀ i, s.mem (image.tableFrame k) i = 0#32

/-- Another page table can be taken without running past `kernel_PTs`. -/
def TableLeft (s : Machine) : Prop := s.globals.kernelPTIndex.toNat < 256

variable {s t : Machine} {m : Memory}

theorem Initialised.tables_wf (h : Initialised image m s) : Tables image s := by
  have hself := h.kernelMapped.editable
  have hsf := hself.frame
  rw [h.cr3] at hsf
  have h768 := h.kernelMapped.frameOf_pde_768
  refine ⟨h.kernelMapped, fun d d' hd hd' hf => ?_, fun d hd => ?_, fun d hd => ?_, fun k hk => ?_⟩
  · rcases h.present_pde_iff.mp hd with rfl | rfl <;> rcases h.present_pde_iff.mp hd' with rfl | rfl
    · rfl
    · rw [hsf, h768] at hf
      exact absurd hf image.directoryFrame_ne_table1Frame
    · rw [hsf, h768] at hf
      exact absurd hf.symm image.directoryFrame_ne_table1Frame
    · rfl
  · rcases h.present_pde_iff.mp hd with rfl | rfl
    · exact hself.writable
    · rw [h.kernelMapped.pde_768, writable_or_three]
  · rcases h.present_pde_iff.mp hd with rfl | rfl
    · exact Or.inl rfl
    · exact Or.inr (Or.inl rfl)
  · rw [h.kernelPTIndex] at hk
    exact absurd hk (Nat.not_lt_zero k)

theorem Initialised.wellFormed (h : Initialised image m s) (hl : Loaded image m)
    (ha : image.PageAligned) : WellFormed image s :=
  ⟨h.tables_wf, fun _ _ hk i => h.tables hl ha hk i⟩

theorem Booted.wellFormed (h : Booted image s) (ha : image.PageAligned) : WellFormed image s := by
  obtain ⟨m, hl, hi⟩ := h.initialised
  exact hi.wellFormed hl ha

/-! Only memory and the table index matter. -/

theorem KernelMapped.of_mem (h : KernelMapped image s) (hc : t.cr3 = s.cr3) (hm : t.mem = s.mem) :
    KernelMapped image t := by
  have hp (d : Index) : t.pde d = s.pde d := by rw [Machine.pde, Machine.pde, hc, hm]
  exact ⟨hc.trans h.cr3, fun d hd => (hp d).trans (h.directory d hd),
    fun i hi => by rw [hm, h.table1 i hi]⟩

/-- No entry boot made is overwritten as long as stores go to absent entries. -/
theorem KernelMapped.put (h : KernelMapped image s) {f : Frame} {i : Index}
    (hi : present (s.mem f i) = false) (w : Word) : KernelMapped image (s.put f i w) := by
  have hmem (f' : Frame) (j : Index) (hj : present (s.mem f' j) = true) :
      poke s.mem f i w f' j = s.mem f' j := by
    have hne : ¬ (f' = f ∧ j = i) := by
      rintro ⟨rfl, rfl⟩
      rw [hi] at hj
      exact Bool.noConfusion hj
    rw [poke, if_neg hne]
  refine ⟨h.cr3, fun d hd => ?_, fun j hj => ?_⟩
  · have hd' := h.directory d hd
    rw [Machine.pde] at hd'
    rw [Machine.pde, Machine.put_mem, Machine.put_cr3, hmem _ _ (by rw [hd', hd]), hd']
  · rw [Machine.put_mem, hmem _ _ (by rw [h.table1 j hj, hj]), h.table1 j hj]

theorem KernelMapped.frameOf_nextTable (h : KernelMapped image s) :
    frameOf (s.nextTable image) = image.tableFrame s.globals.kernelPTIndex.toNat := by
  rw [h.nextTable, KernelImage.tableFrame]

theorem KernelMapped.nextTable_ne_cr3 (h : KernelMapped image s) (hk : TableLeft s) :
    frameOf (s.nextTable image) ≠ s.cr3 := by
  rw [h.frameOf_nextTable, h.cr3]
  exact image.tableFrame_ne_directoryFrame hk

theorem KernelMapped.newTable (h : KernelMapped image s) (hk : TableLeft s) {d : Index}
    (hd : present (s.pde d) = false) : KernelMapped image (s.newTable image d) := by
  have hF := h.nextTable_ne_cr3 hk
  refine ⟨h.cr3, fun d' hd' => ?_, fun j hj => ?_⟩
  · have hne : d' ≠ d := by
      rintro rfl
      rw [h.directory d' hd', hd'] at hd
      exact Bool.noConfusion hd
    rw [Machine.pde_newTable_of_ne image hF hne, h.directory d' hd']
  · have hf₁ : image.table1Frame ≠ frameOf (s.nextTable image) := by
      rw [h.frameOf_nextTable]
      exact (image.tableFrame_ne_table1Frame hk).symm
    have hf₂ : image.table1Frame ≠ s.cr3 := by
      rw [h.cr3]
      exact image.directoryFrame_ne_table1Frame.symm
    rw [Machine.newTable, Machine.clearTo_mem, zeroTo_of_frame_ne hf₁, Machine.enterTable,
      Machine.put_mem, poke_of_frame_ne hf₂, Machine.takeTable_mem, h.table1 j hj]

theorem kernelPTIndex_takeTable (hk : TableLeft s) :
    s.takeTable.globals.kernelPTIndex.toNat = s.globals.kernelPTIndex.toNat + 1 := by
  unfold TableLeft at hk
  simp only [Machine.takeTable_globals, BitVec.toNat_add, BitVec.toNat_ofNat]
  omega

theorem Tables.of_mem (h : Tables image s) (hc : t.cr3 = s.cr3) (hm : t.mem = s.mem)
    (hk : t.globals.kernelPTIndex = s.globals.kernelPTIndex) : Tables image t := by
  have hp (d : Index) : t.pde d = s.pde d := by rw [Machine.pde, Machine.pde, hc, hm]
  refine ⟨h.kernelMapped.of_mem hc hm, ?_, ?_, ?_, ?_⟩
  · simpa only [Machine.TablesDistinct, hp] using h.distinct
  · simpa only [hp] using h.writable
  · simpa only [hp, hk] using h.source
  · simpa only [hp, hk] using h.used

theorem WellFormed.of_mem (h : WellFormed image s) (hc : t.cr3 = s.cr3) (hm : t.mem = s.mem)
    (hk : t.globals.kernelPTIndex = s.globals.kernelPTIndex) : WellFormed image t :=
  ⟨h.toTables.of_mem hc hm hk, by simpa only [hm, hk] using h.zero⟩

namespace Tables

theorem editable (h : Tables image s) : s.Editable := h.kernelMapped.editable

theorem frame_cases (h : Tables image s) {d : Index} (hd : present (s.pde d) = true) :
    frameOf (s.pde d) = image.directoryFrame ∨ frameOf (s.pde d) = image.table1Frame ∨
      ∃ k < s.globals.kernelPTIndex.toNat, frameOf (s.pde d) = image.tableFrame k := by
  rcases h.source d hd with rfl | rfl | hk
  · exact Or.inl (h.editable.frame.trans h.kernelMapped.cr3)
  · exact Or.inr (Or.inl h.kernelMapped.frameOf_pde_768)
  · exact Or.inr (Or.inr hk)

/-- A preallocated table at or beyond the index is under no directory entry. -/
theorem frame_ne (h : Tables image s) {k : Nat} (hk : s.globals.kernelPTIndex.toNat ≤ k) (hk' : k < 256)
    {d : Index} (hd : present (s.pde d) = true) : frameOf (s.pde d) ≠ image.tableFrame k := by
  rcases h.frame_cases hd with hf | hf | ⟨j, hj, hf⟩
  · rw [hf]
    exact (image.tableFrame_ne_directoryFrame hk').symm
  · rw [hf]
    exact (image.tableFrame_ne_table1Frame hk').symm
  · rw [hf]
    intro he
    have := image.tableFrame_injective (by omega) hk' he
    omega

theorem unused_nextTable (h : Tables image s) (hk : TableLeft s) :
    s.Unused (frameOf (s.nextTable image)) := by
  intro d hd
  rw [h.kernelMapped.frameOf_nextTable]
  exact h.frame_ne (Nat.le_refl _) hk hd

theorem run_mapPage (h : Tables image s) (p v flags : Word)
    (hk : present (s.pde (dirOf v)) = false → TableLeft s) :
    s.run (mapPage image p v flags) = .ok ((), s.afterMap image p v flags) :=
  h.editable.run_mapPage image p v flags (h.writable _) fun hd => h.kernelMapped.nextTable_ne_cr3 (hk hd)

theorem put (h : Tables image s) {d : Index} (hd : present (s.pde d) = true) (hne : d ≠ selfDir)
    {i : Index} (hi : present (s.pte d i) = false) (w : Word) :
    Tables image (s.put (frameOf (s.pde d)) i w) := by
  have hs := h.editable.toSelfMapped
  have hpde := Machine.pde_put_of_frame_ne (hs.frame_ne h.distinct hd hne) i w
  refine ⟨h.kernelMapped.put hi w, hs.tablesDistinct_put h.distinct hd hne i w, ?_, ?_, ?_⟩
  · simpa only [hpde] using h.writable
  · simpa only [hpde, Machine.put_globals] using h.source
  · simpa only [hpde, Machine.put_globals] using h.used

theorem newTable (h : Tables image s) (hk : TableLeft s) {d : Index} (hd : present (s.pde d) = false) :
    Tables image (s.newTable image d) := by
  have hF := h.kernelMapped.nextTable_ne_cr3 hk
  have hu := h.unused_nextTable hk
  have hsame := Machine.pde_newTable_same image hF d
  have hindex := kernelPTIndex_takeTable hk
  refine ⟨h.kernelMapped.newTable hk hd, h.editable.tablesDistinct_newTable h.distinct hu d,
    fun d' hd' => ?_, fun d' hd' => ?_, fun k hlt => ?_⟩
  · by_cases he : d' = d
    · rw [he, hsame, writable_or_three]
    · rw [Machine.pde_newTable_of_ne image hF he] at hd' ⊢
      exact h.writable d' hd'
  · by_cases he : d' = d
    · refine Or.inr (Or.inr ⟨s.globals.kernelPTIndex.toNat, ?_, ?_⟩)
      · exact hindex ▸ Nat.lt_succ_self _
      · rw [he, hsame, frameOf_or_three, h.kernelMapped.frameOf_nextTable]
    · rw [Machine.pde_newTable_of_ne image hF he] at hd' ⊢
      rcases h.source d' hd' with hc | hc | ⟨k, hlt, hf⟩
      · exact Or.inl hc
      · exact Or.inr (Or.inl hc)
      · exact Or.inr (Or.inr ⟨k, hindex ▸ Nat.lt_succ_of_lt hlt, hf⟩)
  · have hlt' : k < s.globals.kernelPTIndex.toNat + 1 := hindex ▸ hlt
    rcases Nat.lt_succ_iff_lt_or_eq.mp hlt' with hk' | rfl
    · obtain ⟨d', h₁, h₂, hd', hf⟩ := h.used k hk'
      have hne : d' ≠ d := by
        rintro rfl
        rw [hd] at hd'
        exact Bool.noConfusion hd'
      exact ⟨d', h₁, h₂, by rwa [Machine.pde_newTable_of_ne image hF hne],
        by rwa [Machine.pde_newTable_of_ne image hF hne]⟩
    · refine ⟨d, ?_, ?_, by rw [hsame, present_or_three],
        by rw [hsame, frameOf_or_three, h.kernelMapped.frameOf_nextTable]⟩
      · rintro rfl
        rw [h.editable.present] at hd
        exact Bool.noConfusion hd
      · rintro rfl
        rw [h.kernelMapped.pde_768, present_or_three] at hd
        exact Bool.noConfusion hd

theorem frame_lt (h : Tables image s) (hk : s.globals.kernelPTIndex.toNat ≤ 256) {d : Index}
    (hd : present (s.pde d) = true) : (frameOf (s.pde d)).toNat < 0x400 := by
  have hdle := image.directory_le
  have hend := image.kernelEnd_le
  have hdf := directoryFrame_toNat image
  have htf := table1Frame_toNat image
  rcases h.frame_cases hd with hf | hf | ⟨k, hlt, hf⟩
  · rw [hf]
    omega
  · rw [hf]
    omega
  · rw [hf]
    exact image.tableFrame_lt (by omega)

end Tables

theorem Tables.nextTable_lt (h : Tables image s) (hk : TableLeft s) :
    (frameOf (s.nextTable image)).toNat < 0x400 := by
  rw [h.kernelMapped.frameOf_nextTable]
  exact image.tableFrame_lt hk

theorem Tables.unused_of_apart (h : Tables image s) (hk : s.globals.kernelPTIndex.toNat ≤ 256) {f : Frame}
    (hf : image.Apart f) : s.Unused f := by
  intro d hd he
  rcases h.frame_cases hd with hc | hc | ⟨k, hlt, hc⟩
  · exact hf.directory (he.symm.trans hc)
  · exact hf.table1 (he.symm.trans hc)
  · exact hf.table k (by omega) (he.symm.trans hc)

/-- What filling an absent entry and entering a new table preserve, `map_page` preserves. -/
theorem Tables.afterMap_of (h : Tables image s) {P : Machine → Prop} {p v flags : Word}
    (hv : dirOf v ≠ selfDir) (hk : present (s.pde (dirOf v)) = false → TableLeft s) (hs : P s)
    (hput : ∀ t d i w, P t → present (t.pde d) = true → d ≠ selfDir → present (t.pte d i) = false →
      P (t.put (frameOf (t.pde d)) i w))
    (hnew : TableLeft s → present (s.pde (dirOf v)) = false → P (s.newTable image (dirOf v))) :
    P (s.afterMap image p v flags) := by
  unfold Machine.afterMap
  by_cases hd : present (s.pde (dirOf v)) = true
  · rw [if_pos hd]
    by_cases ht : present (s.pte (dirOf v) (tabOf v)) = true
    · rwa [if_pos ht]
    · rw [if_neg ht]
      exact hput s _ _ _ hs hd hv (Bool.eq_false_iff.mpr ht)
  · have hd' := Bool.eq_false_iff.mpr hd
    have hsame := Machine.pde_newTable_same image (h.kernelMapped.nextTable_ne_cr3 (hk hd')) (dirOf v)
    have hz : present ((s.newTable image (dirOf v)).pte (dirOf v) (tabOf v)) = false := by
      rw [Machine.pte, hsame, frameOf_or_three, Machine.newTable, Machine.clearTo_mem, zeroTo_frame]
      rfl
    have hlast := hput _ _ _ (p ||| (flags &&& 0xFFF#32)) (hnew (hk hd') hd') (by simp [hsame]) hv hz
    rw [hsame, frameOf_or_three] at hlast
    rwa [if_neg hd]

theorem Tables.afterMap (h : Tables image s) {p v flags : Word} (hv : dirOf v ≠ selfDir)
    (hk : present (s.pde (dirOf v)) = false → TableLeft s) : Tables image (s.afterMap image p v flags) :=
  h.afterMap_of hv hk h (fun _ _ _ w ht hd hne hi => ht.put hd hne hi w) fun hl hd => h.newTable hl hd

/-- `map_page` writes to page tables only. -/
theorem Tables.mem_afterMap (h : Tables image s) {p v flags : Word} (hk : TableLeft s) {f : Frame}
    (hf : image.Apart f) (i : Index) : (s.afterMap image p v flags).mem f i = s.mem f i := by
  have hu := h.unused_of_apart (Nat.le_of_lt hk) hf
  have hF : f ≠ frameOf (s.nextTable image) := by
    rw [h.kernelMapped.frameOf_nextTable]
    exact hf.table _ hk
  unfold Machine.afterMap
  by_cases hd : present (s.pde (dirOf v)) = true
  · rw [if_pos hd]
    split
    · rfl
    · rw [Machine.put_mem, poke_of_frame_ne (hu _ hd).symm]
  · rw [if_neg hd, Machine.put_mem, poke_of_frame_ne hF, Machine.newTable, Machine.clearTo_mem,
      zeroTo_of_frame_ne hF, Machine.enterTable, Machine.put_mem,
      poke_of_frame_ne (hu.ne_cr3 h.editable.toSelfMapped), Machine.takeTable_mem]

namespace WellFormed

theorem put (h : WellFormed image s) {d : Index} (hd : present (s.pde d) = true) (hne : d ≠ selfDir)
    {i : Index} (hi : present (s.pte d i) = false) (w : Word) :
    WellFormed image (s.put (frameOf (s.pde d)) i w) := by
  refine ⟨h.toTables.put hd hne hi w, fun k hk hk' j => ?_⟩
  rw [Machine.put_mem, poke_of_frame_ne (h.frame_ne hk hk' hd).symm]
  exact h.zero k hk hk' j

theorem newTable (h : WellFormed image s) (hk : TableLeft s) {d : Index}
    (hd : present (s.pde d) = false) : WellFormed image (s.newTable image d) := by
  have hindex : (s.newTable image d).globals.kernelPTIndex.toNat = s.globals.kernelPTIndex.toNat + 1 :=
    kernelPTIndex_takeTable hk
  refine ⟨h.toTables.newTable hk hd, fun k hle hk' i => ?_⟩
  have hne : image.tableFrame k ≠ frameOf (s.nextTable image) := by
    rw [h.kernelMapped.frameOf_nextTable]
    intro he
    have := image.tableFrame_injective hk' hk he
    omega
  have hc : image.tableFrame k ≠ s.cr3 := by
    rw [h.kernelMapped.cr3]
    exact image.tableFrame_ne_directoryFrame hk'
  rw [Machine.newTable, Machine.clearTo_mem, zeroTo_of_frame_ne hne, Machine.enterTable, Machine.put_mem,
    poke_of_frame_ne hc]
  exact h.zero k (by omega) hk' i

theorem afterMap (h : WellFormed image s) {p v flags : Word} (hv : dirOf v ≠ selfDir)
    (hk : present (s.pde (dirOf v)) = false → TableLeft s) :
    WellFormed image (s.afterMap image p v flags) :=
  h.toTables.afterMap_of hv hk h (fun _ _ _ w ht hd hne hi => ht.put hd hne hi w) fun hl hd =>
    h.newTable hl hd

/-- The next table is already clear, so entering it through a fault in the
window comes to the same as entering it through `map_page`. -/
theorem windowFault_eq (h : WellFormed image s) (hk : TableLeft s) (d : Index) :
    s.windowFault image d = s.newTable image d := by
  have hzero (i : Index) : s.mem (frameOf (s.nextTable image)) i = 0#32 := by
    rw [h.kernelMapped.frameOf_nextTable]
    exact h.zero _ (Nat.le_refl _) hk i
  have hmem : zeroTo (s.enterTable image d).mem (frameOf (s.nextTable image)) 1024 =
      (s.enterTable image d).mem := by
    funext f i
    by_cases hf : f = frameOf (s.nextTable image)
    · rw [hf, zeroTo_frame, Machine.enterTable, Machine.put_mem,
        poke_of_frame_ne (h.kernelMapped.nextTable_ne_cr3 hk), Machine.takeTable_mem, hzero]
    · rw [zeroTo_of_frame_ne hf]
  rw [Machine.newTable, Machine.clearTo, hmem]
  rfl

end WellFormed

end PekOS
