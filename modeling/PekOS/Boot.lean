import PekOS.MapPage

/-! boot.S: the tables `_start` builds before the kernel runs in the higher
half. The loop and the four stores after it run with paging off, so the
addresses are physical; the store that withdraws the identity mapping is made
through the tables. -/

namespace PekOS

open OpTree

def physStore (m : Memory) (a w : Word) : Memory := poke m (frameOf a) (wordOf a) w

/-- The loop at label 1 of `_start`, with `n` the value of `ecx`. The table is
filled until `esi` reaches the end of the kernel or `ecx` runs out. -/
def mapKernel (kernelEnd : Word) : Nat → Word → Word → Memory → Memory
  | 0, _, _, m => m
  | n + 1, edi, esi, m =>
    if kernelEnd.sle esi then m
    else mapKernel kernelEnd n (edi + 4#32) (esi + 4096#32) (physStore m edi (esi ||| 3#32))

def bootTables (image : KernelImage) (m : Memory) : Memory :=
  let directory := image.bootPageDirectory - kernelMapStart
  let table1 := image.bootPageTable1 - kernelMapStart
  let m := mapKernel (image.kernelEnd - kernelMapStart) 1023 table1 0#32 m
  -- the VGA text buffer, at 0xC03FF000
  let m := physStore m (table1 + 1023#32 * 4#32) (0x000B8000#32 + 0x003#32)
  let m := physStore m directory (table1 + 0x003#32)
  let m := physStore m (directory + 768#32 * 4#32) (table1 + 0x003#32)
  physStore m (directory + 1023#32 * 4#32) (directory + 0x003#32)

/-- `_start`, up to the call of `kernel_main`. -/
def start (image : KernelImage) (s : Machine) : Except Stop (Unit × Machine) :=
  { s with
    mem := bootTables image s.mem
    cr3 := image.directoryFrame
    globals := initialGlobals }.run (Code.store image.bootPageDirectory 0#32)

/-- Memory as the boot loader leaves it: the zero-initialised tables are zero. -/
structure Loaded (image : KernelImage) (m : Memory) : Prop where
  directory : ∀ i, m image.directoryFrame i = 0#32
  table1 : ∀ i, m image.table1Frame i = 0#32
  tables : ∀ a : Word, image.kernelPTs.toNat ≤ a.toNat → a.toNat < image.kernelPTs.toNat + 0x100000 →
    m (frameOf (a - kernelMapStart)) (wordOf (a - kernelMapStart)) = 0#32

/-- The first bytes of the kernel image, the amount `_start` maps. -/
def KernelImage.size (image : KernelImage) : Nat := (image.kernelEnd - kernelMapStart).toNat

/-- The boot page table as `_start` leaves it. -/
def bootPte (image : KernelImage) (t : Index) : Word :=
  if t = 1023#10 then 0xB8003#32
  else if t.toNat * 4096 < image.size then BitVec.ofNat 32 (t.toNat * 4096) ||| 3#32
  else 0#32

/-- The page directory as `_start` leaves it. -/
def bootPde (image : KernelImage) (d : Index) : Word :=
  if d = selfDir then (image.bootPageDirectory - kernelMapStart) ||| 3#32
  else if d = 768#10 then (image.bootPageTable1 - kernelMapStart) ||| 3#32
  else 0#32

theorem physStore_eq (m : Memory) {a : Word} {f : Frame} {i : Index}
    (h : a.toNat = f.toNat * 4096 + 4 * i.toNat) (w : Word) : physStore m a w = poke m f i w := by
  have hi := i.isLt
  have hf : frameOf a = f := by
    apply BitVec.eq_of_toNat_eq
    rw [frameOf_toNat]
    omega
  have hw : wordOf a = i := by
    apply BitVec.eq_of_toNat_eq
    rw [wordOf_toNat]
    omega
  rw [physStore, hf, hw]

theorem sle_iff {x y : Word} (hx : x.toNat < 0x80000000) (hy : y.toNat < 0x80000000) :
    x.sle y = true ↔ x.toNat ≤ y.toNat := by
  rw [BitVec.sle_iff_toInt_le, BitVec.toInt_eq_toNat_of_lt (by omega),
    BitVec.toInt_eq_toNat_of_lt (by omega)]
  omega

theorem physStore_entry (m : Memory) {p : Word} {f : Frame} {k : Nat}
    (hp : p.toNat = f.toNat * 4096) (hk : k < 1024) (w : Word) :
    physStore m (p + BitVec.ofNat 32 k * 4#32) w = poke m f (BitVec.ofNat 10 k) w := by
  have hf := f.isLt
  refine physStore_eq m ?_ w
  rw [BitVec.toNat_add, BitVec.toNat_mul]
  simp only [BitVec.toNat_ofNat]
  omega

/-- What the loop has entered once it stops: `n` iterations from index `i` on. -/
theorem mapKernel_eq {kernelEnd : Word} (hend : kernelEnd.toNat ≤ 0x3FF000) (f : Frame) (m : Memory)
    {n i : Nat} (hn : i + n = 1023) :
    mapKernel kernelEnd n (BitVec.ofNat 32 (f.toNat * 4096 + 4 * i)) (BitVec.ofNat 32 (4096 * i)) m =
      fun f' t => if f' = f ∧ i ≤ t.toNat ∧ t.toNat * 4096 < kernelEnd.toNat then
        BitVec.ofNat 32 (t.toNat * 4096) ||| 3#32 else m f' t := by
  have hf := f.isLt
  induction n generalizing i m with
  | zero =>
    funext f' t
    rw [mapKernel, if_neg fun h => by omega]
  | succ n ih =>
    have hesi : (BitVec.ofNat 32 (4096 * i)).toNat = 4096 * i := by
      rw [BitVec.toNat_ofNat, Nat.mod_eq_of_lt (by omega)]
    have hsle : kernelEnd.sle (BitVec.ofNat 32 (4096 * i)) = true ↔ kernelEnd.toNat ≤ 4096 * i := by
      rw [sle_iff (by omega) (by omega), hesi]
    rw [mapKernel]
    by_cases he : kernelEnd.toNat ≤ 4096 * i
    · rw [if_pos (hsle.mpr he)]
      funext f' t
      rw [if_neg (by omega)]
    · have hi : (BitVec.ofNat 10 i).toNat = i := by
        rw [BitVec.toNat_ofNat, Nat.mod_eq_of_lt (by omega)]
      have hstore := physStore_eq m (a := BitVec.ofNat 32 (f.toNat * 4096 + 4 * i)) (f := f)
        (i := BitVec.ofNat 10 i) (by rw [hi, BitVec.toNat_ofNat, Nat.mod_eq_of_lt (by omega)])
        (BitVec.ofNat 32 (4096 * i) ||| 3#32)
      have hedi : BitVec.ofNat 32 (f.toNat * 4096 + 4 * i) + 4#32 =
          BitVec.ofNat 32 (f.toNat * 4096 + 4 * (i + 1)) := by
        rw [← BitVec.ofNat_add]
        exact congrArg _ (by omega)
      have hesi' : BitVec.ofNat 32 (4096 * i) + 4096#32 = BitVec.ofNat 32 (4096 * (i + 1)) := by
        rw [← BitVec.ofNat_add]
        exact congrArg _ (by omega)
      rw [if_neg (fun h => he (hsle.mp h)), hstore, hedi, hesi', ih _ (i := i + 1) (by omega)]
      funext f' t
      have ht : t = BitVec.ofNat 10 i ↔ t.toNat = i := by rw [← BitVec.toNat_inj, hi]
      by_cases hft : f' = f ∧ t.toNat = i
      · obtain ⟨hff, hti⟩ := hft
        rw [if_neg fun h => by omega, if_pos ⟨hff, by omega, by omega⟩, poke,
          if_pos ⟨hff, ht.mpr hti⟩, hti, Nat.mul_comm]
      · have hlt : (f' = f ∧ i + 1 ≤ t.toNat ∧ t.toNat * 4096 < kernelEnd.toNat) ↔
            (f' = f ∧ i ≤ t.toNat ∧ t.toNat * 4096 < kernelEnd.toNat) := by
          constructor
          · exact fun h => ⟨h.1, by omega, h.2.2⟩
          · rintro ⟨hff, hle, hlt⟩
            have hti : t.toNat ≠ i := fun hti => hft ⟨hff, hti⟩
            exact ⟨hff, by omega, hlt⟩
        have hne : ¬ (f' = f ∧ t = BitVec.ofNat 10 i) := fun h => hft ⟨h.1, ht.mp h.2⟩
        simp only [hlt, poke, if_neg hne]

section Image

variable (image : KernelImage)

theorem directoryFrame_toNat :
    image.directoryFrame.toNat * 4096 = image.bootPageDirectory.toNat - 0xC0000000 := by
  have ha := image.directory_aligned
  have hge := image.directory_ge
  unfold aligned at ha
  rw [KernelImage.directoryFrame, frameOf_toNat, image.directory_toNat]
  omega

theorem table1Frame_toNat :
    image.table1Frame.toNat * 4096 = image.bootPageDirectory.toNat - 0xC0000000 + 0x2000 := by
  have ha := image.directory_aligned
  have hge := image.directory_ge
  unfold aligned at ha
  rw [KernelImage.table1Frame, frameOf_toNat, image.table1_toNat]
  omega

theorem size_eq : image.size = image.kernelEnd.toNat - 0xC0000000 := by
  have hge := image.directory_ge
  have hle := image.directory_le
  have hlt := image.kernelEnd.isLt
  simp only [KernelImage.size, kernelMapStart, BitVec.toNat_sub, BitVec.toNat_ofNat]
  omega

/-- A frame that is no page table and cannot become one. -/
structure KernelImage.Apart (f : Frame) : Prop where
  directory : f ≠ image.directoryFrame
  table1 : f ≠ image.table1Frame
  table : ∀ k < 256, f ≠ image.tableFrame k

variable {image} in
/-- Memory below the kernel, and above its end. -/
theorem KernelImage.apart_of_outside {a : Word} (h : a.toNat < 0x100000 ∨ image.size ≤ a.toNat) :
    image.Apart (frameOf a) := by
  have hsize := size_eq image
  have hend := image.kernelEnd_le
  have hdge := image.directory_ge
  have hdle := image.directory_le
  have hda := image.directory_aligned
  have hkge := image.kernelPTs_ge
  have hkle := image.kernelPTs_le
  unfold aligned at hda
  refine ⟨?_, ?_, fun k hk => ?_⟩
  · rw [directoryFrame, frameOf_ne_iff, directory_toNat]
    omega
  · rw [table1Frame, frameOf_ne_iff, table1_toNat]
    omega
  · rw [tableFrame, frameOf_ne_iff, tableAddr_toNat _ (Nat.le_of_lt hk)]
    omega

variable {image} in
theorem KernelImage.apart_of_ge {f : Frame} (h : 0x400 ≤ f.toNat) : image.Apart f := by
  have hsize := size_eq image
  have hend := image.kernelEnd_le
  have hout : image.size ≤ (f ++ 0#12 : Word).toNat := by
    rw [append_toNat]
    omega
  exact frameOf_append f 0#12 ▸ apart_of_outside (Or.inr hout)

theorem add_three_eq_or {p : Word} (hp : aligned 4096 p) : p + 3#32 = p ||| 3#32 := by
  unfold aligned at hp
  apply BitVec.add_eq_or_of_and_eq_zero
  apply BitVec.eq_of_toNat_eq
  rw [show 3#32 = BitVec.ofNat 32 (2 ^ 2 - 1) from rfl, and_ones_toNat _ (by omega), BitVec.toNat_ofNat]
  omega

theorem bootTables_eq (m : Memory) :
    bootTables image m = fun f i =>
      if f = image.directoryFrame then
        if i = selfDir then (image.bootPageDirectory - kernelMapStart) ||| 3#32
        else if i = 768#10 ∨ i = 0#10 then (image.bootPageTable1 - kernelMapStart) ||| 3#32
        else m f i
      else if f = image.table1Frame then
        if i = 1023#10 then 0xB8003#32
        else if i.toNat * 4096 < image.size then BitVec.ofNat 32 (i.toNat * 4096) ||| 3#32
        else m f i
      else m f i := by
  have hd := image.directory_toNat
  have ht := image.table1_toNat
  have hdf := directoryFrame_toNat image
  have htf := table1Frame_toNat image
  have hge := image.directory_ge
  have hle := image.directory_le
  have hend := image.kernelEnd_le
  have hda : aligned 4096 (image.bootPageDirectory - kernelMapStart) := by unfold aligned; omega
  have hta : aligned 4096 (image.bootPageTable1 - kernelMapStart) := by unfold aligned; omega
  have hedi : image.bootPageTable1 - kernelMapStart =
      BitVec.ofNat 32 (image.table1Frame.toNat * 4096 + 4 * 0) := by
    apply BitVec.eq_of_toNat_eq
    rw [BitVec.toNat_ofNat, Nat.mod_eq_of_lt (by omega)]
    omega
  have hend' : (image.kernelEnd - kernelMapStart).toNat ≤ 0x3FF000 := by
    rw [← KernelImage.size, size_eq]
    omega
  have hloop := mapKernel_eq hend' image.table1Frame m (Nat.zero_add 1023)
  rw [← hedi, ← KernelImage.size] at hloop
  have hvga (m : Memory) (w : Word) := physStore_entry m (k := 1023) (ht.trans htf.symm) (by decide) w
  have hhigh (m : Memory) (w : Word) := physStore_entry m (k := 768) (hd.trans hdf.symm) (by decide) w
  have hself (m : Memory) (w : Word) :
      physStore m (image.bootPageDirectory - kernelMapStart + 1023#32 * 4#32) w =
        poke m image.directoryFrame selfDir w :=
    physStore_entry m (hd.trans hdf.symm) (by decide) w
  have hlow (m : Memory) (w : Word) :
      physStore m (image.bootPageDirectory - kernelMapStart) w = poke m image.directoryFrame 0#10 w :=
    physStore_eq m (by simp only [BitVec.toNat_ofNat]; omega) w
  have hne := image.directoryFrame_ne_table1Frame
  unfold bootTables
  simp only [hvga, hlow, hhigh, hself, add_three_eq_or hda, add_three_eq_or hta]
  rw [show mapKernel _ 1023 _ 0#32 m = _ from hloop]
  have h768 : 768#10 ≠ selfDir := by decide
  have h0 : 0#10 ≠ selfDir := by decide
  funext f i
  by_cases hf : f = image.directoryFrame
  · subst hf
    by_cases h1 : i = selfDir
    · simp [poke, h1]
    · by_cases h2 : i = 768#10
      · simp [poke, h2, h768]
      · by_cases h3 : i = 0#10
        · simp [poke, h3, h0]
        · simp [poke, h1, h2, h3, hne]
  · by_cases hf' : f = image.table1Frame
    · subst hf'
      by_cases h1 : i = 1023#10
      · simp [poke, hf, h1]
      · simp [poke, hf, h1]
    · simp [poke, hf, hf']

/-- The machine `_start` hands to the kernel, `m` being the memory it found. -/
structure Started (m : Memory) (s : Machine) : Prop where
  cr3 : s.cr3 = image.directoryFrame
  globals : s.globals = initialGlobals
  directory : ∀ d, s.mem image.directoryFrame d = bootPde image d
  table1 : ∀ t, s.mem image.table1Frame t = bootPte image t
  rest : ∀ f i, f ≠ image.directoryFrame → f ≠ image.table1Frame → s.mem f i = m f i

/-- The kernel image is mapped where it is linked: the entries `_start` made
are in place, whatever was entered since. -/
structure KernelMapped (s : Machine) : Prop where
  cr3 : s.cr3 = image.directoryFrame
  directory : ∀ d, present (bootPde image d) = true → s.pde d = bootPde image d
  table1 : ∀ t, present (bootPte image t) = true → s.mem image.table1Frame t = bootPte image t

variable {image}

theorem Started.kernelMapped {m : Memory} {s : Machine} (h : Started image m s) :
    KernelMapped image s :=
  ⟨h.cr3, fun d _ => by rw [Machine.pde, h.cr3, h.directory], fun t _ => h.table1 t⟩

theorem bootPde_selfDir :
    bootPde image selfDir = (image.bootPageDirectory - kernelMapStart) ||| 3#32 := if_pos rfl

theorem bootPde_768 :
    bootPde image 768#10 = (image.bootPageTable1 - kernelMapStart) ||| 3#32 := by
  rw [bootPde, if_neg (by decide), if_pos rfl]

theorem present_bootPde_iff {d : Index} :
    present (bootPde image d) = true ↔ d = selfDir ∨ d = 768#10 := by
  unfold bootPde
  by_cases h1 : d = selfDir
  · simp [h1]
  · by_cases h2 : d = 768#10
    · simp [h2, show 768#10 ≠ selfDir by decide]
    · simp [h1, h2, present]

theorem dirOf_image {a : Word} (hge : 0xC0000000 ≤ a.toNat) (hlt : a.toNat < image.kernelEnd.toNat) :
    dirOf a = 768#10 := by
  have hend := image.kernelEnd_le
  apply BitVec.eq_of_toNat_eq
  rw [dirOf_toNat, BitVec.toNat_ofNat]
  omega

/-- Every page of the image has its boot entry. -/
theorem bootPte_image {a : Word} (hge : 0xC0000000 ≤ a.toNat) (hlt : a.toNat < image.kernelEnd.toNat) :
    bootPte image (tabOf a) = BitVec.ofNat 32 ((tabOf a).toNat * 4096) ||| 3#32 ∧
      frameOf (BitVec.ofNat 32 ((tabOf a).toNat * 4096)) = frameOf (a - kernelMapStart) := by
  have hend := image.kernelEnd_le
  have ht := tabOf_toNat a
  constructor
  · have hne : tabOf a ≠ 1023#10 := by
      rw [Ne, ← BitVec.toNat_inj, BitVec.toNat_ofNat]
      omega
    rw [bootPte, if_neg hne, if_pos (by rw [size_eq]; omega)]
  · apply BitVec.eq_of_toNat_eq
    rw [frameOf_toNat, frameOf_toNat, kernelMapStart, BitVec.toNat_sub]
    simp only [BitVec.toNat_ofNat]
    omega

/-- The boot table maps the image and the VGA text buffer, all in the first 4 MiB. -/
theorem frameOf_bootPte_lt (t : Index) : (frameOf (bootPte image t)).toNat < 0x400 := by
  have ht := t.isLt
  unfold bootPte
  split
  · decide
  · split
    · rw [frameOf_or_three, frameOf_toNat, BitVec.toNat_ofNat]
      omega
    · decide

namespace KernelMapped

variable {s : Machine}

theorem editable (h : KernelMapped image s) : s.Editable := by
  have hp := h.directory selfDir (by simp [bootPde_selfDir])
  rw [bootPde_selfDir] at hp
  exact ⟨⟨by simp [hp], by rw [hp, frameOf_or_three, h.cr3, KernelImage.directoryFrame]⟩, by simp [hp]⟩

theorem pde_768 (h : KernelMapped image s) :
    s.pde 768#10 = (image.bootPageTable1 - kernelMapStart) ||| 3#32 := by
  rw [h.directory _ (present_bootPde_iff.mpr (Or.inr rfl)), bootPde_768]

theorem frameOf_pde_768 (h : KernelMapped image s) : frameOf (s.pde 768#10) = image.table1Frame := by
  rw [h.pde_768, frameOf_or_three, KernelImage.table1Frame]

theorem walk_image (h : KernelMapped image s) {a : Word} (hge : 0xC0000000 ≤ a.toNat)
    (hlt : a.toNat < image.kernelEnd.toNat) :
    s.walk (dirOf a) (tabOf a) = some ⟨frameOf (a - kernelMapStart), true⟩ := by
  obtain ⟨hb, hf⟩ := bootPte_image hge hlt
  have hpte : s.pte 768#10 (tabOf a) = bootPte image (tabOf a) := by
    rw [Machine.pte, h.frameOf_pde_768]
    exact h.table1 _ (by simp [hb])
  rw [dirOf_image hge hlt, Machine.walk, hpte, h.pde_768, hb]
  simp [hf]

theorem physOf_image (h : KernelMapped image s) {a : Word} (hge : 0xC0000000 ≤ a.toNat)
    (hlt : a.toNat < image.kernelEnd.toNat) : s.physOf a = a - kernelMapStart := by
  rw [Machine.physOf, Machine.translate, h.walk_image hge hlt]
  apply BitVec.eq_of_toNat_eq
  simp only [Option.map_some, Option.getD_some, Mapping.phys]
  rw [append_toNat, frameOf_toNat, offsetOf_toNat, kernelMapStart, BitVec.toNat_sub]
  simp only [BitVec.toNat_ofNat]
  omega

theorem nextTable (h : KernelMapped image s) :
    s.nextTable image = image.tableAddr s.globals.kernelPTIndex.toNat := by
  have hle := image.kernelPTs_le
  have hge := image.kernelPTs_ge
  rw [Machine.nextTable, h.physOf_image (by omega) (by omega), KernelImage.tableAddr]
  congr 1

end KernelMapped

/-- The machine at label 4, just after the jump to the higher half. -/
def higherHalf (image : KernelImage) (s : Machine) : Machine :=
  { s with
    mem := bootTables image s.mem
    cr3 := image.directoryFrame
    globals := initialGlobals }

theorem higherHalf_kernelMapped {s : Machine} (htable1 : ∀ i, s.mem image.table1Frame i = 0#32) :
    KernelMapped image (higherHalf image s) := by
  have hne := image.directoryFrame_ne_table1Frame
  refine ⟨rfl, fun d hd => ?_, fun t ht => ?_⟩
  · simp only [Machine.pde, higherHalf, bootTables_eq, if_true]
    rcases present_bootPde_iff.mp hd with rfl | rfl
    · rw [if_pos rfl, bootPde_selfDir]
    · rw [if_neg (by decide), if_pos (Or.inl rfl), bootPde_768]
  · simp only [higherHalf, bootTables_eq, if_neg hne.symm, if_true, bootPte, htable1]

theorem start_of_zero {s : Machine} (hdirectory : ∀ i, s.mem image.directoryFrame i = 0#32)
    (htable1 : ∀ i, s.mem image.table1Frame i = 0#32) :
    ∃ t, start image s = .ok ((), t) ∧ Started image s.mem t := by
  have hge := image.directory_ge
  have hle := image.directory_le
  have ha := image.directory_aligned
  have hk := higherHalf_kernelMapped htable1
  have hne := image.directoryFrame_ne_table1Frame
  have hword : wordOf image.bootPageDirectory = 0#10 := by
    unfold aligned at ha
    apply BitVec.eq_of_toNat_eq
    rw [wordOf_toNat, BitVec.toNat_ofNat]
    omega
  have hrun : start image s =
      .ok ((), (higherHalf image s).put image.directoryFrame 0#10 0#32) := by
    have ha4 : aligned 4 image.bootPageDirectory := by unfold aligned at ha ⊢; omega
    have hw := hk.walk_image (a := image.bootPageDirectory) (by omega) (by omega)
    rw [start, ← higherHalf, Machine.run_store ha4 hw, hword, KernelImage.directoryFrame]
  refine ⟨_, hrun, rfl, rfl, fun d => ?_, fun t => ?_, fun f i hd ht => ?_⟩
  · simp only [Machine.put_mem, poke, higherHalf, bootTables_eq, if_true, true_and, bootPde]
    by_cases h0 : d = 0#10
    · simp [h0, show 0#10 ≠ selfDir by decide]
    · simp [h0, hdirectory]
  · simp only [Machine.put_mem, poke_of_frame_ne hne.symm, higherHalf, bootTables_eq, if_neg hne.symm,
      if_true, bootPte, htable1]
  · simp only [Machine.put_mem, poke_of_frame_ne hd, higherHalf, bootTables_eq, if_neg hd, if_neg ht]

theorem start_eq {s : Machine} (hl : Loaded image s.mem) :
    ∃ t, start image s = .ok ((), t) ∧ Started image s.mem t :=
  start_of_zero hl.directory hl.table1

end Image

end PekOS
