import PekOS.Boot
import PekOS.Bitmap

/-! The state in which `kernel_main` leaves paging: `_start`, then
`init_page_allocation`. -/

namespace PekOS

open OpTree FirstFit

/-- A machine at the end of `init_page_allocation`. -/
def Booted (image : KernelImage) (s : Machine) : Prop :=
  ∃ s₀ s₁, Loaded image s₀.mem ∧ start image s₀ = .ok ((), s₁) ∧
    s₁.run initPageAllocation = .ok ((), s)

/-- Such a machine, field by field, `m` being the memory `_start` found. -/
structure Initialised (image : KernelImage) (m : Memory) (s : Machine) : Prop where
  cr3 : s.cr3 = image.directoryFrame
  directory : ∀ d, s.mem image.directoryFrame d = bootPde image d
  table1 : ∀ t, s.mem image.table1Frame t = bootPte image t
  rest : ∀ f i, f ≠ image.directoryFrame → f ≠ image.table1Frame → s.mem f i = m f i
  curVirtaddrIdx : s.globals.curVirtaddrIdx = 768 * 32
  curPhysaddr : s.globals.curPhysaddr = 0x10000000#32
  kernelPTIndex : s.globals.kernelPTIndex = 0#32
  bitmap : ∀ page < 1024 * 1024, marked s.globals.virtualMmap page = s.mapped page

variable {image : KernelImage} {m : Memory} {s : Machine}

theorem Started.run_initPageAllocation (h : Started image m s) :
    ∃ t, s.run initPageAllocation = .ok ((), t) ∧ Initialised image m t := by
  obtain ⟨bm, hr, hbm⟩ := h.kernelMapped.editable.run_mapVirtualMemory
  refine ⟨_, hr, h.cr3, h.directory, h.table1, h.rest, ?_, ?_, ?_, hbm⟩
  · rw [Machine.withMmap_globals, h.globals]; rfl
  · rw [Machine.withMmap_globals, h.globals]; rfl
  · rw [Machine.withMmap_globals, h.globals]; rfl

theorem exists_booted {s₀ : Machine} (hl : Loaded image s₀.mem) :
    ∃ s, Booted image s ∧ Initialised image s₀.mem s := by
  obtain ⟨s₁, hr, hs⟩ := start_eq hl
  obtain ⟨s, hr', hi⟩ := hs.run_initPageAllocation
  exact ⟨s, ⟨s₀, s₁, hl, hr, hr'⟩, hi⟩

theorem Booted.initialised (h : Booted image s) : ∃ m, Loaded image m ∧ Initialised image m s := by
  obtain ⟨s₀, s₁, hl, hr, hr'⟩ := h
  obtain ⟨t, ht, hs⟩ := start_eq hl
  obtain rfl : t = s₁ := by simpa [ht] using hr
  obtain ⟨u, hu, hi⟩ := hs.run_initPageAllocation
  obtain rfl : u = s := by simpa [hu] using hr'
  exact ⟨s₀.mem, hl, hi⟩

namespace Initialised

theorem pde (h : Initialised image m s) (d : Index) : s.pde d = bootPde image d := by
  rw [Machine.pde, h.cr3, h.directory]

theorem kernelMapped (h : Initialised image m s) : KernelMapped image s :=
  ⟨h.cr3, fun d _ => h.pde d, fun t _ => h.table1 t⟩

theorem present_pde_iff (h : Initialised image m s) {d : Index} :
    present (s.pde d) = true ↔ d = selfDir ∨ d = 768#10 := by
  rw [h.pde, present_bootPde_iff]

theorem tables (h : Initialised image m s) (hl : Loaded image m) (ha : image.PageAligned) {k : Nat}
    (hk : k < 256) (i : Index) : s.mem (image.tableFrame k) i = 0#32 := by
  have hge := image.kernelPTs_ge
  have hle := image.kernelPTs_le
  have hend := image.kernelEnd_le
  have hi := i.isLt
  have ht := image.tableAddr_toNat (Nat.le_of_lt hk)
  unfold KernelImage.PageAligned aligned at ha
  rw [h.rest _ _ (image.tableFrame_ne_directoryFrame hk) (image.tableFrame_ne_table1Frame hk)]
  let a : Word := BitVec.ofNat 32 (image.kernelPTs.toNat + k * 4096 + 4 * i.toNat)
  have hna : a.toNat = image.kernelPTs.toNat + k * 4096 + 4 * i.toNat := by
    rw [BitVec.toNat_ofNat, Nat.mod_eq_of_lt (by omega)]
  have hsub : (a - kernelMapStart).toNat = (image.tableAddr k).toNat + 4 * i.toNat := by
    simp only [kernelMapStart, BitVec.toNat_sub, BitVec.toNat_ofNat]
    omega
  have hf : frameOf (a - kernelMapStart) = image.tableFrame k := by
    apply BitVec.eq_of_toNat_eq
    rw [KernelImage.tableFrame, frameOf_toNat, frameOf_toNat]
    omega
  have hw : wordOf (a - kernelMapStart) = i := by
    apply BitVec.eq_of_toNat_eq
    rw [wordOf_toNat]
    omega
  have hz := hl.tables a (by omega) (by omega)
  rwa [hf, hw] at hz

end Initialised

/-! Two links of the kernel: one in which `kernel_PTs` happens to start at a
page, one in which it does not. -/

def alignedImage : KernelImage where
  kernelEnd := 0xC0300000#32
  bootPageDirectory := 0xC0110000#32
  kernelPTs := 0xC0120000#32
  directory_aligned := by decide
  kernelPTs_aligned := by decide
  directory_ge := by decide
  kernelPTs_ge := by decide
  directory_le := by decide
  kernelPTs_le := by decide
  kernelEnd_le := by decide
  disjoint := by decide

theorem alignedImage_pageAligned : alignedImage.PageAligned := by
  unfold KernelImage.PageAligned
  decide

def unalignedImage : KernelImage where
  kernelEnd := 0xC0300000#32
  bootPageDirectory := 0xC0110000#32
  kernelPTs := 0xC0120020#32
  directory_aligned := by decide
  kernelPTs_aligned := by decide
  directory_ge := by decide
  kernelPTs_ge := by decide
  directory_le := by decide
  kernelPTs_le := by decide
  kernelEnd_le := by decide
  disjoint := by decide

/-- A machine whose memory is zero, as the boot loader leaves it. -/
def zeroMachine : Machine where
  mem := fun _ _ => 0#32
  cr3 := 0#20
  globals := initialGlobals
  cpuidEdx := 0#32
  apicBase := 0#64
  answers := fun _ => 0#8
  asked := 0

theorem loaded_zeroMachine (image : KernelImage) : Loaded image zeroMachine.mem :=
  ⟨fun _ => rfl, fun _ => rfl, fun _ _ _ => rfl⟩

end PekOS
