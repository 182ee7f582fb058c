import PekOS.Address

/-! What the linker decides: the addresses of the symbols the paging code
refers to. `boot_page_directory` and its two tables are placed by boot.S with
`.align 4096`; `kernel_PTs` is a C array of `uint32_t` words and gets no more
than their alignment. -/

namespace PekOS

/-- `KERNEL_MAP_START_LOCATION`, where physical address 0 is mapped. -/
def kernelMapStart : Word := 0xC0000000#32

structure KernelImage where
  kernelEnd : Word
  bootPageDirectory : Word
  kernelPTs : Word
  directory_aligned : aligned 4096 bootPageDirectory
  kernelPTs_aligned : aligned 4 kernelPTs
  directory_ge : 0xC0100000 ≤ bootPageDirectory.toNat
  kernelPTs_ge : 0xC0100000 ≤ kernelPTs.toNat
  directory_le : bootPageDirectory.toNat + 0x3000 ≤ kernelEnd.toNat
  kernelPTs_le : kernelPTs.toNat + 0x100000 ≤ kernelEnd.toNat
  kernelEnd_le : kernelEnd.toNat ≤ 0xC03FF000
  disjoint : kernelPTs.toNat + 0x100000 ≤ bootPageDirectory.toNat ∨
    bootPageDirectory.toNat + 0x3000 ≤ kernelPTs.toNat

namespace KernelImage

variable (image : KernelImage)

/-- The directory is followed by `boot_page_table0` and `boot_page_table1`. -/
def bootPageTable1 : Word := image.bootPageDirectory + 0x2000#32

def directoryFrame : Frame := frameOf (image.bootPageDirectory - kernelMapStart)

def table1Frame : Frame := frameOf (image.bootPageTable1 - kernelMapStart)

/-- The physical address of the `k`-th preallocated page table. -/
def tableAddr (k : Nat) : Word :=
  image.kernelPTs - kernelMapStart + BitVec.ofNat 32 (k * 4096)

def tableFrame (k : Nat) : Frame := frameOf (image.tableAddr k)

/-- The alignment the paging code relies on and nothing in the link provides. -/
def PageAligned : Prop := aligned 4096 image.kernelPTs

theorem tableAddr_toNat {k : Nat} (hk : k ≤ 256) :
    (image.tableAddr k).toNat = image.kernelPTs.toNat - 0xC0000000 + k * 4096 := by
  have hge := image.kernelPTs_ge
  have hlt := image.kernelPTs.isLt
  simp only [tableAddr, kernelMapStart, BitVec.toNat_add, BitVec.toNat_sub, BitVec.toNat_ofNat]
  omega

theorem kernelPTs_toNat :
    (image.kernelPTs - kernelMapStart).toNat = image.kernelPTs.toNat - 0xC0000000 := by
  have hge := image.kernelPTs_ge
  have hlt := image.kernelPTs.isLt
  simp only [kernelMapStart, BitVec.toNat_sub, BitVec.toNat_ofNat]
  omega

theorem directory_toNat :
    (image.bootPageDirectory - kernelMapStart).toNat = image.bootPageDirectory.toNat - 0xC0000000 := by
  have hge := image.directory_ge
  have hlt := image.bootPageDirectory.isLt
  simp only [kernelMapStart, BitVec.toNat_sub, BitVec.toNat_ofNat]
  omega

theorem table1_toNat :
    (image.bootPageTable1 - kernelMapStart).toNat = image.bootPageDirectory.toNat - 0xC0000000 +
    0x2000 := by
  have hge := image.directory_ge
  have hle := image.directory_le
  have hend := image.kernelEnd_le
  simp only [bootPageTable1, kernelMapStart, BitVec.toNat_sub, BitVec.toNat_add, BitVec.toNat_ofNat]
  omega

theorem directoryFrame_ne_table1Frame : image.directoryFrame ≠ image.table1Frame := by
  rw [directoryFrame, table1Frame, frameOf_ne_iff, directory_toNat, table1_toNat]
  omega

theorem tableFrame_ne_directoryFrame {k : Nat} (hk : k < 256) :
    image.tableFrame k ≠ image.directoryFrame := by
  have hd := image.disjoint
  have hge := image.kernelPTs_ge
  have hge' := image.directory_ge
  have ha := image.directory_aligned
  unfold aligned at ha
  rw [tableFrame, directoryFrame, frameOf_ne_iff, tableAddr_toNat _ (Nat.le_of_lt hk), directory_toNat]
  omega

theorem tableFrame_ne_table1Frame {k : Nat} (hk : k < 256) :
    image.tableFrame k ≠ image.table1Frame := by
  have hd := image.disjoint
  have hge := image.kernelPTs_ge
  have hge' := image.directory_ge
  have ha := image.directory_aligned
  unfold aligned at ha
  rw [tableFrame, table1Frame, frameOf_ne_iff, tableAddr_toNat _ (Nat.le_of_lt hk), table1_toNat]
  omega

theorem tableFrame_lt {k : Nat} (hk : k < 256) : (image.tableFrame k).toNat < 0x400 := by
  have hle := image.kernelPTs_le
  have hend := image.kernelEnd_le
  have ha := image.tableAddr_toNat (Nat.le_of_lt hk)
  rw [tableFrame, frameOf_toNat]
  omega

theorem tableFrame_injective {j k : Nat} (hj : j < 256) (hk : k < 256)
    (h : image.tableFrame j = image.tableFrame k) : j = k := by
  have h' := congrArg BitVec.toNat h
  rw [tableFrame, tableFrame, frameOf_toNat, frameOf_toNat, tableAddr_toNat _ (Nat.le_of_lt hj),
    tableAddr_toNat _ (Nat.le_of_lt hk)] at h'
  omega

end KernelImage

end PekOS
