import PekOS.Bytes

/-! The address space in which `_start` calls `kernel_main`. -/

namespace PekOS

open OpTree

/-- The initial stack. The linker script puts it behind the rest of `.bss`. -/
structure BootStack (image : KernelImage) where
  stackTop : Word
  stackTop_ge : image.bootPageTable1.toNat + 4096 + 16384 ≤ stackTop.toNat
  stackTop_le : stackTop.toNat ≤ image.kernelEnd.toNat

section Start

variable (image : KernelImage) (stack : BootStack image)

/-- The call of `_init`, which pushes the return address `eip`. `constructors` is what the
compiler's object files put between crti.S and crtn.S. -/
def callInit (eip ebp : Word) (constructors : Code Unit) : Code Unit := do
  Code.store (stack.stackTop - 12#32) eip
  Code.store (stack.stackTop - 16#32) ebp
  constructors
  let _ ← Code.load (stack.stackTop - 16#32)
  let _ ← Code.load (stack.stackTop - 12#32)
  return ()

/-- The rest of `_start`: the multiboot registers are pushed, the constructors called. -/
def startWith (eax ebx eip ebp : Word) (constructors : Code Unit) (s : Machine) :
    Except Stop (Unit × Machine) :=
  match start image s with
  | .ok (_, t) => t.run do
    Code.store (stack.stackTop - 4#32) eax
    Code.store (stack.stackTop - 8#32) ebx
    callInit image stack eip ebp constructors
  | .error e => .error e

/-- Code that returns, in the kernel's address space, without a change to the page tables. -/
def LeavesTables (p : Code Unit) : Prop :=
  ∀ u : Machine, KernelMapped image u → ∃ t, u.run p = .ok ((), t) ∧ u.SameTables t

/-- The kernel's pages, the VGA text buffer, the directory and the table, and nothing else. -/
structure InitialPaging (t : Machine) : Prop where
  kernel : ∀ a : Word, a.toNat / 4096 * 4096 < image.size → t.Maps (0xC0000000#32 + a) a
  vga : ∀ o < 4096, t.Maps (0xC03FF000#32 + BitVec.ofNat 32 o) (0xB8000#32 + BitVec.ofNat 32 o)
  directory : ∀ o < 4096, t.Maps (0xFFFFF000#32 + BitVec.ofNat 32 o)
    (image.bootPageDirectory - kernelMapStart + BitVec.ofNat 32 o)
  table1 : ∀ o < 4096, t.Maps (0xFFC00000#32 + (768#32 <<< 12) + BitVec.ofNat 32 o)
    (image.bootPageTable1 - kernelMapStart + BitVec.ofNat 32 o)
  nothingElse : ∀ v, t.translate v ≠ none →
    (∃ a : Word, a.toNat / 4096 * 4096 < image.size ∧ v = 0xC0000000#32 + a) ∨
      v.toNat / 4096 = 0xC03FF ∨ v.toNat / 4096 = 0xFFFFF ∨ v.toNat / 4096 = 0xFFF00

end Start

section Walk

variable {image : KernelImage} {m : Memory} {s : Machine}

theorem present_bootPte_iff {t : Index} :
    present (bootPte image t) = true ↔ t = 1023#10 ∨ t.toNat * 4096 < image.size := by
  unfold bootPte
  by_cases h1 : t = 1023#10
  · simp [h1, present]
  · by_cases h2 : t.toNat * 4096 < image.size
    · simp [h1, h2]
    · simp [h1, h2, present]

theorem frameOf_bootPte {t : Index} (h : t ≠ 1023#10) (ht : t.toNat * 4096 < image.size) :
    frameOf (bootPte image t) = BitVec.ofNat 20 t.toNat := by
  have hlt := t.isLt
  rw [bootPte, if_neg h, if_pos ht, frameOf_or_three]
  apply BitVec.eq_of_toNat_eq
  rw [frameOf_toNat, BitVec.toNat_ofNat, BitVec.toNat_ofNat]
  omega

theorem writable_bootPte {t : Index} (h : present (bootPte image t) = true) :
    writable (bootPte image t) = true := by
  by_cases h1 : t = 1023#10
  · rw [bootPte, if_pos h1]
    decide
  · have h2 : t.toNat * 4096 < image.size := (present_bootPte_iff.mp h).resolve_left h1
    rw [bootPte, if_neg h1, if_pos h2, writable_or_three]

/-- The table is in the directory twice over: at 768, and under itself at 1023. -/
theorem Started.walk_eq (h : Started image m s) (d t : Index) :
    s.walk d t =
      if d = 768#10 then
        if present (bootPte image t) then some ⟨frameOf (bootPte image t), true⟩ else none
      else if d = selfDir then
        if present (bootPde image t) then some ⟨frameOf (bootPde image t), true⟩ else none
      else none := by
  have hk := h.kernelMapped
  have hpde (d : Index) : s.pde d = bootPde image d := by rw [Machine.pde, h.cr3, h.directory]
  by_cases h768 : d = 768#10
  · subst h768
    have hpte : s.pte 768#10 t = bootPte image t := by rw [Machine.pte, hk.frameOf_pde_768, h.table1]
    rw [if_pos rfl, Machine.walk, hpte, hk.pde_768, present_or_three, writable_or_three,
      Bool.true_and, Bool.true_and]
    split
    · next hp => rw [writable_bootPte hp]
    · rfl
  · rw [if_neg h768]
    by_cases hself : d = selfDir
    · subst hself
      have hpte : s.pte selfDir t = bootPde image t := by
        rw [Machine.pte, hk.editable.frame, h.cr3, h.directory]
      rw [if_pos rfl, Machine.walk, hpte, hpde, bootPde_selfDir, present_or_three,
        writable_or_three, Bool.true_and, Bool.true_and]
      split
      · next hp =>
        rcases present_bootPde_iff.mp hp with rfl | rfl
        · rw [bootPde_selfDir, writable_or_three]
        · rw [bootPde_768, writable_or_three]
      · rfl
    · have hp : present (s.pde d) = false := by
        rw [hpde, Bool.eq_false_iff, Ne, present_bootPde_iff]
        rintro (h | h)
        · exact hself h
        · exact h768 h
      rw [if_neg hself, Machine.walk, hp, Bool.false_and]
      rfl

theorem dirOf_eq {v : Word} {d : Index} (h : v.toNat / 4194304 = d.toNat) : dirOf v = d :=
  BitVec.eq_of_toNat_eq ((dirOf_toNat v).trans h)

theorem offsetOf_eq {v p : Word} (h : v.toNat % 4096 = p.toNat % 4096) : offsetOf v = offsetOf p := by
  apply BitVec.eq_of_toNat_eq
  rw [offsetOf_toNat, offsetOf_toNat, h]

theorem Started.maps_kernel (h : Started image m s) {a : Word}
    (hlt : a.toNat / 4096 * 4096 < image.size) : s.Maps (0xC0000000#32 + a) a := by
  have hsize := size_eq image
  have hend := image.kernelEnd_le
  have hadd : (0xC0000000#32 + a).toNat = 0xC0000000 + a.toNat := by
    rw [BitVec.toNat_add, BitVec.toNat_ofNat]
    omega
  have hd : dirOf (0xC0000000#32 + a) = 768#10 := dirOf_eq (by rw [hadd, BitVec.toNat_ofNat]; omega)
  have ht : (tabOf (0xC0000000#32 + a)).toNat = a.toNat / 4096 := by
    rw [tabOf_toNat, hadd]
    omega
  have hne : tabOf (0xC0000000#32 + a) ≠ 1023#10 := by
    rw [Ne, ← BitVec.toNat_inj, ht, BitVec.toNat_ofNat]
    omega
  have hframe : frameOf a = BitVec.ofNat 20 (a.toNat / 4096) := by
    apply BitVec.eq_of_toNat_eq
    rw [frameOf_toNat, BitVec.toNat_ofNat]
    omega
  refine ⟨?_, offsetOf_eq (by rw [hadd]; omega)⟩
  have hin : (tabOf (0xC0000000#32 + a)).toNat * 4096 < image.size := ht ▸ hlt
  rw [h.walk_eq, if_pos hd, if_pos (present_bootPte_iff.mpr (Or.inr hin)), frameOf_bootPte hne hin,
    ht, hframe]

theorem Started.walk_vga (h : Started image m s) :
    s.walk (dirOf 0xC03FF000#32) (tabOf 0xC03FF000#32) = some ⟨frameOf 0xB8000#32, true⟩ := by
  rw [h.walk_eq, show dirOf 0xC03FF000#32 = 768#10 by decide,
    show tabOf 0xC03FF000#32 = 1023#10 by decide, if_pos rfl,
      if_pos (present_bootPte_iff.mpr (Or.inl rfl)), bootPte, if_pos rfl]
  decide

theorem Started.walk_directory (h : Started image m s) :
    s.walk (dirOf 0xFFFFF000#32) (tabOf 0xFFFFF000#32) =
    some ⟨frameOf (image.bootPageDirectory - kernelMapStart), true⟩ := by
  rw [h.walk_eq, show dirOf 0xFFFFF000#32 = selfDir by decide,
    show tabOf 0xFFFFF000#32 = selfDir by decide, if_neg (by decide), if_pos rfl,
      if_pos (present_bootPde_iff.mpr (Or.inl rfl)), bootPde_selfDir, frameOf_or_three]

theorem Started.walk_table1 (h : Started image m s) :
    s.walk (dirOf (0xFFC00000#32 + (768#32 <<< 12))) (tabOf (0xFFC00000#32 + (768#32 <<< 12))) =
      some ⟨frameOf (image.bootPageTable1 - kernelMapStart), true⟩ := by
  rw [h.walk_eq, show dirOf (0xFFC00000#32 + (768#32 <<< 12)) = selfDir by decide,
    show tabOf (0xFFC00000#32 + (768#32 <<< 12)) = 768#10 by decide, if_neg (by decide), if_pos rfl,
    if_pos (present_bootPde_iff.mpr (Or.inr rfl)), bootPde_768, frameOf_or_three]

theorem Started.present_cases (h : Started image m s) {d t : Index} (hwalk : s.walk d t ≠ none) :
    d = 768#10 ∧ (t = 1023#10 ∨ t.toNat * 4096 < image.size) ∨ d = selfDir ∧
    (t = selfDir ∨ t = 768#10) := by
  rw [h.walk_eq] at hwalk
  by_cases h768 : d = 768#10
  · rw [if_pos h768] at hwalk
    by_cases hp : present (bootPte image t) = true
    · exact Or.inl ⟨h768, present_bootPte_iff.mp hp⟩
    · exact absurd (if_neg hp) hwalk
  · rw [if_neg h768] at hwalk
    by_cases hself : d = selfDir
    · rw [if_pos hself] at hwalk
      by_cases hp : present (bootPde image t) = true
      · exact Or.inr ⟨hself, present_bootPde_iff.mp hp⟩
      · exact absurd (if_neg hp) hwalk
    · exact absurd (if_neg hself) hwalk

theorem Started.nothingElse (h : Started image m s) {v : Word} (hv : s.translate v ≠ none) :
    (∃ a : Word, a.toNat / 4096 * 4096 < image.size ∧ v = 0xC0000000#32 + a) ∨
      v.toNat / 4096 = 0xC03FF ∨ v.toNat / 4096 = 0xFFFFF ∨ v.toNat / 4096 = 0xFFF00 := by
  have hlt := v.isLt
  have hwalk : s.walk (dirOf v) (tabOf v) ≠ none := fun hn => hv (by rw [Machine.translate, hn]; rfl)
  have hd := dirOf_toNat v
  have ht := tabOf_toNat v
  rcases h.present_cases hwalk with ⟨h768, hlast | hkernel⟩ | ⟨hself, hlast | htable⟩
  · rw [h768, BitVec.toNat_ofNat] at hd
    rw [hlast, BitVec.toNat_ofNat] at ht
    exact Or.inr (Or.inl (by omega))
  · rw [h768, BitVec.toNat_ofNat] at hd
    have hsub : (v - 0xC0000000#32).toNat = v.toNat - 0xC0000000 := by
      rw [BitVec.toNat_sub, BitVec.toNat_ofNat]
      omega
    have hpage : (v.toNat - 0xC0000000) / 4096 * 4096 = (tabOf v).toNat * 4096 := by omega
    refine Or.inl ⟨v - 0xC0000000#32, ?_, ?_⟩
    · rw [hsub, hpage]
      exact hkernel
    · rw [BitVec.add_comm, BitVec.sub_add_cancel]
  · rw [hself, selfDir, BitVec.toNat_ofNat] at hd
    rw [hlast, selfDir, BitVec.toNat_ofNat] at ht
    exact Or.inr (Or.inr (Or.inl (by omega)))
  · rw [hself, selfDir, BitVec.toNat_ofNat] at hd
    rw [htable, BitVec.toNat_ofNat] at ht
    exact Or.inr (Or.inr (Or.inr (by omega)))

theorem Started.initialPaging (h : Started image m s) : InitialPaging image s := by
  have ha := image.directory_aligned
  have hdirectory := image.directory_toNat
  have htable1 := image.table1_toNat
  unfold aligned at ha
  have hmaps {v p : Word} (hw : s.walk (dirOf v) (tabOf v) = some ⟨frameOf p, true⟩)
      (ho : v.toNat % 4096 = p.toNat % 4096) {o : Nat} (hlt : p.toNat % 4096 + o < 4096) :
      s.Maps (v + BitVec.ofNat 32 o) (p + BitVec.ofNat 32 o) :=
    Machine.Maps.add ⟨hw, offsetOf_eq ho⟩ hlt
  refine ⟨fun a hlt => h.maps_kernel hlt, fun o ho => ?_, fun o ho => ?_, fun o ho => ?_,
    fun v hv => h.nothingElse hv⟩
  · exact hmaps h.walk_vga (by decide) (Nat.lt_of_le_of_lt (Nat.zero_add o).le ho)
  · exact hmaps h.walk_directory (Eq.trans (by decide : _ = 0) (by omega)) (by omega)
  · exact hmaps h.walk_table1 (Eq.trans (by decide : _ = 0) (by omega)) (by omega)

theorem InitialPaging.of_sameTables {t : Machine} (h : InitialPaging image s) (hs : s.SelfMapped)
    (hst : s.SameTables t) : InitialPaging image t := by
  refine ⟨fun a ha => (h.kernel a ha).of_sameTables hst hs, fun o ho => (h.vga o ho).of_sameTables hst hs,
    fun o ho => (h.directory o ho).of_sameTables hst hs, fun o ho => (h.table1 o ho).of_sameTables hst hs,
    fun v hv => h.nothingElse v ?_⟩
  rwa [Machine.translate, hst.walk hs] at hv

end Walk

section Run

variable {image : KernelImage} {m : Memory} {s u : Machine}

theorem KernelImage.bootPageTable1_toNat (image : KernelImage) :
    image.bootPageTable1.toNat = image.bootPageDirectory.toNat + 0x2000 := by
  have hdle := image.directory_le
  have hend := image.kernelEnd_le
  rw [KernelImage.bootPageTable1, BitVec.toNat_add, BitVec.toNat_ofNat]
  omega

theorem Started.selfMapped (h : Started image m s) : s.SelfMapped := h.kernelMapped.editable.toSelfMapped

theorem Started.maps_image (h : Started image m s) {a : Word} (hge : 0xC0000000 ≤ a.toNat)
    (hlt : a.toNat < image.kernelEnd.toNat) : s.Maps a (a - kernelMapStart) := by
  refine ⟨h.kernelMapped.walk_image hge hlt, offsetOf_eq ?_⟩
  rw [kernelMapStart, BitVec.toNat_sub, BitVec.toNat_ofNat]
  omega

/-- The frames behind `boot_page_table1` belong to no table. -/
theorem Started.unused (h : Started image m s) {a : Word}
    (hge : image.bootPageTable1.toNat + 4096 ≤ a.toNat) :
    s.Unused (frameOf (a - kernelMapStart)) := by
  have hdge := image.directory_ge
  have hdle := image.directory_le
  have hend := image.kernelEnd_le
  have hda := image.directory_aligned
  have hbase := image.bootPageTable1_toNat
  have hsub : (a - kernelMapStart).toNat = a.toNat - 0xC0000000 := by
    rw [kernelMapStart, BitVec.toNat_sub, BitVec.toNat_ofNat]
    omega
  have hd := image.directory_toNat
  have ht := image.table1_toNat
  unfold aligned at hda
  intro d hp
  have hpde : s.pde d = bootPde image d := by rw [Machine.pde, h.cr3, h.directory]
  rw [hpde] at hp ⊢
  rcases present_bootPde_iff.mp hp with rfl | rfl
  · rw [bootPde_selfDir, frameOf_or_three, frameOf_ne_iff, hsub]
    omega
  · rw [bootPde_768, frameOf_or_three, frameOf_ne_iff, hsub]
    omega

theorem Started.writes (h : Started image m s) {a : Word}
    (hge : image.bootPageTable1.toNat + 4096 ≤ a.toNat)
    (hle : a.toNat + 4 ≤ image.kernelEnd.toNat) : s.Writes a (a - kernelMapStart) := by
  have hend := image.kernelEnd_le
  have hdge := image.directory_ge
  have hdle := image.directory_le
  have hbase := image.bootPageTable1_toNat
  have hadd {k : Nat} (hk : k < 4) : (a + BitVec.ofNat 32 k).toNat = a.toNat + k := by
    rw [BitVec.toNat_add, BitVec.toNat_ofNat]
    omega
  have hphys (k : Nat) :
      a - kernelMapStart + BitVec.ofNat 32 k = a + BitVec.ofNat 32 k - kernelMapStart := by
    rw [BitVec.sub_eq_add_neg, BitVec.sub_eq_add_neg, BitVec.add_assoc, BitVec.add_assoc,
      BitVec.add_comm (-kernelMapStart)]
  refine ⟨fun k hk => ?_, fun k hk => ?_⟩
  · rw [hphys]
    exact h.maps_image (by rw [hadd hk]; omega) (by rw [hadd hk]; omega)
  · rw [hphys]
    exact h.unused (by rw [hadd hk]; omega)

theorem Started.run_push (h : Started image m s) (hu : s.SameTables u) {a : Word}
    (hge : image.bootPageTable1.toNat + 4096 ≤ a.toNat) (hle : a.toNat + 4 ≤ image.kernelEnd.toNat)
    (v : Word) : ∃ t, u.run (Code.store a v) = .ok ((), t) ∧ s.SameTables t := by
  have hw := h.writes hge hle
  have hwrites : u.Writes a (a - kernelMapStart) :=
    ⟨fun k hk => (hw.maps k hk).of_sameTables hu h.selfMapped,
      fun k hk => (hu.unused h.selfMapped _).mpr (hw.unused k hk)⟩
  obtain ⟨t, hr, -, ht, -⟩ := Machine.run_store_word hwrites (hu.selfMapped h.selfMapped) v
  exact ⟨t, hr, hu.trans h.selfMapped ht⟩

theorem Started.run_pop (h : Started image m s) (hu : s.SameTables u) {a : Word}
    (hge : image.bootPageTable1.toNat + 4096 ≤ a.toNat) (hle : a.toNat + 4 ≤ image.kernelEnd.toNat) :
    ∃ v, u.run (Code.load a) = .ok (v, u) := by
  have hmaps {k : Nat} (hk : k < 4) := ((h.writes hge hle).maps k hk).of_sameTables hu h.selfMapped
  have hzero := hmaps (k := 0) (by decide)
  rw [BitVec.add_zero, BitVec.add_zero] at hzero
  exact ⟨_, Machine.run_load_word ⟨hzero.translate, fun k hk => (hmaps hk).translate⟩⟩

theorem Started.kernelMapped_of_sameTables (h : Started image m s) (hu : s.SameTables u) :
    KernelMapped image u := by
  have hk := h.kernelMapped
  refine ⟨hu.cr3.trans hk.cr3, fun d hd => (hu.pde h.selfMapped d).trans (hk.directory d hd),
    fun t ht => ?_⟩
  have hused : ¬ s.Unused image.table1Frame := fun hn =>
    hn 768#10 (by rw [hk.pde_768, present_or_three]) hk.frameOf_pde_768
  rw [hu.mem _ hused, hk.table1 t ht]

end Run

/-- `_start` calls `kernel_main` with the address space it is meant to have. -/
theorem start_initialPaging (image : KernelImage) (stack : BootStack image) (eax ebx eip ebp : Word)
    {constructors : Code Unit} (hconstructors : LeavesTables image constructors) {s : Machine}
    (hdirectory : ∀ i, s.mem image.directoryFrame i = 0#32)
    (htable1 : ∀ i, s.mem image.table1Frame i = 0#32) :
    ∃ t, startWith image stack eax ebx eip ebp constructors s = .ok ((), t) ∧ InitialPaging image t := by
  obtain ⟨t₀, hstart, h⟩ := start_of_zero hdirectory htable1
  have htop := stack.stackTop_ge
  have hend := stack.stackTop_le
  have hsub {k : Nat} (hk : k ≤ 16) :
      (stack.stackTop - BitVec.ofNat 32 k).toNat = stack.stackTop.toNat - k := by
    rw [BitVec.toNat_sub, BitVec.toNat_ofNat]
    omega
  have hge {k : Nat} (hk : k ≤ 16) :
      image.bootPageTable1.toNat + 4096 ≤ (stack.stackTop - BitVec.ofNat 32 k).toNat := by
    rw [hsub hk]
    omega
  have hle {k : Nat} (hk : k ≤ 16) (hk' : 4 ≤ k) :
      (stack.stackTop - BitVec.ofNat 32 k).toNat + 4 ≤ image.kernelEnd.toNat := by
    rw [hsub hk]
    omega
  have hpush {k : Nat} (hk : k ≤ 16) (hk' : 4 ≤ k) {u : Machine} (hu : t₀.SameTables u) (v : Word) :=
    h.run_push hu (hge hk) (hle hk hk') v
  obtain ⟨t₁, hr₁, h₁⟩ := hpush (k := 4) (by decide) (by decide) ⟨rfl, fun _ _ _ => rfl⟩ eax
  obtain ⟨t₂, hr₂, h₂⟩ := hpush (k := 8) (by decide) (by decide) h₁ ebx
  obtain ⟨t₃, hr₃, h₃⟩ := hpush (k := 12) (by decide) (by decide) h₂ eip
  obtain ⟨t₄, hr₄, h₄⟩ := hpush (k := 16) (by decide) (by decide) h₃ ebp
  obtain ⟨t, hr, ht⟩ := hconstructors t₄ (h.kernelMapped_of_sameTables h₄)
  have hlast := h₄.trans h.selfMapped ht
  obtain ⟨v, hv⟩ := h.run_pop hlast (hge (k := 16) (by decide)) (hle (by decide) (by decide))
  obtain ⟨w, hw⟩ := h.run_pop hlast (hge (k := 12) (by decide)) (hle (by decide) (by decide))
  refine ⟨t, ?_, h.initialPaging.of_sameTables h.selfMapped hlast⟩
  rw [startWith, hstart, callInit]
  refine (Prog.run_bind_ok _ hr₁).trans
    ((Prog.run_bind_ok _ hr₂).trans ((Prog.run_bind_ok _ hr₃).trans ?_))
  refine (Prog.run_bind_ok _ hr₄).trans ((Prog.run_bind_ok _ hr).trans ((Prog.run_bind_ok _ hv).trans ?_))
  exact Prog.run_bind_ok _ hw

def alignedStack : BootStack alignedImage where
  stackTop := 0xC0300000#32
  stackTop_ge := by decide
  stackTop_le := by decide

theorem start_initialPaging_zero : ∃ t,
    startWith alignedImage alignedStack 0x2BADB002#32 0x9500#32 0xC0101000#32 0#32
    (return ()) zeroMachine = .ok ((), t) ∧
      InitialPaging alignedImage t :=
  start_initialPaging alignedImage alignedStack 0x2BADB002#32 0x9500#32 0xC0101000#32 0#32
    (fun u _ => ⟨u, rfl, rfl, fun _ _ _ => rfl⟩) (fun _ => rfl) fun _ => rfl

end PekOS
