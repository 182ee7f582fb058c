import PekOS.InitRsdt

/-! `init_apic` maps the page IA32_APIC_BASE names, then writes the register
back through `enable_apic`. -/

namespace PekOS

open OpTree

variable {image : KernelImage} {s t : Machine} {v : Word}

/-- `init_apic` up to `enable_apic`, when it has the MSR. -/
def mapLocalApic (image : KernelImage) : Code Word := do
  let physAddr ← cpuGetApicBase
  Code.modify fun g => { g with localApic1PhysAddr := physAddr }
  let virtAddr ← Code.globals findFreeVirtaddr
  Code.modify fun g => { g with localApic1VirtAddr := virtAddr }
  mapPage image physAddr virtAddr 3#32
  enableApic
  return virtAddr

theorem programLocalApic_eq (madt : Word) :
    ∃ rest, programLocalApic image true madt = mapLocalApic image >>= rest := by
  refine ⟨fun virtAddr => do
    let spurious ← readRegister 0xF0#32
    writeRegister 0xF0#32 (spurious ||| 0x100#32)
    let _ ← Code.loadByte (virtAddr + 3#32)
    writeRegister 0x80#32 3#32
    apicStartTimer, ?_⟩
  simp only [programLocalApic, mapLocalApic, Prog.bind_assoc, Prog.pure_eq, Prog.ret_bind, if_true]

/-! The two masks. -/

/-- What `enable_apic` writes where it has read `msr`. -/
def enabledBase (msr : BitVec 64) : BitVec 64 :=
  ((((msr.setWidth 32 &&& 0xFFFFF000#32).setWidth 64 &&& 0xFFFFF0000#64) |||
    0x800#64).setWidth 32).setWidth 64

theorem getLsbD_enabledBase (msr : BitVec 64) (k : Nat) :
    (enabledBase msr).getLsbD k =
      (decide (k = 11) || (decide (16 ≤ k) && decide (k < 32) && msr.getLsbD k)) := by
  have hmask : ∀ k < 32, (0xFFFFF000#32).getLsbD k = decide (12 ≤ k) := by decide
  have hmask' : ∀ k < 32, (0xFFFFF0000#64).getLsbD k = decide (16 ≤ k) := by decide
  have henable : ∀ k < 32, (0x800#64).getLsbD k = decide (k = 11) := by decide
  by_cases hk : k < 32
  · simp only [enabledBase, BitVec.getLsbD_setWidth, BitVec.getLsbD_or, BitVec.getLsbD_and,
      hmask k hk, hmask' k hk, henable k hk, hk, show k < 64 by omega, decide_true, Bool.true_and]
    by_cases h16 : 16 ≤ k
    · simp [h16, show 12 ≤ k by omega, Bool.or_comm]
    · simp [h16]
  · rw [enabledBase, BitVec.getLsbD_setWidth, BitVec.getLsbD_setWidth]
    simp only [hk, show k ≠ 11 by omega, decide_false, Bool.false_and, Bool.and_false, Bool.or_false]

/-- The page at which the local APIC decodes: bits 12 to 35 of the register. -/
def Machine.apicPage (s : Machine) : BitVec 24 := s.apicBase.extractLsb' 12 24

/-- The base is kept exactly if its bits 12 to 15 are clear. -/
theorem enabledBase_page_iff {msr : BitVec 64} (h : msr.extractLsb' 32 4 = 0#4) :
    (enabledBase msr).extractLsb' 12 24 = msr.extractLsb' 12 24 ↔ msr.extractLsb' 12 4 = 0#4 := by
  have hhigh (k : Nat) (hk : k < 4) : msr.getLsbD (32 + k) = false := by
    have hbit := congrArg (·.getLsbD k) h
    simpa [hk] using hbit
  constructor
  · intro he
    apply BitVec.eq_of_getLsbD_eq
    intro k hk
    have hbit := congrArg (·.getLsbD k) he
    simp only [BitVec.getLsbD_extractLsb', getLsbD_enabledBase] at hbit ⊢
    simpa [hk, show k < 24 by omega, show ¬ 12 + k = 11 by omega,
      show ¬ 16 ≤ 12 + k by omega] using hbit.symm
  · intro he
    apply BitVec.eq_of_getLsbD_eq
    intro k hk
    simp only [BitVec.getLsbD_extractLsb', getLsbD_enabledBase, hk, decide_true, Bool.true_and]
    rw [decide_eq_false (show ¬ 12 + k = 11 by omega), Bool.false_or]
    by_cases h4 : k < 4
    · have hbit := congrArg (·.getLsbD k) he
      rw [decide_eq_false (show ¬ 16 ≤ 12 + k by omega), Bool.false_and, Bool.false_and]
      simpa [h4] using hbit.symm
    · by_cases h20 : k < 20
      · simp [show 16 ≤ 12 + k by omega, show 12 + k < 32 by omega]
      · have hbit := hhigh (k - 20) (by omega)
        rw [show 32 + (k - 20) = 12 + k by omega] at hbit
        simp [hbit]

theorem frameOf_base (msr : BitVec 64) (h : msr.extractLsb' 32 4 = 0#4) :
    (frameOf (msr.setWidth 32 &&& 0xFFFFF000#32)).setWidth 24 = msr.extractLsb' 12 24 := by
  have hmask : ∀ k < 32, (0xFFFFF000#32).getLsbD k = decide (12 ≤ k) := by decide
  apply BitVec.eq_of_getLsbD_eq
  intro k hk
  simp only [frameOf, BitVec.getLsbD_setWidth, BitVec.getLsbD_extractLsb', BitVec.getLsbD_and, hk,
    decide_true, Bool.true_and]
  by_cases h20 : k < 20
  · simp [h20, hmask (12 + k) (by omega), show 12 + k < 32 by omega]
  · have hbit := congrArg (·.getLsbD (k - 20)) h
    simp only [BitVec.getLsbD_extractLsb', show 32 + (k - 20) = 12 + k by omega] at hbit
    simpa [h20, show k - 20 < 4 by omega] using hbit.symm

theorem run_enableApic (s : Machine) :
    s.run enableApic = .ok ((), { s with apicBase := enabledBase s.apicBase }) := rfl

theorem apicBase_of_mapPage {p v flags : Word} (hr : s.run (mapPage image p v flags) = .ok ((), t)) :
    t.apicBase = s.apicBase := by
  refine (mapPage_all image p v flags).run_inv (I := fun u => u.apicBase = s.apicBase)
    (fun o u x ho hx hu => ?_) hr rfl
  rw [Machine.exec_apicBase (fun w he => ?_) hx, hu]
  rw [he] at ho
  exact ho

def Machine.noteApic (s : Machine) : Machine :=
  s.withGlobals { (findFreeVirtaddr
    { s.globals with localApic1PhysAddr := s.apicBase.setWidth 32 &&& 0xFFFFF000#32 }).2 with
    localApic1VirtAddr := s.nextPage }

theorem findFreeVirtaddr_congr (g : Globals) (p : Word) :
    (findFreeVirtaddr { g with localApic1PhysAddr := p }).1 = (findFreeVirtaddr g).1 := by
  simp only [findFreeVirtaddr]
  split <;> rfl

theorem run_mapLocalApic (s : Machine) : s.run (mapLocalApic image) =
    s.noteApic.run (mapPage image (s.apicBase.setWidth 32 &&& 0xFFFFF000#32) s.nextPage 3#32 >>= fun _ =>
      enableApic >>= fun _ => pure s.nextPage) := by
  have hbase : s.run cpuGetApicBase = .ok (s.apicBase.setWidth 32 &&& 0xFFFFF000#32, s) := rfl
  rw [mapLocalApic, Machine.run, Prog.run_bind_ok _ hbase, Prog.run_bind_ok _ (Machine.run_modify _),
    Prog.run_bind_ok _ (Machine.run_globals _), Prog.run_bind_ok _ (Machine.run_modify _),
    findFreeVirtaddr_congr]
  rfl

theorem noteApic_samePaging (s : Machine) : s.noteApic.mem = s.mem ∧ s.noteApic.cr3 = s.cr3 ∧
    s.noteApic.globals.kernelPTIndex = s.globals.kernelPTIndex ∧ s.noteApic.apicBase = s.apicBase := by
  refine ⟨rfl, rfl, ?_, rfl⟩
  rw [Machine.noteApic, Machine.withGlobals_globals, findFreeVirtaddr]
  split <;> rfl

theorem of_run_mapLocalApic (hr : s.run (mapLocalApic image) = .ok (v, t)) :
    t.apicBase = enabledBase s.apicBase := by
  rw [run_mapLocalApic] at hr
  obtain ⟨⟨⟩, u, hu, hr⟩ := Prog.of_run_bind Machine.exec hr
  rw [Prog.run_bind_ok Machine.exec (run_enableApic u), Prog.pure_eq, Prog.run_ret] at hr
  cases hr
  rw [apicBase_of_mapPage hu]
  rfl

/-- The page `find_free_virtaddr` has next can be entered into the tables. -/
structure PageReady (image : KernelImage) (s : Machine) : Prop where
  tables : Tables image s
  below : dirOf s.nextPage ≠ selfDir
  unmapped : s.walk (dirOf s.nextPage) (tabOf s.nextPage) = none
  left : present (s.pde (dirOf s.nextPage)) = false → TableLeft s

theorem aligned_base (msr : BitVec 64) : aligned 4096 (msr.setWidth 32 &&& 0xFFFFF000#32) := by
  have h : (0xFFFFF000#32 : Word) = ~~~0xFFF#32 := by decide
  rw [aligned, h, and_mask_toNat]
  omega

theorem PageReady.run_mapLocalApic (h : PageReady image s) :
    ∃ t, s.run (mapLocalApic image) = .ok (s.nextPage, t) ∧
    t.globals.localApic1VirtAddr = s.nextPage ∧ t.walk (dirOf s.nextPage) (tabOf s.nextPage) =
      some ⟨frameOf (s.apicBase.setWidth 32 &&& 0xFFFFF000#32), true⟩ := by
  obtain ⟨hmem, hcr3, hindex, -⟩ := noteApic_samePaging s
  have hpde (d : Index) : s.noteApic.pde d = s.pde d := by rw [Machine.pde, Machine.pde, hmem, hcr3]
  have ht : Tables image s.noteApic := h.tables.of_mem hcr3 hmem hindex
  have hk : present (s.noteApic.pde (dirOf s.nextPage)) = false → TableLeft s.noteApic := fun hd => by
    rw [hpde] at hd
    rw [TableLeft, hindex]
    exact h.left hd
  have hwalk := ht.walk_afterMap_self (aligned_base s.apicBase) h.below hk
  have hsame : s.noteApic.walk = s.walk := rfl
  rw [hsame, h.unmapped, Option.getD_none] at hwalk
  have hrun := ht.run_mapPage (s.apicBase.setWidth 32 &&& 0xFFFFF000#32) s.nextPage 3#32 hk
  have hglobals := @afterMap_globals image s.noteApic (s.apicBase.setWidth 32 &&& 0xFFFFF000#32)
    s.nextPage 3#32
  generalize s.noteApic.afterMap image (s.apicBase.setWidth 32 &&& 0xFFFFF000#32) s.nextPage 3#32 =
    u at hwalk hrun hglobals
  refine ⟨{ u with apicBase := enabledBase u.apicBase }, ?_, ?_, hwalk⟩
  · rw [PekOS.run_mapLocalApic, Machine.run, Prog.run_bind_ok _ hrun,
      Prog.run_bind_ok _ (run_enableApic _)]
    rfl
  · show u.globals.localApic1VirtAddr = _
    rw [hglobals]
    split <;> rfl

theorem Paged.pageReady (h : Paged image s) {page : Nat} {rest : List Nat}
    (hf : s.globals.freePages = page :: rest) (hlt : page < 0xFFC00) : PageReady image s := by
  obtain ⟨-, hnone⟩ := h.walk_head hf hlt
  have hpage := (nextPage_of_cons hf).1
  refine ⟨h.tables, ?_, hpage ▸ hnone, fun _ => h.tableLeft⟩
  rw [hpage, dirOf_ne_selfDir_iff, pageAddr_toNat (by omega)]
  omega

theorem Booted.pageReady (h : Booted image s) : PageReady image s := by
  obtain ⟨page, rest, hf, hle⟩ := h.freePages_cons
  exact h.paged.pageReady hf (by omega)

/-- After `init_apic` has enabled the local APIC, its page is where it was, and
so is the one that was mapped, exactly if bits 12 to 15 of the base are clear. -/
theorem apicBase_kept_iff (image : KernelImage) (s : Machine) (h32 : s.apicBase.extractLsb' 32 4 = 0#4) :
    (∀ v t, s.run (mapLocalApic image) = .ok (v, t) → t.apicBase.getLsbD 11 = true ∧
      (t.apicPage = s.apicPage ↔ s.apicBase.extractLsb' 12 4 = 0#4)) ∧
    (PageReady image s → ∃ t m, s.run (mapLocalApic image) = .ok (s.nextPage, t) ∧
      t.globals.localApic1VirtAddr = s.nextPage ∧
      t.walk (dirOf t.globals.localApic1VirtAddr) (tabOf t.globals.localApic1VirtAddr) = some m ∧
      m.frame.setWidth 24 = s.apicPage ∧
      (m.frame.setWidth 24 = t.apicPage ↔ s.apicBase.extractLsb' 12 4 = 0#4)) := by
  have hpage : ∀ v t, s.run (mapLocalApic image) = .ok (v, t) →
      (t.apicPage = s.apicPage ↔ s.apicBase.extractLsb' 12 4 = 0#4) := fun v t hr => by
    rw [Machine.apicPage, Machine.apicPage, of_run_mapLocalApic hr, enabledBase_page_iff h32]
  constructor
  · intro v t hr
    refine ⟨?_, hpage v t hr⟩
    rw [of_run_mapLocalApic hr, getLsbD_enabledBase]
    rfl
  · intro h
    obtain ⟨t, hr, hv, hw⟩ := h.run_mapLocalApic
    have hframe : (frameOf (s.apicBase.setWidth 32 &&& 0xFFFFF000#32)).setWidth 24 = s.apicPage :=
      frameOf_base s.apicBase h32
    refine ⟨t, _, hr, hv, hv ▸ hw, hframe, ?_⟩
    rw [hframe, eq_comm, hpage _ _ hr]

/-- The register is as the firmware left it when `init_apic` runs. -/
theorem exists_booted_apicBase (image : KernelImage) (msr : BitVec 64) :
    ∃ s, Booted image s ∧ s.apicBase = msr := by
  let s₀ : Machine := { zeroMachine with apicBase := msr }
  have hl : Loaded image s₀.mem := loaded_zeroMachine image
  obtain ⟨s₁, hr, hs⟩ := start_eq hl
  obtain ⟨m, hr', -⟩ := hs.kernelMapped.editable.run_mapVirtualMemory
  have hmsr : s₁.apicBase = msr := by
    rw [start, Code.store, Machine.run, Prog.run_perform] at hr
    exact Machine.exec_apicBase (fun w h => Op.noConfusion h) hr
  exact ⟨s₁.withMmap m, ⟨s₀, s₁, hl, hr, hr'⟩, hmsr⟩

/-- At the usual base the mapped page is the local APIC's. -/
theorem apicBase_kept_iff_usual : ∃ s t m, Booted alignedImage s ∧ s.apicBase = 0xFEE00900#64 ∧
    s.run (mapLocalApic alignedImage) = .ok (s.nextPage, t) ∧
    t.walk (dirOf t.globals.localApic1VirtAddr) (tabOf t.globals.localApic1VirtAddr) = some m ∧
    m.frame.setWidth 24 = t.apicPage := by
  obtain ⟨s, hb, hmsr⟩ := exists_booted_apicBase alignedImage 0xFEE00900#64
  obtain ⟨-, h⟩ := apicBase_kept_iff alignedImage s (by rw [hmsr]; decide)
  obtain ⟨t, m, hr, -, hw, -, hiff⟩ := h hb.pageReady
  exact ⟨s, t, m, hb, hmsr, hr, hw, hiff.mpr (by rw [hmsr]; decide)⟩

/-- With the base at 0xFEE01000 it is not: the local APIC moves to 0xFEE00000. -/
theorem apicBase_moved : ∃ s t, Booted alignedImage s ∧ s.apicBase = 0xFEE01900#64 ∧
    s.run (mapLocalApic alignedImage) = .ok (s.nextPage, t) ∧ t.apicPage ≠ s.apicPage ∧
    t.walk (dirOf t.globals.localApic1VirtAddr) (tabOf t.globals.localApic1VirtAddr) =
      some ⟨0xFEE01#20, true⟩ ∧
    t.apicPage = 0xFEE00#24 := by
  obtain ⟨s, hb, hmsr⟩ := exists_booted_apicBase alignedImage 0xFEE01900#64
  obtain ⟨t, hr, hv, hw⟩ := hb.pageReady.run_mapLocalApic
  have ht : t.apicPage = 0xFEE00#24 := by
    rw [Machine.apicPage, of_run_mapLocalApic hr, hmsr]
    decide
  have hs : s.apicPage = 0xFEE01#24 := by
    rw [Machine.apicPage, hmsr]
    decide
  refine ⟨s, t, hb, hmsr, hr, by rw [ht, hs]; decide, ?_, ht⟩
  rw [hv, hw, hmsr]
  decide

end PekOS
