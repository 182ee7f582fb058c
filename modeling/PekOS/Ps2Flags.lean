import PekOS.FindByHeader
import PekOS.Ps2Writes
import PekOS.Structs
import PekOS.Reading

/-! How `init_ps2` decides whether there is a PS/2 controller. -/

namespace PekOS

open OpTree StructLayout

section Branch

variable {image : KernelImage} {s₀ s t : Machine} {root : Word} {revision : Byte}

/-- For an ACPI 2.0 RSDP the flags are those of the struct at `fadt`, here at `NULL`. -/
theorem ran_ps2Available (h : Pageable image s) (hr : Room {0#10} s) (hfadt : s.globals.fadt = 0#32)
    (hrevision : s.ReadsByte (s.globals.rsdp + 15#32) revision) (hne : revision ≠ 0#8) (n : Nat) :
    ∃ t, Ran image (n + 1) ps2Available s ((s.byte (s.behind 110#32)).getLsbD 1) t := by
  have hbit : ∀ lo : Byte, decide (lo &&& 2#8 ≠ 0#8) = lo.getLsbD 1 := by decide
  obtain ⟨u, hlo, hu, -⟩ := h.ran_loadByte hr (x := 110#32) (by decide) (by decide) n
  obtain ⟨v, hhi, -, -⟩ := hu.pageable.ran_loadByte hu.room (x := 111#32) (by decide) (by decide) n
  have hrev : Ran image (n + 1) (Code.loadByte (s.globals.rsdp + 15#32)) s revision s :=
    ran_of_run (Machine.run_loadByte_iff.mpr ⟨rfl, hrevision⟩)
  refine ⟨v, ?_⟩
  rw [ps2Available, Ran, Prog.run_bind_ok _ (ran_get _), Prog.run_bind_ok _ (ran_deref _ _),
    Prog.run_bind_ok _ hrev, if_neg hne, Prog.run_bind_ok _ (ran_get _),
    Prog.run_bind_ok _ (ran_deref _ _), hfadt]
  refine (Prog.run_bind_ok _ hlo).trans ((Prog.run_bind_ok _ hhi).trans ?_)
  rw [Prog.pure_eq, Prog.run_ret, hbit]

/-- In ACPI 2.0 mode `find_by_header` finds no FADT,
and the branch is taken on what is behind page 0. -/
theorem ran_findPs2 (h : Pageable image s) (hr : Room {0#10} s) (hversion : s.globals.acpiVersion = true)
    (hrevision : s.ReadsByte (s.globals.rsdp + 15#32) revision) (hne : revision ≠ 0#8) (n : Nat) :
    ∃ t, Ran image (n + 1) findPs2 s ((s.byte (s.behind 110#32)).getLsbD 1) t := by
  have hfind : Ran image (n + 1) (findByHeader facp) s 0#32 s :=
    ran_of_run (Machine.run_findByHeader_acpi2 facp hversion)
  have hnull := h.withGlobals (g := { s.globals with fadt := 0#32 }) rfl rfl
  obtain ⟨t, ht⟩ := ran_ps2Available hnull hr rfl hrevision hne n
  refine ⟨t, ?_⟩
  rw [findPs2, ← facp, Ran, Prog.run_bind_ok _ hfind, Prog.run_bind_ok _ (ran_modify _)]
  exact ht

/-- What `init_ps2` finds then: page 0 is absent, and no frame has been handed out. -/
theorem start_of_initPs2 (hb : Booted image s₀) (hfind : s₀.run findRoot = .ok (root, s))
    (hversion : s.globals.acpiVersion = true) (hp : Placed image s root) (fuel : Nat) :
    ∃ t, s₀.run (initRsdt image >>= fun _ => initApic image fuel) = .ok ((), t) ∧ Pageable image t ∧
      Room {0#10} t ∧ t.globals.acpiVersion = true ∧ t.behind 110#32 = 0x1000006E#32 := by
  obtain ⟨u, hu, h⟩ := run_initRsdt hb hfind hp
  have hcur := hb.curPhysaddr_of_initRsdt hfind hu
  obtain ⟨msr, ht⟩ := Machine.run_initApic_acpi2 image fuel (h.version.trans hversion)
  refine ⟨_, (Prog.run_bind_ok _ hu).trans ht, (h.paged.pageable hcur).withGlobals rfl rfl,
    h.paged.room (by decide), h.version.trans hversion, ?_⟩
  have habsent : u.translate 110#32 = none := by
    have hd : present (u.pde (dirOf 110#32)) = false := by
      by_contra hd
      exact absurd (h.paged.high _ (eq_true_of_ne_false hd)) (by decide)
    rw [Machine.translate, Machine.walk_eq_none_iff.mpr (Or.inl hd), Option.map_none]
  have hbehind : u.behind 110#32 = frameOf u.globals.curPhysaddr ++ offsetOf 110#32 := by
    rw [Machine.behind, habsent, Option.getD_none]
  rw [hcur] at hbehind
  exact hbehind.trans (by decide)

end Branch

/-- The structs hold what the specification says,
but for the members of the FADT behind `Century` and the last two of a local APIC NMI record: these
do if and only if the table repeats itself there. `init_ps2` looks at bit 1 of byte 110 of what is
behind page 0, a frame the page-fault handler hands out for it. -/
theorem structs_hold_fields_iff (m : Word → Byte) (p : Word) :
    ((ReadsAll fadt fadtTable m p ↔
        (m (p + 110#32) = m (p + 109#32) ∧ m (p + 111#32) = m (p + 110#32) ∧
          m (p + 112#32) = m (p + 111#32)) ∧
          ∀ j, 112 ≤ j → j < 244 → m (p + BitVec.ofNat 32 (j + 4)) = m (p + BitVec.ofNat 32 j)) ∧
      ReadsAll acpiSdtHeader sdtHeaderTable m p ∧
        ReadsAll genericAddressStructure genericAddressTable m p ∧
      ReadsAll procLocalApic localApicTable m p ∧ ReadsAll ioApic ioApicTable m p ∧
      ReadsAll ioApicInterruptSourceOverdrive interruptSourceOverrideTable m p ∧
      (ReadsAll localApicNonMaskableInterrupts localApicNmiTable m p ↔
        m (p + 4#32) = m (p + 3#32) ∧ m (p + 5#32) = m (p + 4#32) ∧ m (p + 6#32) = m (p + 5#32))) ∧
    (∀ i < 52, (∀ m p, Reads fadt fadtTable m p i) ↔ i < 36) ∧
    (∀ (image : KernelImage) (n : Nat) (s : Machine) (revision : Byte), Pageable image s → Room {0#10} s →
      s.globals.acpiVersion = true → s.ReadsByte (s.globals.rsdp + 15#32) revision → revision ≠ 0#8 →
        ∃ b t, Ran image (n + 1) findPs2 s b t ∧
          ((b = true ↔ (m (p + 110#32) ++ m (p + 109#32)).getLsbD 1 = true) ↔
            (s.byte (s.behind 110#32)).getLsbD 1 = (m (p + 109#32)).getLsbD 1)) ∧
    ∀ (image : KernelImage) (s₀ s : Machine) (root : Word) (fuel : Nat), Booted image s₀ →
      s₀.run findRoot = .ok (root, s) → s.globals.acpiVersion = true → Placed image s root →
        ∃ t, s₀.run (initRsdt image >>= fun _ => initApic image fuel) = .ok ((), t) ∧ Pageable image t ∧
          Room {0#10} t ∧ t.globals.acpiVersion = true ∧ t.behind 110#32 = 0x1000006E#32 := by
  refine ⟨⟨fadt_readsAll_iff m p, readsAll_acpiSdtHeader m p, readsAll_genericAddressStructure m p,
    readsAll_procLocalApic m p, readsAll_ioApic m p, readsAll_ioApicInterruptSourceOverdrive m p,
    localApicNmi_readsAll_iff m p⟩, fun i hi =>
    fadt_reads_iff hi, fun image n s revision h hr hversion hrev hne => ?_,
    fun image s₀ s root fuel hb hfind hversion hp => start_of_initPs2 hb hfind hversion hp fuel⟩
  have hbit : (m (p + 110#32) ++ m (p + 109#32)).getLsbD 1 = (m (p + 109#32)).getLsbD 1 := by
    rw [BitVec.getLsbD_append]
    rfl
  obtain ⟨t, ht⟩ := ran_findPs2 h hr hversion hrev hne n
  exact ⟨_, t, ht, by rw [hbit]; exact Bool.eq_iff_iff.symm⟩

/-- The branch is not taken for a FADT that reports no controller,
nothing having been stored behind page 0. -/
theorem structs_hold_fields_iff_xsdt : ∃ s₀ t : Machine, Booted alignedImage s₀ ∧
    s₀.run (initRsdt alignedImage >>= fun _ => initApic alignedImage 0) = .ok ((), t) ∧
      t.word 0x00801000#32 = 0x50434146#32 ∧ ∃ b u, Ran alignedImage 1 findPs2 t b u ∧
        (b = true ↔ (t.byte (0x00801000#32 + 110#32) ++ t.byte (0x00801000#32 + 109#32)).getLsbD 1 =
          true) := by
  obtain ⟨s₀, s, v, hb, hfind, ⟨hversion, hrsdp, -⟩, hbyte₀, ht, hcount, hentries, hr, h, hbyte⟩ :=
    xsdtFirmware.exists_initRsdt alignedImage (by decide)
  have hp : Placed alignedImage s xsdtFirmware.root := by
    refine ⟨ht, fun i hi => ?_⟩
    rw [hcount] at hi
    rw [hentries i hi]
    exact (by decide : ∀ i < xsdtFirmware.count, (xsdtFirmware.entry i).toNat % 4096 + 4 ≤ 4096) i hi
  have hv : s.globals.acpiVersion = true := hversion.trans (by decide)
  obtain ⟨-, -, hbranch, hboot⟩ := structs_hold_fields_iff v.byte 0x00801000#32
  obtain ⟨t, hrun, hpageable, hroom, hversion', hbehind⟩ :=
    hboot alignedImage s₀ s xsdtFirmware.root 0 hb hfind hv hp
  obtain ⟨msr, happ⟩ := Machine.run_initApic_acpi2 alignedImage 0 (h.version.trans hv)
  obtain ⟨-, rfl⟩ : () = () ∧ v.withGlobals { v.globals with msrAvailable := msr, madt := 0#32 } = t := by
    simpa using ((Prog.run_bind_ok _ hr).trans happ).symm.trans hrun
  have hpointer : v.globals.rsdp + 15#32 = 0xF#32 + kernelMapStart := by
    rw [mapped_rsdp.of_initRsdt hfind hr, hrsdp]
    decide
  have hrevision : v.ReadsByte (v.globals.rsdp + 15#32) 2#8 := by
    have hmem : v.byte 0xF#32 = 2#8 := by
      rw [h.memory 0xF#32 (KernelImage.apart_of_outside (Or.inl (by decide))) fun _ => by decide,
        hbyte₀ _ (by decide)]
      decide
    rw [hpointer]
    exact hmem ▸ Machine.byteAt_eq (h.paged.tables.kernelMapped.maps_low (p := 0xF#32)
      (by decide)).translate
  have hfar {p : Word} (hp : 0x801000 ≤ p.toNat)
      (hfar : 36 + 4 * xsdtFirmware.count ≤ (p - xsdtFirmware.root).toNat) :
      v.byte p = xsdtFirmware.byte p := hbyte p (by omega) fun _ => hfar
  refine ⟨s₀, _, hb, hrun, ?_, ?_⟩
  · show LittleEndian.word v.byte 0x00801000#32 = _
    rw [LittleEndian.word_congr (hfar (by decide) (by decide)) fun k hk =>
      hfar (by revert k; decide) (by revert k; decide)]
    decide
  · obtain ⟨b, u, hran, hiff⟩ :=
      hbranch alignedImage 0 _ 2#8 hpageable hroom hversion' hrevision (by decide)
    refine ⟨b, u, hran, hiff.mpr ?_⟩
    rw [hbehind]
    show (v.byte _).getLsbD 1 = (v.byte _).getLsbD 1
    rw [hfar (by decide) (by decide), hfar (by decide) (by decide)]
    decide

/-- A FADT that reports an 8042 controller, and the struct none. -/
theorem bootArchitectureFlags_missed : ∃ m : Word → Byte, m 109#32 = 2#8 ∧
    LittleEndian.value m (0#32 + BitVec.ofNat 32 (fadtTable.start 36)) 2 = 2 ∧
    LittleEndian.value m (0#32 + BitVec.ofNat 32 (fadt.offset 36)) 2 = 0 ∧
    ¬ ReadsAll fadt fadtTable m 0#32 := by
  have hoffset : fadt.offset 36 = 110 := by decide +kernel
  have hstart : fadtTable.start 36 = 109 := by decide
  refine ⟨fun x => if x = 109#32 then 2#8 else 0#8, rfl, ?_, ?_, fun h => ?_⟩
  · rw [hstart]
    decide
  · rw [hoffset]
    decide
  · have hflags := ((fadt_readsAll_iff _ _).mp h).1.1
    simp at hflags

end PekOS
