import PekOS.Machine
import PekOS.Library.StructLayout

/-! The structs of rsdt.h, fadt.h and apic.h on i386, and the tables of the ACPI
specification they are laid over. -/

namespace PekOS

open StructLayout LittleEndian

def uint8 : CType := ⟨1, 1, by decide⟩
def uint16 : CType := ⟨2, 2, by decide⟩
def uint32 : CType := ⟨4, 4, by decide⟩
def uint64 : CType := ⟨8, 4, by decide⟩

def acpiSdtHeader : Struct where
  packed := true
  members := [("signature", uint8.array 4), ("length", uint32), ("revision", uint8), ("checksum", uint8),
    ("OEMID", uint8.array 6), ("OEMTableID", uint8.array 8), ("OEMRevision", uint32),
    ("creatorID", uint32), ("creator_revision", uint32)]

def genericAddressStructure : Struct where
  packed := false
  members := [("AddressSpace", uint8), ("BitWidth", uint8), ("BitOffset", uint8), ("AccessSize", uint8),
    ("Address", uint64)]

def fadt : Struct where
  packed := false
  members := [("h", acpiSdtHeader.type), ("FirmwareCtrl", uint32), ("Dsdt", uint32), ("Reserved", uint8),
    ("PreferredPowerManagementProfile", uint8), ("SCI_Interrupt", uint16), ("SMI_CommandPort", uint32),
    ("AcpiEnable", uint8), ("AcpiDisable", uint8), ("S4BIOS_REQ", uint8), ("PSTATE_Control", uint8),
    ("PM1aEventBlock", uint32), ("PM1bEventBlock", uint32), ("PM1aControlBlock", uint32),
    ("PM1bControlBlock", uint32), ("PM2ControlBlock", uint32), ("PMTimerBlock", uint32),
    ("GPE0Block", uint32), ("GPE1Block", uint32), ("PM1EventLength", uint8),
    ("PM1ControlLength", uint8), ("PM2ControlLength", uint8), ("PMTimerLength", uint8),
    ("GPE0Length", uint8), ("GPE1Length", uint8), ("GPE1Base", uint8), ("CStateControl", uint8),
    ("WorstC2Latency", uint16), ("WorstC3Latency", uint16), ("FlushSize", uint16),
    ("FlushStride", uint16), ("DutyOffset", uint8), ("DutyWidth", uint8), ("DayAlarm", uint8),
    ("MonthAlarm", uint8), ("Century", uint8), ("BootArchitectureFlags", uint16),
    ("Reserved2", uint8), ("Flags", uint32), ("ResetReg", genericAddressStructure.type),
    ("ResetValue", uint8), ("Reserved3", uint8.array 3), ("X_FirmwareControl", uint64),
    ("X_Dsdt", uint64), ("X_PM1aEventBlock", genericAddressStructure.type),
    ("X_PM1bEventBlock", genericAddressStructure.type),
    ("X_PM1aControlBlock", genericAddressStructure.type),
    ("X_PM1bControlBlock", genericAddressStructure.type),
    ("X_PM2ControlBlock", genericAddressStructure.type),
    ("X_PMTimerBlock", genericAddressStructure.type), ("X_GPE0Block", genericAddressStructure.type),
    ("X_GPE1Block", genericAddressStructure.type)]

def procLocalApic : Struct where
  packed := false
  members := [("entry_type", uint8), ("record_length", uint8), ("ACPI_processor_id", uint8),
    ("APIC_id", uint8), ("flags", uint32)]

def ioApic : Struct where
  packed := false
  members := [("entry_type", uint8), ("record_length", uint8), ("io_apic_id", uint8),
    ("reserved_0", uint8), ("io_apic_address", uint32), ("global_system_interrupt_base", uint32)]

def ioApicInterruptSourceOverdrive : Struct where
  packed := false
  members := [("entry_type", uint8), ("record_length", uint8), ("bus_source", uint8),
    ("irq_source", uint8), ("global_system_interrupt", uint32), ("flags", uint16)]

def localApicNonMaskableInterrupts : Struct where
  packed := false
  members := [("entry_type", uint8), ("record_length", uint8), ("acpi_processor_id", uint8),
    ("flags", uint16), ("lint", uint8)]

/-! The offsets by the specification, under its names for the fields. -/

abbrev Table := List (String × Nat)

def Table.start (T : Table) (i : Nat) : Nat := (T[i]?.map (·.2)).getD 0

def sdtHeaderTable : Table :=
  [("Signature", 0), ("Length", 4), ("Revision", 8), ("Checksum", 9), ("OEMID", 10), ("OEM Table ID", 16),
    ("OEM Revision", 24), ("Creator ID", 28), ("Creator Revision", 32)]

def genericAddressTable : Table :=
  [("Address Space ID", 0), ("Register Bit Width", 1), ("Register Bit Offset", 2),
    ("Access Size", 3), ("Address", 4)]

def fadtTable : Table :=
  [("Header", 0), ("FIRMWARE_CTRL", 36), ("DSDT", 40), ("Reserved", 44),
    ("Preferred_PM_Profile", 45), ("SCI_INT", 46), ("SMI_CMD", 48), ("ACPI_ENABLE", 52),
    ("ACPI_DISABLE", 53), ("S4BIOS_REQ", 54), ("PSTATE_CNT", 55), ("PM1a_EVT_BLK", 56),
    ("PM1b_EVT_BLK", 60), ("PM1a_CNT_BLK", 64), ("PM1b_CNT_BLK", 68), ("PM2_CNT_BLK", 72),
    ("PM_TMR_BLK", 76), ("GPE0_BLK", 80), ("GPE1_BLK", 84), ("PM1_EVT_LEN", 88), ("PM1_CNT_LEN", 89),
    ("PM2_CNT_LEN", 90), ("PM_TMR_LEN", 91), ("GPE0_BLK_LEN", 92), ("GPE1_BLK_LEN", 93),
    ("GPE1_BASE", 94), ("CST_CNT", 95), ("P_LVL2_LAT", 96), ("P_LVL3_LAT", 98), ("FLUSH_SIZE", 100),
    ("FLUSH_STRIDE", 102), ("DUTY_OFFSET", 104), ("DUTY_WIDTH", 105), ("DAY_ALRM", 106),
    ("MON_ALRM", 107), ("CENTURY", 108), ("IAPC_BOOT_ARCH", 109), ("Reserved", 111), ("Flags", 112),
    ("RESET_REG", 116), ("RESET_VALUE", 128), ("Reserved", 129), ("X_FIRMWARE_CTRL", 132),
    ("X_DSDT", 140), ("X_PM1a_EVT_BLK", 148), ("X_PM1b_EVT_BLK", 160), ("X_PM1a_CNT_BLK", 172),
    ("X_PM1b_CNT_BLK", 184), ("X_PM2_CNT_BLK", 196), ("X_PM_TMR_BLK", 208),
    ("X_GPE0_BLK", 220), ("X_GPE1_BLK", 232)]

def localApicTable : Table :=
  [("Type", 0), ("Length", 1), ("ACPI Processor ID", 2), ("APIC ID", 3), ("Flags", 4)]

def ioApicTable : Table :=
  [("Type", 0), ("Length", 1), ("I/O APIC ID", 2), ("Reserved", 3), ("I/O APIC Address", 4),
    ("Global System Interrupt Base", 8)]

def interruptSourceOverrideTable : Table :=
  [("Type", 0), ("Length", 1), ("Bus", 2), ("Source", 3), ("Global System Interrupt", 4), ("Flags", 8)]

def localApicNmiTable : Table :=
  [("Type", 0), ("Length", 1), ("ACPI Processor ID", 2), ("Flags", 3), ("Local APIC LINT#", 5)]

/-- The `i`-th member of the struct at `p` holds what the table has at the offset of its `i`-th
field. -/
def Reads (S : Struct) (T : Table) (m : Word → Byte) (p : Word) (i : Nat) : Prop :=
  value m (p + BitVec.ofNat 32 (S.offset i)) (S.width i) = value m (p + BitVec.ofNat 32 (T.start i))
    (S.width i)

theorem reads_iff {S : Struct} {T : Table} {m : Word → Byte} {p : Word} {i : Nat} : Reads S T m p i ↔
    ∀ k < S.width i, m (p + BitVec.ofNat 32 (S.offset i + k)) =
      m (p + BitVec.ofNat 32 (T.start i + k)) := by
  simp only [Reads, value_eq_iff, BitVec.add_assoc, ← BitVec.ofNat_add]

/-- All members do. -/
def ReadsAll (S : Struct) (T : Table) (m : Word → Byte) (p : Word) : Prop :=
  ∀ i < S.members.length, Reads S T m p i

theorem readsAll_of_offsets {S : Struct} {T : Table} (h : ∀ i < S.members.length, S.offset i = T.start i)
    (m : Word → Byte) (p : Word) : ReadsAll S T m p := fun i hi => by rw [Reads, h i hi]

theorem readsAll_acpiSdtHeader (m : Word → Byte) (p : Word) : ReadsAll acpiSdtHeader sdtHeaderTable m p :=
  readsAll_of_offsets (by decide) m p

theorem readsAll_genericAddressStructure (m : Word → Byte) (p : Word) :
    ReadsAll genericAddressStructure genericAddressTable m p := readsAll_of_offsets (by decide) m p

theorem readsAll_procLocalApic (m : Word → Byte) (p : Word) : ReadsAll procLocalApic localApicTable m p :=
  readsAll_of_offsets (by decide) m p

theorem readsAll_ioApic (m : Word → Byte) (p : Word) : ReadsAll ioApic ioApicTable m p :=
  readsAll_of_offsets (by decide) m p

theorem readsAll_ioApicInterruptSourceOverdrive (m : Word → Byte) (p : Word) :
    ReadsAll ioApicInterruptSourceOverdrive interruptSourceOverrideTable m p :=
  readsAll_of_offsets (by decide) m p

/-- The table has no padding. -/
theorem fadtTable_start : ∀ i < 52, fadtTable.start i = offset true 0 fadt.types i := by decide

/-- Of the FADT the members up to `Century` are read right whatever it holds, and no others:
the boot architecture flags are the first of more than a byte that the table does not align. -/
theorem fadt_reads_iff {i : Nat} (hi : i < 52) : (∀ m p, Reads fadt fadtTable m p i) ↔ i < 36 := by
  have hbounds : ∀ i < 52, 0 < fadt.width i ∧ fadt.offset i < 2 ^ 32 ∧
      fadtTable.start i < 2 ^ 32 := by decide
  obtain ⟨hwidth, hoffset, hstart⟩ := hbounds i hi
  have haligned : ∀ j < 36, alignOf fadt.types j ∣ offset true 0 fadt.types j := by decide
  have hflags : ¬ alignOf fadt.types 36 ∣ offset true 0 fadt.types 36 := by decide
  simp only [Reads]
  rw [value_eq_iff_offset hwidth hoffset hstart, fadtTable_start i hi]
  refine offset_eq_packed_iff.trans ⟨fun h => ?_, fun h j hj => haligned j (by omega)⟩
  by_contra hge
  exact hflags (h 36 (by omega))

/-- One byte of padding stands before the boot architecture flags,
and three more before the flags behind them. -/
theorem fadt_shifted : ∀ i < 52, 38 ≤ i → fadt.offset i = fadtTable.start i + 4 ∧
    112 ≤ fadtTable.start i ∧ fadtTable.start i + fadt.width i ≤ 244 := by decide +kernel

/-- The other members hold what the table has if it repeats itself there. -/
theorem fadt_readsAll_iff (m : Word → Byte) (p : Word) : ReadsAll fadt fadtTable m p ↔
    (m (p + 110#32) = m (p + 109#32) ∧ m (p + 111#32) = m (p + 110#32) ∧
      m (p + 112#32) = m (p + 111#32)) ∧
      ∀ j, 112 ≤ j → j < 244 → m (p + BitVec.ofNat 32 (j + 4)) = m (p + BitVec.ofNat 32 j) := by
  have hflags : Reads fadt fadtTable m p 36 ↔ m (p + 110#32) = m (p + 109#32) ∧
      m (p + 111#32) = m (p + 110#32) := by
    rw [reads_iff, show fadt.width 36 = 2 by decide, show fadt.offset 36 = 110 by decide +kernel,
      show fadtTable.start 36 = 109 by decide, Nat.forall_lt_succ_right, Nat.forall_lt_succ_right]
    simp
  have hreserved : Reads fadt fadtTable m p 37 ↔ m (p + 112#32) = m (p + 111#32) := by
    rw [reads_iff, show fadt.width 37 = 1 by decide, show fadt.offset 37 = 112 by decide +kernel,
      show fadtTable.start 37 = 111 by decide, Nat.forall_lt_succ_right]
    simp
  constructor
  · intro h
    refine ⟨⟨(hflags.mp (h 36 (by decide))).1, (hflags.mp (h 36 (by decide))).2,
      hreserved.mp (h 37 (by decide))⟩, fun j hj hlt => ?_⟩
    have hend : offset true 0 fadt.types fadt.types.length = 244 := by decide
    obtain ⟨i, hi, hle, hin⟩ := exists_member (Nat.zero_le j) (Nat.lt_of_lt_of_eq hlt hend.symm)
    have hi' : i < 52 := hi
    rw [← fadtTable_start i hi'] at hle hin
    have hbefore : ∀ i < 38, fadtTable.start i + fadt.width i ≤ 112 := by decide
    have hge : 38 ≤ i := by
      by_contra hlt
      have := hbefore i (by omega)
      have hw : fadt.width i = widthOf fadt.types i := rfl
      omega
    obtain ⟨hshift, -, -⟩ := fadt_shifted i hi' hge
    have hbyte := reads_iff.mp (h i hi') (j - fadtTable.start i) (by rw [Struct.width]; omega)
    rw [hshift] at hbyte
    rwa [show fadtTable.start i + 4 + (j - fadtTable.start i) = j + 4 by omega,
      show fadtTable.start i + (j - fadtTable.start i) = j by omega] at hbyte
  · rintro ⟨⟨h110, h111, h112⟩, hrest⟩ i hi
    by_cases hlt : i < 36
    · exact (fadt_reads_iff hi).mpr hlt m p
    · by_cases h38 : 38 ≤ i
      · obtain ⟨hshift, hge, hle⟩ := fadt_shifted i hi h38
        refine reads_iff.mpr fun k hk => ?_
        have hbyte := hrest (fadtTable.start i + k) (by omega) (by omega)
        rwa [show fadtTable.start i + k + 4 = fadt.offset i + k by omega] at hbyte
      · obtain rfl | rfl : i = 36 ∨ i = 37 := by omega
        · exact hflags.mpr ⟨h110, h111⟩
        · exact hreserved.mpr h112

/-- The flags of a local APIC NMI record are not aligned in the table either. -/
theorem localApicNmi_readsAll_iff (m : Word → Byte) (p : Word) :
    ReadsAll localApicNonMaskableInterrupts localApicNmiTable m p ↔
      m (p + 4#32) = m (p + 3#32) ∧ m (p + 5#32) = m (p + 4#32) ∧ m (p + 6#32) = m (p + 5#32) := by
  have hfirst : ∀ i < 3, localApicNonMaskableInterrupts.offset i = localApicNmiTable.start i := by decide
  have hflags : Reads localApicNonMaskableInterrupts localApicNmiTable m p 3 ↔
      m (p + 4#32) = m (p + 3#32) ∧ m (p + 5#32) = m (p + 4#32) := by
    rw [reads_iff, show localApicNonMaskableInterrupts.width 3 = 2 by decide,
      show localApicNonMaskableInterrupts.offset 3 = 4 by decide,
        show localApicNmiTable.start 3 = 3 by decide,
      Nat.forall_lt_succ_right, Nat.forall_lt_succ_right]
    simp
  have hlint : Reads localApicNonMaskableInterrupts localApicNmiTable m p 4 ↔
      m (p + 6#32) = m (p + 5#32) := by
    rw [reads_iff, show localApicNonMaskableInterrupts.width 4 = 1 by decide,
      show localApicNonMaskableInterrupts.offset 4 = 6 by decide,
        show localApicNmiTable.start 4 = 5 by decide,
      Nat.forall_lt_succ_right]
    simp
  constructor
  · intro h
    obtain ⟨h4, h5⟩ := hflags.mp (h 3 (by decide))
    exact ⟨h4, h5, hlint.mp (h 4 (by decide))⟩
  · rintro ⟨h4, h5, h6⟩ i hi
    have hi' : i < 5 := hi
    by_cases hlt : i < 3
    · rw [Reads, hfirst i hlt]
    · obtain rfl | rfl : i = 3 ∨ i = 4 := by omega
      · exact hflags.mpr ⟨h4, h5⟩
      · exact hlint.mpr h6

end PekOS
