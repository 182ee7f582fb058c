import PekOS.Machine
import PekOS.Library.BitFields

/-! gdt.c and idt.c: the descriptors of the TSS and of the interrupt gates, and
what the processor takes them for. -/

namespace PekOS

open BitFields

inductive GdtField
  | limitLow
  | baseLow
  | accessed
  | readWrite
  | conformingExpandDown
  | code
  | codeDataSegment
  | dpl
  | present
  | limitHigh
  | available
  | longMode
  | big
  | gran
  | baseHigh
  deriving DecidableEq

def gdtEntryStruct : Layout GdtField :=
  [(.limitLow, 16), (.baseLow, 24), (.accessed, 1), (.readWrite, 1), (.conformingExpandDown, 1),
    (.code, 1), (.codeDataSegment, 1), (.dpl, 2), (.present, 1), (.limitHigh, 4), (.available, 1),
    (.longMode, 1), (.big, 1), (.gran, 1), (.baseHigh, 8)]

abbrev GdtEntry := gdtEntryStruct.Value

inductive TssField
  | prevTss
  | esp0
  | ss0
  | esp1
  | ss1
  | esp2
  | ss2
  | cr3
  | eip
  | eflags
  | eax
  | ecx
  | edx
  | ebx
  | esp
  | ebp
  | esi
  | edi
  | es
  | cs
  | ss
  | ds
  | fs
  | gs
  | ldt
  | trap
  | iomapBase
  deriving DecidableEq

def tssEntryStruct : Layout TssField :=
  [(.prevTss, 32), (.esp0, 32), (.ss0, 32), (.esp1, 32), (.ss1, 32), (.esp2, 32), (.ss2, 32),
    (.cr3, 32), (.eip, 32), (.eflags, 32), (.eax, 32), (.ecx, 32), (.edx, 32), (.ebx, 32),
    (.esp, 32), (.ebp, 32), (.esi, 32), (.edi, 32), (.es, 32), (.cs, 32), (.ss, 32), (.ds, 32),
    (.fs, 32), (.gs, 32), (.ldt, 32), (.trap, 16), (.iomapBase, 16)]

abbrev TssEntry := tssEntryStruct.Value

/-- `sizeof(tss_entry)`. -/
def tssSize : Nat := tssEntryStruct.bits / 8

/-- `write_tss`, `tss` being the address of `tss_entry` and `sp` the stack pointer. -/
def writeTss (tss sp : Word) (g : GdtEntry) : GdtEntry × TssEntry :=
  let base := tss
  let limit : Word := BitVec.ofNat 32 tssSize
  let g := gdtEntryStruct.set .limitLow limit g
  let g := gdtEntryStruct.set .baseLow base g
  let g := gdtEntryStruct.set .accessed 1#32 g
  let g := gdtEntryStruct.set .readWrite 0#32 g
  let g := gdtEntryStruct.set .conformingExpandDown 0#32 g
  let g := gdtEntryStruct.set .code 1#32 g
  let g := gdtEntryStruct.set .codeDataSegment 0#32 g
  let g := gdtEntryStruct.set .dpl 0#32 g
  let g := gdtEntryStruct.set .present 1#32 g
  let g := gdtEntryStruct.set .limitHigh ((limit &&& (0xF#32 <<< 16)) >>> 16) g
  let g := gdtEntryStruct.set .available 0#32 g
  let g := gdtEntryStruct.set .longMode 0#32 g
  let g := gdtEntryStruct.set .big 0#32 g
  let g := gdtEntryStruct.set .gran 0#32 g
  let g := gdtEntryStruct.set .baseHigh ((base &&& (0xFF#32 <<< 24)) >>> 24) g
  let t : TssEntry := 0
  let t := tssEntryStruct.set .ss0 ((2#32 <<< 3) ||| (0#32 <<< 1) ||| 0#32) t
  let t := tssEntryStruct.set .esp0 sp t
  (g, t)

inductive IdtField
  | isrLow
  | kernelCs
  | reserved
  | typeAttributes
  | isrHigh
  deriving DecidableEq

def idtEntryStruct : Layout IdtField :=
  [(.isrLow, 16), (.kernelCs, 16), (.reserved, 8), (.typeAttributes, 8), (.isrHigh, 16)]

abbrev IdtEntry := idtEntryStruct.Value

def idtMaxDescriptors : Nat := 256

def gdtOffsetKernelCode : BitVec 16 := 0x08#16

def idtSetDescriptor (idt : Byte → IdtEntry) (vector : Byte) (isr : Word) (flags : Byte) :
    Byte → IdtEntry :=
  let descriptor := idt vector
  let descriptor := idtEntryStruct.set .isrLow (isr &&& 0xFFFF#32) descriptor
  let descriptor := idtEntryStruct.set .kernelCs gdtOffsetKernelCode descriptor
  let descriptor := idtEntryStruct.set .typeAttributes flags descriptor
  let descriptor := idtEntryStruct.set .isrHigh (isr >>> 16) descriptor
  let descriptor := idtEntryStruct.set .reserved 0#8 descriptor
  Function.update idt vector descriptor

inductive IdtrField
  | limit
  | base
  deriving DecidableEq

def idtrStruct : Layout IdtrField := [(.limit, 16), (.base, 32)]

/-- The loop of `init_idt`; the vector is a `uint16_t` there,
and a `uint8_t` in the function it calls. -/
def initGates (isrStubTable : Nat → Word) (idt : Byte → IdtEntry) : Byte → IdtEntry :=
  (List.range idtMaxDescriptors).foldl
    (fun idt vector => idtSetDescriptor idt (BitVec.ofNat 8 vector) (isrStubTable vector) 0x8E#8) idt

/-- `init_idt`, `address` being that of `idt`. -/
def initIdt (address : Word) (isrStubTable : Nat → Word) (idtr : idtrStruct.Value)
    (idt : Byte → IdtEntry) : idtrStruct.Value × (Byte → IdtEntry) :=
  let idtr := idtrStruct.set .base address idtr
  let idtr := idtrStruct.set .limit
    (BitVec.ofNat 32 (idtEntryStruct.bits / 8 * idtMaxDescriptors - 1)) idtr
  (idtr, initGates isrStubTable idt)

/-! The formats of the processor, by the eight bytes of a descriptor. -/

namespace X86

/-- The bytes of a struct as they lie in memory. -/
def bytesOf {w : Nat} (x : BitVec w) (k : Nat) : Byte := x.extractLsb' (8 * k) 8

variable (b : Nat → Byte)

def segmentBase : Word := b 7 ++ b 4 ++ b 3 ++ b 2

def granularity : Bool := (b 6).getLsbD 7

/-- The offset of the last byte of a segment. -/
def segmentLimit : Word :=
  let limit : BitVec 20 := (b 6).extractLsb' 0 4 ++ b 1 ++ b 0
  if granularity b then limit.setWidth 32 <<< 12 ||| 0xFFF#32 else limit.setWidth 32

def gateOffset : Word := b 7 ++ b 6 ++ b 1 ++ b 0

def gateSelector : BitVec 16 := b 3 ++ b 2

/-- A gate is present, of this privilege level and this type. -/
def gateType : Bool × BitVec 2 × BitVec 5 :=
  ((b 5).getLsbD 7, (b 5).extractLsb' 5 2, (b 5).extractLsb' 0 5)

end X86

/-- The descriptor of a TSS: `tss` is the first and `last` the last of its bytes. -/
structure TssDecodes (tss last : Word) (b : Nat → Byte) : Prop where
  base : X86.segmentBase b = tss
  granularity : X86.granularity b = false
  limit : X86.segmentBase b + X86.segmentLimit b = last

/-- A present 32-bit interrupt gate of ring 0, for the kernel's code segment. -/
structure GateDecodes (isr : Word) (b : Nat → Byte) : Prop where
  offset : X86.gateOffset b = isr
  selector : X86.gateSelector b = 0x08#16
  type : X86.gateType b = (true, 0#2, 0b01110#5)

section Formats

variable (g : GdtEntry) (d : IdtEntry)

theorem segmentBase_bytesOf : X86.segmentBase (X86.bytesOf g) =
    gdtEntryStruct.field .baseHigh g ++ gdtEntryStruct.field .baseLow g := by
  show (g.extractLsb' 56 8 ++ g.extractLsb' 32 8 ++ g.extractLsb' 24 8 ++ g.extractLsb' 16 8 : Word) =
    g.extractLsb' 56 8 ++ g.extractLsb' 16 24
  apply BitVec.eq_of_getLsbD_eq
  intro i hi
  simp only [BitVec.getLsbD_append, BitVec.getLsbD_extractLsb']
  grind

theorem granularity_bytesOf :
    X86.granularity (X86.bytesOf g) = (gdtEntryStruct.field .gran g).getLsbD 0 := by
  show (g.extractLsb' 48 8).getLsbD 7 = (g.extractLsb' 55 1).getLsbD 0
  rw [BitVec.getLsbD_extractLsb', BitVec.getLsbD_extractLsb']
  rfl

theorem segmentLimit_bytesOf (h : gdtEntryStruct.field .gran g = 0) : X86.segmentLimit (X86.bytesOf g) =
    (gdtEntryStruct.field .limitHigh g ++ gdtEntryStruct.field .limitLow g : BitVec 20).setWidth 32 := by
  have hgran : X86.granularity (X86.bytesOf g) = false := by
    rw [granularity_bytesOf, h]
    rfl
  rw [X86.segmentLimit, hgran]
  show ((g.extractLsb' 48 8).extractLsb' 0 4 ++ g.extractLsb' 8 8 ++
    g.extractLsb' 0 8 : BitVec 20).setWidth 32 =
    (g.extractLsb' 48 4 ++ g.extractLsb' 0 16 : BitVec 20).setWidth 32
  refine congrArg (BitVec.setWidth 32) (BitVec.eq_of_getLsbD_eq fun i hi => ?_)
  simp only [BitVec.getLsbD_append, BitVec.getLsbD_extractLsb']
  grind

theorem gateOffset_bytesOf : X86.gateOffset (X86.bytesOf d) =
    idtEntryStruct.field .isrHigh d ++ idtEntryStruct.field .isrLow d := by
  show (d.extractLsb' 56 8 ++ d.extractLsb' 48 8 ++ d.extractLsb' 8 8 ++ d.extractLsb' 0 8 : Word) =
    d.extractLsb' 48 16 ++ d.extractLsb' 0 16
  apply BitVec.eq_of_getLsbD_eq
  intro i hi
  simp only [BitVec.getLsbD_append, BitVec.getLsbD_extractLsb']
  grind

theorem gateSelector_bytesOf : X86.gateSelector (X86.bytesOf d) = idtEntryStruct.field .kernelCs d := by
  show (d.extractLsb' 24 8 ++ d.extractLsb' 16 8 : BitVec 16) = d.extractLsb' 16 16
  apply BitVec.eq_of_getLsbD_eq
  intro i hi
  simp only [BitVec.getLsbD_append, BitVec.getLsbD_extractLsb']
  grind

theorem typeAttributes_bytesOf : X86.bytesOf d 5 = idtEntryStruct.field .typeAttributes d := rfl

end Formats

section Writing

variable (tss sp : Word) (g : GdtEntry)

/-- A base of 32 bits, from what is assigned to the two members. -/
theorem base_append (base : Word) :
    (((base &&& (0xFF#32 <<< 24)) >>> 24).setWidth 8 ++ base.setWidth 24 : Word) = base := by
  have hmask : ∀ j < 8, (0xFF#32 <<< 24).getLsbD (24 + j) = true := by decide
  apply BitVec.eq_of_getLsbD_eq
  intro i hi
  rw [BitVec.getLsbD_append]
  by_cases hlow : i < 24
  · simp [hlow]
  · have hj : i - 24 < 8 := by omega
    rw [if_neg hlow, BitVec.getLsbD_setWidth, decide_eq_true hj, Bool.true_and,
      BitVec.getLsbD_ushiftRight, BitVec.getLsbD_and, hmask _ hj, Bool.and_true,
      show 24 + (i - 24) = i by omega]

theorem offset_append (isr : Word) :
    ((isr >>> 16).setWidth 16 ++ (isr &&& 0xFFFF#32).setWidth 16 : Word) = isr := by
  have hmask : ∀ j < 16, (0xFFFF#32).getLsbD j = true := by decide
  apply BitVec.eq_of_getLsbD_eq
  intro i hi
  rw [BitVec.getLsbD_append]
  by_cases hlow : i < 16
  · rw [if_pos hlow, BitVec.getLsbD_setWidth, decide_eq_true hlow, Bool.true_and,
      BitVec.getLsbD_and, hmask i hlow, Bool.and_true]
  · have hj : i - 16 < 16 := by omega
    rw [if_neg hlow, BitVec.getLsbD_setWidth, decide_eq_true hj, Bool.true_and,
      BitVec.getLsbD_ushiftRight,
      show 16 + (i - 16) = i by omega]

theorem writeTss_base : X86.segmentBase (X86.bytesOf (writeTss tss sp g).1) = tss := by
  have hhigh : gdtEntryStruct.field .baseHigh (writeTss tss sp g).1 =
      ((tss &&& (0xFF#32 <<< 24)) >>> 24).setWidth 8 := by
    simp only [writeTss, Layout.field_set]
    rfl
  have hlow : gdtEntryStruct.field .baseLow (writeTss tss sp g).1 = tss.setWidth 24 := by
    simp only [writeTss, ne_eq, reduceCtorEq, not_false_eq_true, Layout.field_set, Layout.field_set_of_ne]
    rfl
  rw [segmentBase_bytesOf, hhigh, hlow]
  exact base_append tss

theorem writeTss_granularity : gdtEntryStruct.field .gran (writeTss tss sp g).1 = 0 := by
  simp only [writeTss, ne_eq, reduceCtorEq, not_false_eq_true, Layout.field_set, Layout.field_set_of_ne]
  rfl

theorem writeTss_limit : X86.segmentLimit (X86.bytesOf (writeTss tss sp g).1) = 104#32 := by
  have hhigh : gdtEntryStruct.field .limitHigh (writeTss tss sp g).1 = 0 := by
    simp only [writeTss, ne_eq, reduceCtorEq, not_false_eq_true, Layout.field_set, Layout.field_set_of_ne]
    rfl
  have hlow : gdtEntryStruct.field .limitLow (writeTss tss sp g).1 = 104#16 := by
    simp only [writeTss, ne_eq, reduceCtorEq, not_false_eq_true, Layout.field_set, Layout.field_set_of_ne]
    rfl
  rw [segmentLimit_bytesOf _ (writeTss_granularity tss sp g), hhigh, hlow]
  rfl

end Writing

theorem idtSetDescriptor_fields (idt : Byte → IdtEntry) (vector : Byte) (isr : Word) (flags : Byte) :
    idtEntryStruct.field .isrLow (idtSetDescriptor idt vector isr flags vector) =
      (isr &&& 0xFFFF#32).setWidth 16 ∧
    idtEntryStruct.field .kernelCs (idtSetDescriptor idt vector isr flags vector) = gdtOffsetKernelCode ∧
    idtEntryStruct.field .typeAttributes (idtSetDescriptor idt vector isr flags vector) = flags ∧
    idtEntryStruct.field .isrHigh (idtSetDescriptor idt vector isr flags vector) =
      (isr >>> 16).setWidth 16 := by
  simp only [idtSetDescriptor, Function.update_self, ne_eq, reduceCtorEq, not_false_eq_true,
    Layout.field_set, Layout.field_set_of_ne]
  exact ⟨rfl, rfl, BitVec.setWidth_eq flags, rfl⟩

theorem gateDecodes_set (idt : Byte → IdtEntry) (vector : Byte) (isr : Word) :
    GateDecodes isr (X86.bytesOf (idtSetDescriptor idt vector isr 0x8E#8 vector)) := by
  obtain ⟨hlow, hselector, htype, hhigh⟩ := idtSetDescriptor_fields idt vector isr 0x8E#8
  refine ⟨?_, (gateSelector_bytesOf _).trans hselector, ?_⟩
  · rw [gateOffset_bytesOf, hhigh, hlow]
    exact offset_append isr
  · rw [X86.gateType, typeAttributes_bytesOf, htype]
    decide

theorem gateDecodes_initGates (isrStubTable : Nat → Word) (idt : Byte → IdtEntry) (vector : Byte) :
    GateDecodes (isrStubTable vector.toNat) (X86.bytesOf (initGates isrStubTable idt vector)) := by
  have hloop (n : Nat) (hn : n ≤ 256) (v : Nat) (hv : v < n) : GateDecodes (isrStubTable v) (X86.bytesOf
      ((List.range n).foldl
        (fun idt vector => idtSetDescriptor idt (BitVec.ofNat 8 vector) (isrStubTable vector) 0x8E#8)
        idt (BitVec.ofNat 8 v))) := by
    induction n with
    | zero => exact absurd hv (Nat.not_lt_zero v)
    | succ n ih =>
      rw [List.range_succ, List.foldl_append]
      rcases Nat.lt_succ_iff_lt_or_eq.mp hv with hlt | rfl
      · have hne : BitVec.ofNat 8 v ≠ BitVec.ofNat 8 n := by
          rw [Ne, ← BitVec.toNat_inj, BitVec.toNat_ofNat, BitVec.toNat_ofNat]
          omega
        rw [List.foldl_cons, List.foldl_nil, idtSetDescriptor, Function.update_of_ne hne]
        exact ih (by omega) hlt
      · exact gateDecodes_set _ _ _
  have h := hloop 256 (Nat.le_refl 256) vector.toNat vector.isLt
  rwa [BitVec.ofNat_toNat, BitVec.setWidth_eq] at h

theorem initIdt_gates (address : Word) (isrStubTable : Nat → Word) (idtr : idtrStruct.Value)
    (idt : Byte → IdtEntry) :
    (initIdt address isrStubTable idtr idt).2 = initGates isrStubTable idt := by
  simp only [initIdt]

/-- In the IDTR, the limit is the offset of the last byte of the table. -/
theorem initIdt_limit (address : Word) (isrStubTable : Nat → Word) (idtr : idtrStruct.Value)
    (idt : Byte → IdtEntry) :
    idtrStruct.field .base (initIdt address isrStubTable idtr idt).1 = address ∧
      (idtrStruct.field .limit (initIdt address isrStubTable idtr idt).1).toNat + 1 =
        idtMaxDescriptors * (idtEntryStruct.bits / 8) := by
  simp only [initIdt, ne_eq, reduceCtorEq, not_false_eq_true, Layout.field_set, Layout.field_set_of_ne]
  exact ⟨BitVec.setWidth_eq address, rfl⟩

/-- What `write_tss` and `init_idt` store is taken by the processor for what was meant. -/
structure DescriptorsDecode (tss sp : Word) (g : GdtEntry) (address : Word) (isrStubTable : Nat → Word)
    (idtr : idtrStruct.Value) (idt : Byte → IdtEntry) : Prop where
  tss : TssDecodes tss (tss + BitVec.ofNat 32 (tssSize - 1)) (X86.bytesOf (writeTss tss sp g).1)
  gates : ∀ vector : Byte,
    GateDecodes (isrStubTable vector.toNat)
    (X86.bytesOf ((initIdt address isrStubTable idtr idt).2 vector))

theorem not_tssDecodes (tss sp : Word) (g : GdtEntry) :
    ¬ TssDecodes tss (tss + BitVec.ofNat 32 (tssSize - 1)) (X86.bytesOf (writeTss tss sp g).1) := by
  intro h
  have hlimit := h.limit
  rw [writeTss_base, writeTss_limit, BitVec.add_right_inj] at hlimit
  exact absurd hlimit (by decide)

/-- All is as it was meant but the limit of the TSS, which is its size, and that for every input. -/
theorem descriptors_never_decode (tss sp : Word) (g : GdtEntry) (address : Word)
    (isrStubTable : Nat → Word) (idtr : idtrStruct.Value) (idt : Byte → IdtEntry) :
    X86.segmentBase (X86.bytesOf (writeTss tss sp g).1) = tss ∧
      X86.granularity (X86.bytesOf (writeTss tss sp g).1) = false ∧
      X86.segmentLimit (X86.bytesOf (writeTss tss sp g).1) = BitVec.ofNat 32 tssSize ∧
      (∀ vector : Byte,
        GateDecodes (isrStubTable vector.toNat)
        (X86.bytesOf ((initIdt address isrStubTable idtr idt).2 vector))) ∧
      ¬ DescriptorsDecode tss sp g address isrStubTable idtr idt := by
  refine ⟨writeTss_base tss sp g, ?_, writeTss_limit tss sp g, fun vector => ?_,
    fun h => not_tssDecodes tss sp g h.tss⟩
  · rw [granularity_bytesOf, writeTss_granularity]
    rfl
  · rw [initIdt_gates]
    exact gateDecodes_initGates isrStubTable idt vector

/-- Ahead of the call the tables are zero. -/
theorem tss_limit_beyond : ¬ DescriptorsDecode 0xC0112040#32 0xC0118000#32 0 0xC0113000#32
    (fun vector => 0xC0100000#32 + 16#32 * BitVec.ofNat 32 vector) 0 fun _ => 0 :=
  fun h => not_tssDecodes _ _ _ h.tss

end PekOS
