import PekOS.Descriptors
import PekOS.Library.Instructions

/-! gdt.c, gdt_flush.S and tss_flush.S on the processor. Left out are what `init_gdt`
prints, and what its compiled code does with scratch registers and the stack. -/

namespace PekOS.Segmentation

open BitFields I386 LittleEndian

/-! `init_gdt`. -/

def ring0Code (g : GdtEntry) : GdtEntry :=
  let g := gdtEntryStruct.set .limitLow 0xFFFF#32 g
  let g := gdtEntryStruct.set .baseLow 0#32 g
  let g := gdtEntryStruct.set .accessed 0#32 g
  let g := gdtEntryStruct.set .readWrite 1#32 g
  let g := gdtEntryStruct.set .conformingExpandDown 0#32 g
  let g := gdtEntryStruct.set .code 1#32 g
  let g := gdtEntryStruct.set .codeDataSegment 1#32 g
  let g := gdtEntryStruct.set .dpl 0#32 g
  let g := gdtEntryStruct.set .present 1#32 g
  let g := gdtEntryStruct.set .limitHigh 0xF#32 g
  let g := gdtEntryStruct.set .available 0#32 g
  let g := gdtEntryStruct.set .longMode 0#32 g
  let g := gdtEntryStruct.set .big 1#32 g
  let g := gdtEntryStruct.set .gran 1#32 g
  gdtEntryStruct.set .baseHigh 0#32 g

/-- A copy of a code segment, as a data segment. -/
def asData (g : GdtEntry) : GdtEntry := gdtEntryStruct.set .code 0#32 g

/-- A copy of a segment, for ring 3. -/
def asRing3 (g : GdtEntry) : GdtEntry := gdtEntryStruct.set .dpl 3#32 g

/-- Where the tables are, and `.gdt_descriptor`. -/
structure Placement where
  gdt : Word
  tss : Word
  idt : Word
  gdtDescriptor : Word
  gdtTss : Apart tss 104 gdt 48
  gdtIdt : Apart idt 2048 gdt 48
  tssIdt : Apart idt 2048 tss 104
  descriptorGdt : Apart gdtDescriptor 6 gdt 48

/-- A descriptor, from its eight bytes. -/
def quad (m : Word → Byte) (a : Word) : BitVec 64 :=
  bytesFrom m a 7 ++ bytesFrom m a 6 ++ bytesFrom m a 5 ++ bytesFrom m a 4 ++ bytesFrom m a 3 ++
    bytesFrom m a 2 ++ bytesFrom m a 1 ++ bytesFrom m a 0

def gdtEntryAt (m : Word → Byte) (a : Word) : GdtEntry := quad m a

def setMem (m : Word → Byte) (s : Processor) : Processor := { s with cpu := { s.cpu with mem := m } }

def storeEntry (a : Word) (g : GdtEntry) (s : Processor) : Processor := setMem (write s.cpu.mem a g) s

def flushGdtCode (gdtDescriptor : Word) : List Ins :=
  [.load 4#32 .esp .eax, .loadLow 8#32 .esp .ebx, .store .eax (gdtDescriptor + 2#32), .subLow 1#16 .ebx,
    .storeLow .ebx gdtDescriptor, .lgdt gdtDescriptor]

/-- `offset` is the address of `.reload_CS`, behind the jump. -/
def reloadSegmentsCode (offset : Word) : List Ins :=
  [.ljmp 0x08#16 offset, .movLow 0x10#16 .eax, .loadSegment .eax .ds, .loadSegment .eax .es,
    .loadSegment .eax .fs, .loadSegment .eax .gs, .loadSegment .eax .ss]

def flushTssCode : List Ins := [.movImm 0x28#32 .eax, .ltr .eax]

/-- `%eax` and `%bx` have the arguments. -/
def withArgs (gdt size : Word) (s : Processor) : Processor :=
  s.withCpu ((s.cpu.set .eax gdt).set .ebx (lowered (s.cpu.regs .ebx) (size.setWidth 16)))

/-- A call of `flush_gdt`, whose first two instructions take the arguments from the stack. -/
def flushGdt (gdtDescriptor gdt size : Word) (s : Processor) : Except Exception Processor :=
  (withArgs gdt size s).execs ((flushGdtCode gdtDescriptor).drop 2)

def reloadSegments (offset : Word) (s : Processor) : Except Exception Processor :=
  s.execs (reloadSegmentsCode offset)

def flushTss (s : Processor) : Except Exception Processor := s.execs flushTssCode

def setKernelStack (p : Placement) (stack : Word) (s : Processor) : Processor :=
  setMem (put s.cpu.mem (p.tss + 4#32) stack) s

/-- `init_gdt`; `offset` is the address of `.reload_CS`, and `sp` what `get_stack_pointer` returns.
-/
def initGdt (p : Placement) (offset sp : Word) (s : Processor) : Except Exception Processor := do
  let s := storeEntry (p.gdt + 8#32) (ring0Code (gdtEntryAt s.cpu.mem (p.gdt + 8#32))) s
  let ring0Code := gdtEntryAt s.cpu.mem (p.gdt + 8#32)
  let s := storeEntry (p.gdt + 16#32) (asData ring0Code) s
  let s := storeEntry (p.gdt + 24#32) (asRing3 ring0Code) s
  let s := storeEntry (p.gdt + 32#32) (asData (gdtEntryAt s.cpu.mem (p.gdt + 24#32))) s
  let s ← flushGdt p.gdtDescriptor p.gdt 48#32 s
  let s ← reloadSegments offset s
  let tss := writeTss p.tss sp (gdtEntryAt s.cpu.mem (p.gdt + 40#32))
  let s := storeEntry (p.gdt + 40#32) tss.1 s
  flushTss (setMem (write s.cpu.mem p.tss tss.2) s)

section Formats

variable (g : GdtEntry)

/-! The processor's view of a descriptor, by the fields of the struct. -/

theorem decode_base : (Segment.decode (X86.bytesOf g)).base =
    gdtEntryStruct.field .baseHigh g ++ gdtEntryStruct.field .baseLow g := segmentBase_bytesOf g

theorem decode_limit : (Segment.decode (X86.bytesOf g)).limit =
    let limit : BitVec 20 := gdtEntryStruct.field .limitHigh g ++ gdtEntryStruct.field .limitLow g
    if (gdtEntryStruct.field .gran g).getLsbD 0 then limit.setWidth 32 <<< 12 ||| 0xFFF#32
      else limit.setWidth 32 := by
  have hlimit : ((X86.bytesOf g 6).extractLsb' 0 4 ++ X86.bytesOf g 1 ++ X86.bytesOf g 0 : BitVec 20) =
      gdtEntryStruct.field .limitHigh g ++ gdtEntryStruct.field .limitLow g := by
    show ((g.extractLsb' 48 8).extractLsb' 0 4 ++ g.extractLsb' 8 8 ++ g.extractLsb' 0 8 : BitVec 20) =
      g.extractLsb' 48 4 ++ g.extractLsb' 0 16
    apply BitVec.eq_of_getLsbD_eq
    intro i hi
    simp only [BitVec.getLsbD_append, BitVec.getLsbD_extractLsb']
    grind
  rw [Segment.decode, hlimit, ← granularity_bytesOf]
  rfl

theorem decode_type : (Segment.decode (X86.bytesOf g)).type = gdtEntryStruct.field .code g ++
    gdtEntryStruct.field .conformingExpandDown g ++ gdtEntryStruct.field .readWrite g ++
    gdtEntryStruct.field .accessed g := by
  show (g.extractLsb' 40 8).extractLsb' 0 4 =
    (g.extractLsb' 43 1 ++ g.extractLsb' 42 1 ++ g.extractLsb' 41 1 ++ g.extractLsb' 40 1 : BitVec 4)
  apply BitVec.eq_of_getLsbD_eq
  intro i hi
  simp only [BitVec.getLsbD_append, BitVec.getLsbD_extractLsb']
  grind

theorem decode_dpl : (Segment.decode (X86.bytesOf g)).dpl = gdtEntryStruct.field .dpl g := by
  show (g.extractLsb' 40 8).extractLsb' 5 2 = g.extractLsb' 45 2
  apply BitVec.eq_of_getLsbD_eq
  intro i hi
  simp only [BitVec.getLsbD_extractLsb']
  grind

theorem bytesOf_bit {k i : Nat} (hi : i < 8) :
    (X86.bytesOf g k).getLsbD i = (g.extractLsb' (8 * k + i) 1).getLsbD 0 := by
  rw [X86.bytesOf, BitVec.getLsbD_extractLsb', BitVec.getLsbD_extractLsb', decide_eq_true hi]
  rfl

theorem decode_system : (Segment.decode (X86.bytesOf g)).system =
    !(gdtEntryStruct.field .codeDataSegment g).getLsbD 0 := congrArg not (bytesOf_bit g (by decide))

theorem decode_present :
    (Segment.decode (X86.bytesOf g)).present = (gdtEntryStruct.field .present g).getLsbD 0 :=
  bytesOf_bit g (by decide)

theorem decode_big : (Segment.decode (X86.bytesOf g)).big = (gdtEntryStruct.field .big g).getLsbD 0 :=
  bytesOf_bit g (by decide)

/-- All of the address space, at a privilege level. -/
def flat (type : BitVec 4) (dpl : BitVec 2) : Segment :=
  ⟨0#32, 0xFFFFFFFF#32, type, false, dpl, true, true⟩

theorem decode_ring0Code : Segment.decode (X86.bytesOf (ring0Code g)) = flat 0b1010#4 0#2 := by
  ext1 <;> simp only [decode_base, decode_limit, decode_type, decode_system, decode_dpl,
    decode_present, decode_big, ring0Code, ne_eq, reduceCtorEq, not_false_eq_true, Layout.field_set,
    Layout.field_set_of_ne] <;> rfl

theorem decode_ring0Data : Segment.decode (X86.bytesOf (asData (ring0Code g))) = flat 0b0010#4 0#2 := by
  ext1 <;> simp only [decode_base, decode_limit, decode_type, decode_system, decode_dpl,
    decode_present, decode_big, asData, ring0Code, ne_eq, reduceCtorEq, not_false_eq_true,
    Layout.field_set, Layout.field_set_of_ne] <;> rfl

theorem decode_ring3Code : Segment.decode (X86.bytesOf (asRing3 (ring0Code g))) = flat 0b1010#4 3#2 := by
  ext1 <;> simp only [decode_base, decode_limit, decode_type, decode_system, decode_dpl,
    decode_present, decode_big, asRing3, ring0Code, ne_eq, reduceCtorEq, not_false_eq_true,
    Layout.field_set, Layout.field_set_of_ne] <;> rfl

theorem decode_ring3Data :
    Segment.decode (X86.bytesOf (asData (asRing3 (ring0Code g)))) = flat 0b0010#4 3#2 := by
  ext1 <;> simp only [decode_base, decode_limit, decode_type, decode_system, decode_dpl,
    decode_present, decode_big, asData, asRing3, ring0Code, ne_eq, reduceCtorEq, not_false_eq_true,
    Layout.field_set, Layout.field_set_of_ne] <;> rfl

/-- The descriptor of the TSS, before it is busy. -/
theorem decode_tss (tss sp : Word) : Segment.decode (X86.bytesOf (writeTss tss sp g).1) =
    ⟨tss, 104#32, 0b1001#4, true, 0#2, true, false⟩ := by
  ext1
  · exact writeTss_base tss sp g
  · exact writeTss_limit tss sp g
  all_goals
    simp only [decode_type, decode_system, decode_dpl, decode_present, decode_big, writeTss, ne_eq,
      reduceCtorEq, not_false_eq_true, Layout.field_set, Layout.field_set_of_ne]
    rfl

theorem gdtEntryAt_bytes {m : Word → Byte} {a : Word} {g : GdtEntry}
    (h : ∀ k < 8, bytesFrom m a k = X86.bytesOf g k) : gdtEntryAt m a = g := by
  rw [gdtEntryAt, quad, h 0 (by decide), h 1 (by decide), h 2 (by decide), h 3 (by decide),
    h 4 (by decide), h 5 (by decide), h 6 (by decide), h 7 (by decide)]
  exact append_extract_eight g

end Formats

section Memory

variable {m : Word → Byte} {gdt : Word} {i j : Nat}

def entryAddr (gdt : Word) (i : Nat) : Word := gdt + BitVec.ofNat 32 (8 * i)

/-- Of the six descriptors only the one that is written changes. -/
theorem bytesFrom_write (hi : i < 6) (hj : j < 6) (g : GdtEntry) {k : Nat} (hk : k < 8) :
    bytesFrom (write m (entryAddr gdt j) g) (entryAddr gdt i) k =
      if i = j then X86.bytesOf g k else bytesFrom m (entryAddr gdt i) k := by
  have hdist : (entryAddr gdt i + BitVec.ofNat 32 k - entryAddr gdt j).toNat =
      (8 * i + k + (2 ^ 32 - 8 * j)) % 2 ^ 32 := by
    rw [entryAddr, entryAddr, BitVec.add_assoc, ← BitVec.ofNat_add]
    simp only [BitVec.toNat_sub, BitVec.toNat_add, BitVec.toNat_ofNat]
    omega
  have hbits : gdtEntryStruct.bits / 8 = 8 := rfl
  rw [bytesFrom, write, hdist, hbits]
  by_cases hij : i = j
  · subst hij
    have hk' : (8 * i + k + (2 ^ 32 - 8 * i)) % 2 ^ 32 = k := by omega
    rw [hk', if_pos hk, if_pos rfl]
    rfl
  · rw [if_neg (by omega), if_neg hij]
    rfl

theorem gdtEntryAt_write (hi : i < 6) (g : GdtEntry) :
    gdtEntryAt (write m (entryAddr gdt i) g) (entryAddr gdt i) = g :=
  gdtEntryAt_bytes fun _ hk => (bytesFrom_write hi hi g hk).trans (if_pos rfl)

theorem decode_write (hi : i < 6) (g : GdtEntry) :
    Segment.decode (bytesFrom (write m (entryAddr gdt i) g) (entryAddr gdt i)) = Segment.decode
    (X86.bytesOf g) :=
  Segment.decode_congr fun _ hk => (bytesFrom_write hi hi g hk).trans (if_pos rfl)

theorem decode_write_ne (hi : i < 6) (hj : j < 6) (hne : i ≠ j) (g : GdtEntry) :
    Segment.decode (bytesFrom (write m (entryAddr gdt j) g) (entryAddr gdt i)) =
      Segment.decode (bytesFrom m (entryAddr gdt i)) :=
  Segment.decode_congr fun _ hk => (bytesFrom_write hi hj g hk).trans (if_neg hne)

theorem entryAddr_byte (hi : i < 6) (hj : j < 6) {k : Nat} (hk : k < 8) :
    entryAddr gdt i + BitVec.ofNat 32 k = entryAddr gdt j + 5#32 ↔ i = j ∧ k = 5 := by
  have hsum (i k : Nat) : entryAddr gdt i + BitVec.ofNat 32 k = gdt + BitVec.ofNat 32 (8 * i + k) := by
    rw [entryAddr, BitVec.add_assoc, ← BitVec.ofNat_add]
  rw [hsum, show (5#32 : Word) = BitVec.ofNat 32 5 from rfl, hsum, BitVec.add_right_inj,
    ← BitVec.toNat_inj, BitVec.toNat_ofNat, BitVec.toNat_ofNat]
  omega

/-- The segments that the table holds, from the first one on that is not null. -/
structure HoldsGdt (gdt : Word) (D : Nat → Segment) (s : Processor) : Prop where
  gdtr : s.gdtr = ⟨gdt, 47#16⟩
  entries : ∀ i, 0 < i → i < 6 → s.read (entryAddr gdt i) = D i

variable {D : Nat → Segment} {s t : Processor}

theorem HoldsGdt.descriptor (h : HoldsGdt gdt D s) {selector : BitVec 16}
    (hs : selector.getLsbD 2 = false) (hlt : selector.toNat / 8 < 6) :
    s.descriptor selector = some (entryAddr gdt (selector.toNat / 8)) := by
  rw [Processor.descriptor, h.gdtr, hs, if_neg, entryAddr, Nat.mul_comm]
  rintro (hf | hlimit)
  · exact Bool.false_ne_true hf
  · have h47 : (47#16).toNat = 47 := rfl
    dsimp only at hlimit
    omega

def marked (D : Nat → Segment) (i : Nat) (bits : BitVec 8) : Nat → Segment :=
  Function.update D i { D i with type := (D i).type ||| bits.extractLsb' 0 4 }

theorem HoldsGdt.mark (h : HoldsGdt gdt D s) (h0 : 0 < j) (hj : j < 6) {bits : BitVec 8}
    (hbits : ∀ i, 4 ≤ i → bits.getLsbD i = false) :
    HoldsGdt gdt (marked D j bits) (s.mark (entryAddr gdt j) bits) := by
  refine ⟨h.gdtr, fun i hpos hi => ?_⟩
  have hother (k : Nat) (hk : k < 8) (hne : ¬ (i = j ∧ k = 5)) :
      bytesFrom (s.mark (entryAddr gdt j) bits).cpu.mem (entryAddr gdt i) k =
        bytesFrom s.cpu.mem (entryAddr gdt i) k :=
    Function.update_of_ne (fun he => hne ((entryAddr_byte hi hj hk).mp he)) _ _
  by_cases hij : i = j
  · subst hij
    have hsame : (s.mark (entryAddr gdt i) bits).read (entryAddr gdt i) = Segment.decode (fun k =>
        if k = 5 then bytesFrom s.cpu.mem (entryAddr gdt i) 5 ||| bits
          else bytesFrom s.cpu.mem (entryAddr gdt i) k) := by
      refine Segment.decode_congr fun k hk => ?_
      by_cases h5 : k = 5
      · subst h5
        exact Function.update_self _ _ _
      · rw [if_neg h5]
        exact hother k hk fun he => h5 he.2
    rw [hsame, Segment.decode_or _ hbits, marked, Function.update_self, ← h.entries i hpos hi]
    rfl
  · rw [marked, Function.update_of_ne hij, ← h.entries i hpos hi]
    exact Segment.decode_congr fun k hk => hother k hk fun he => hij he.1

theorem HoldsGdt.install (h : HoldsGdt gdt D s) (h0 : 0 < j) (hj : j < 6) (r : SReg)
    (selector : BitVec 16) :
    HoldsGdt gdt (marked D j 1#8) (s.install r selector (entryAddr gdt j)) := by
  have hbits (i : Nat) (hi : 4 ≤ i) : (1#8).getLsbD i = false := by
    rw [BitVec.getLsbD_one, decide_eq_false (show ¬ i = 0 by omega), Bool.and_false]
  exact ⟨h.gdtr, (h.mark h0 hj hbits).entries⟩

end Memory

theorem write_unrelated {w n : Nat} {m : Word → Byte} {a y : Word} (x : BitVec w) (hw : w / 8 = n)
    (hy : ∀ k < n, a + BitVec.ofNat 32 k ≠ y) : write m a x y = m y := by
  refine if_neg fun hlt => hy _ (hw ▸ hlt) ?_
  rw [BitVec.ofNat_toNat, BitVec.setWidth_eq, BitVec.add_comm, BitVec.sub_add_cancel]

/-- What loads of segment registers leave alone. -/
structure Loads (gdt : Word) (s t : Processor) : Prop where
  regs : t.cpu.regs = s.cpu.regs
  eflags : t.cpu.eflags = s.cpu.eflags
  cr2 : t.cpu.cr2 = s.cpu.cr2
  idtr : t.idtr = s.idtr
  cr0 : t.cr0 = s.cr0
  cr3 : t.cr3 = s.cr3
  mem : ∀ y, (∀ k < 48, gdt + BitVec.ofNat 32 k ≠ y) → t.cpu.mem y = s.cpu.mem y

section Loading

variable {gdt : Word} {D : Nat → Segment} {s t u : Processor}

theorem Loads.trans (h : Loads gdt s t) (h' : Loads gdt t u) : Loads gdt s u :=
  ⟨h'.regs.trans h.regs, h'.eflags.trans h.eflags, h'.cr2.trans h.cr2, h'.idtr.trans h.idtr,
    h'.cr0.trans h.cr0, h'.cr3.trans h.cr3, fun y hy => (h'.mem y hy).trans (h.mem y hy)⟩

theorem Loads.mark {j : Nat} (hj : j < 6) (bits : BitVec 8) (s : Processor) :
    Loads gdt s (s.mark (entryAddr gdt j) bits) := by
  refine ⟨rfl, rfl, rfl, rfl, rfl, rfl, fun y hy => Function.update_of_ne (fun he => ?_) _ _⟩
  refine hy (8 * j + 5) (by omega) ?_
  rw [he, entryAddr, BitVec.add_assoc, show (5#32 : Word) = BitVec.ofNat 32 5 from rfl,
    ← BitVec.ofNat_add]

theorem Loads.install {j : Nat} (hj : j < 6) (r : SReg) (selector : BitVec 16) (s : Processor) :
    Loads gdt s (s.install r selector (entryAddr gdt j)) :=
  ⟨rfl, rfl, rfl, rfl, rfl, rfl, (Loads.mark hj 1#8 s).mem⟩

/-- The segment once it has been accessed. -/
def accessed (d : Segment) : Segment := { d with type := d.type ||| (1#8).extractLsb' 0 4 }

theorem of_accessed {d : Segment} {t : BitVec 4} {l : BitVec 2} (h : accessed d = flat t l) :
    d.type ||| 1#4 = t ∧ d.system = false ∧ d.dpl = l ∧ d.present = true ∧ d.limit = 0xFFFFFFFF#32 := by
  simp only [accessed, flat, Segment.mk.injEq] at h
  exact ⟨h.2.2.1, h.2.2.2.1, h.2.2.2.2.1, h.2.2.2.2.2.1, h.2.1⟩

/-- A register has been loaded with the `j`-th segment of the table. -/
structure SegmentLoaded (gdt : Word) (D : Nat → Segment) (j : Nat) (r : SReg) (selector : BitVec 16)
    (s t : Processor) : Prop
    extends Loads gdt s t where
  holds : HoldsGdt gdt (Function.update D j (accessed (D j))) t
  selectors : t.selector = Function.update s.selector r selector
  segments : t.segment = Function.update s.segment r (accessed (D j))

theorem loaded_install (h : HoldsGdt gdt D s) {j : Nat} (h0 : 0 < j) (hj : j < 6) (r : SReg)
    (selector : BitVec 16) :
    SegmentLoaded gdt D j r selector s (s.install r selector (entryAddr gdt j)) := by
  have hinstall := h.install h0 hj r selector
  have hentry := hinstall.entries j h0 hj
  rw [marked, Function.update_self] at hentry
  exact ⟨Loads.install hj r selector s, hinstall, rfl, congrArg (Function.update s.segment r) hentry⟩

/-- The kernel's data segment can be loaded at ring 0. -/
theorem loadData_ring0 (h : HoldsGdt gdt D s) (hcpl : s.cpl = 0#2)
    (hD : accessed (D 2) = flat 3#4 0#2) (r : SReg) :
    ∃ t, s.loadData r 0x10#16 = .ok t ∧ SegmentLoaded gdt D 2 r 0x10#16 s t := by
  obtain ⟨htype, hsystem, hdpl, hpresent, -⟩ := of_accessed hD
  have hread := h.entries 2 (by decide) (by decide)
  have hdata : (D 2).data = true := by
    have hbit : ∀ t : BitVec 4, t ||| 1#4 = 3#4 → t.getLsbD 3 = false := by decide
    rw [Segment.data, hsystem, hbit _ htype]
    rfl
  have hdescriptor : s.descriptor 0x10#16 = some (entryAddr gdt 2) := h.descriptor (by decide) (by decide)
  refine ⟨_, Processor.loadData_ok (by decide) hdescriptor ?_ ?_ ?_ ?_,
    loaded_install h (by decide) (by decide) r 0x10#16⟩
  · rw [hread, hdata]
  · rw [hread, hdpl]
    decide
  · rw [hread, hdpl, hcpl]
    exact BitVec.le_refl _
  · rw [hread, hpresent]

theorem loadStack_ring0 (h : HoldsGdt gdt D s) (hD : accessed (D 2) = flat 3#4 0#2)
    (fault : BitVec 16 → Exception) :
    ∃ t, s.loadStackAt 0#2 fault 0x10#16 = .ok t ∧ SegmentLoaded gdt D 2 .ss 0x10#16 s t := by
  obtain ⟨htype, hsystem, hdpl, hpresent, -⟩ := of_accessed hD
  have hread := h.entries 2 (by decide) (by decide)
  have hbit : ∀ t : BitVec 4, t ||| 1#4 = 3#4 → t.getLsbD 3 = false ∧ t.getLsbD 1 = true := by decide
  have hdescriptor : s.descriptor 0x10#16 = some (entryAddr gdt 2) := h.descriptor (by decide) (by decide)
  refine ⟨_, Processor.loadStackAt_ok (by decide) hdescriptor (by decide) ?_ ?_ ?_ ?_,
    loaded_install h (by decide) (by decide) .ss 0x10#16⟩
  · rw [hread, Segment.data, hsystem, (hbit _ htype).1]
    rfl
  · rw [hread, Segment.permits, (hbit _ htype).2]
  · rw [hread, hdpl]
  · rw [hread, hpresent]

/-- The kernel's code segment can be jumped to at ring 0. -/
theorem farJump_ring0 (h : HoldsGdt gdt D s) (hcpl : s.cpl = 0#2)
    (hD : accessed (D 1) = flat 0b1011#4 0#2) (offset : Word) :
    ∃ t, s.farJump 0x08#16 offset = .ok t ∧ SegmentLoaded gdt D 1 .cs 0x08#16 s t := by
  obtain ⟨htype, hsystem, hdpl, hpresent, hlimit⟩ := of_accessed hD
  have hread := h.entries 1 (by decide) (by decide)
  have hbit : ∀ t : BitVec 4, t ||| 1#4 = 0b1011#4 → t.getLsbD 3 = true ∧ t.getLsbD 2 = false := by decide
  have hdescriptor : s.descriptor 0x08#16 = some (entryAddr gdt 1) := h.descriptor (by decide) (by decide)
  have hselector : entry 0x08#16 ||| s.cpl.setWidth 16 = 0x08#16 := by
    rw [hcpl]
    decide
  have hjump : s.farJump 0x08#16 offset =
      .ok (s.install .cs (entry 0x08#16 ||| s.cpl.setWidth 16) (entryAddr gdt 1)) := by
    refine Processor.farJump_ok (by decide) hdescriptor ?_ ?_ ?_ ?_ ?_ ?_
    · rw [hread, Segment.code, hsystem, (hbit _ htype).1]
      rfl
    · rw [hread, Segment.conforming, (hbit _ htype).2]
    · rw [hcpl]
      decide
    · rw [hread, hdpl, hcpl]
    · rw [hread, hpresent]
    · rw [hread, hlimit]
      exact BitVec.le_def.mpr (by have := offset.isLt; rw [BitVec.toNat_ofNat]; omega)
  rw [hselector] at hjump
  exact ⟨_, hjump, loaded_install h (by decide) (by decide) .cs 0x08#16⟩

theorem cpl_of_selector (h : t.selector .cs = 0x08#16) : t.cpl = 0#2 := by
  rw [Processor.cpl, h]
  decide

/-- `%ax` has the selector of the kernel's data segment. -/
def selecting (s : Processor) : Processor :=
  s.withCpu (s.cpu.set .eax (lowered (s.cpu.regs .eax) 0x10#16))

/-- The kernel's data segment has been loaded from `%ax`, which still has its selector. -/
structure DataLoaded (gdt : Word) (D : Nat → Segment) (r : SReg) (s t : Processor) : Prop
    extends Loads gdt s t where
  holds : HoldsGdt gdt (Function.update D 2 (flat 3#4 0#2)) t
  code : t.selector .cs = 0x08#16
  ax : (t.cpu.regs .eax).setWidth 16 = 0x10#16
  selectors : t.selector = Function.update s.selector r 0x10#16
  segments : t.segment = Function.update s.segment r (flat 3#4 0#2)

/-- The segment has been accessed or not, and the register is not `%cs`, nor `%ss`, which has
checks of its own. -/
theorem loadSegment_ring0 (h : HoldsGdt gdt D s) (hD : accessed (D 2) = flat 3#4 0#2)
    (hcs : s.selector .cs = 0x08#16) (hax : (s.cpu.regs .eax).setWidth 16 = 0x10#16) {r : SReg}
    (hr : r ≠ .cs) (hss : r ≠ .ss) :
    ∃ t, s.exec (.loadSegment .eax r) = .ok t ∧ DataLoaded gdt D r s t := by
  obtain ⟨t, ht, l⟩ := loadData_ring0 h (cpl_of_selector hcs) hD r
  have hexec : s.exec (.loadSegment .eax r) = .ok t := by
    rw [← ht, ← hax]
    exact if_neg hss
  have hholds := l.holds
  have hsegments := l.segments
  rw [hD] at hholds hsegments
  have hcode : t.selector .cs = 0x08#16 := by rw [l.selectors, Function.update_of_ne hr.symm, hcs]
  exact ⟨t, hexec, l.toLoads, hholds, hcode, by rw [l.regs, hax], l.selectors, hsegments⟩

/-- The next register. -/
theorem DataLoaded.next (l : DataLoaded gdt D r s t) (r' : SReg) (hr : r' ≠ .cs) (hss : r' ≠ .ss) :
    ∃ u, t.exec (.loadSegment .eax r') = .ok u ∧ DataLoaded gdt D r' t u := by
  obtain ⟨u, hu, l'⟩ :=
    loadSegment_ring0 l.holds (by rw [Function.update_self]; rfl) l.code l.ax hr hss
  have hholds := l'.holds
  rw [Function.update_idem] at hholds
  exact ⟨u, hu, l'.toLoads, hholds, l'.code, l'.ax, l'.selectors, l'.segments⟩

/-- `reload_segments`, behind `flush_gdt`. -/
theorem reloadSegments_ok (h : HoldsGdt gdt D s) (hcpl : s.cpl = 0#2) (h1 : D 1 = flat 0b1010#4 0#2)
    (h2 : D 2 = flat 0b0010#4 0#2) (offset : Word) : ∃ t, reloadSegments offset s = .ok t ∧
      Loads gdt (selecting s) t ∧
      HoldsGdt gdt (Function.update (Function.update D 1 (flat 0b1011#4 0#2)) 2 (flat 0b0011#4 0#2)) t ∧
      ∀ r, t.selector r = (if r = .cs then 0x08#16 else 0x10#16) ∧
        t.segment r = if r = .cs then flat 0b1011#4 0#2 else flat 0b0011#4 0#2 := by
  obtain ⟨s₀, hjump, l₀⟩ := farJump_ring0 h hcpl (by rw [h1]; rfl) offset
  have hcs₀ : s₀.selector .cs = 0x08#16 := by rw [l₀.selectors, Function.update_self]
  let s₁ := selecting s₀
  have hmov : s₀.exec (.movLow 0x10#16 .eax) = .ok s₁ := rfl
  have hD₁ : HoldsGdt gdt (Function.update D 1 (accessed (D 1))) s₁ := ⟨l₀.holds.gdtr, l₀.holds.entries⟩
  rw [h1] at hD₁
  have l₁ : Loads gdt (selecting s) s₁ := by
    refine ⟨?_, l₀.eflags, l₀.cr2, l₀.idtr, l₀.cr0, l₀.cr3, l₀.mem⟩
    show Function.update _ _ _ = Function.update _ _ _
    rw [l₀.regs]
  obtain ⟨s₂, hr₂, l₂⟩ := loadSegment_ring0 (r := .ds) hD₁
    (by rw [Function.update_of_ne (by decide), h2]; rfl) hcs₀ (lowered_low _ _) (by decide) (by decide)
  obtain ⟨s₃, hr₃, l₃⟩ := l₂.next .es (by decide) (by decide)
  obtain ⟨s₄, hr₄, l₄⟩ := l₃.next .fs (by decide) (by decide)
  obtain ⟨s₅, hr₅, l₅⟩ := l₄.next .gs (by decide) (by decide)
  obtain ⟨t, hr₆, l₆⟩ := loadStack_ring0 l₅.holds (by rw [Function.update_self]; rfl) .general
  have hD₆ := l₆.holds
  rw [Function.update_self, show accessed (flat 3#4 0#2) = flat 3#4 0#2 from rfl,
    Function.update_idem] at hD₆
  have hstack : s₅.exec (.loadSegment .eax .ss) = .ok t := by
    rw [← hr₆, ← cpl_of_selector l₅.code, ← l₅.ax]
    rfl
  have hloads := (((l₁.trans l₂.toLoads).trans l₃.toLoads).trans l₄.toLoads).trans l₅.toLoads
  refine ⟨t, ?_, hloads.trans l₆.toLoads, hD₆, fun r => ?_⟩
  · have hfar : s.exec (.ljmp 0x08#16 offset) = .ok s₀ := hjump
    rw [reloadSegments, reloadSegmentsCode, Processor.execs_cons hfar, Processor.execs_cons hmov,
      Processor.execs_cons hr₂, Processor.execs_cons hr₃, Processor.execs_cons hr₄,
      Processor.execs_cons hr₅, Processor.execs_cons hstack]
    rfl
  · have hsel := l₆.selectors
    have hseg := l₆.segments
    have hsel₁ : s₁.selector = Function.update s.selector .cs 0x08#16 := l₀.selectors
    have hseg₁ : s₁.segment = Function.update s.segment .cs (accessed (D 1)) := l₀.segments
    rw [l₅.selectors, l₄.selectors, l₃.selectors, l₂.selectors, hsel₁] at hsel
    rw [l₅.segments, l₄.segments, l₃.segments, l₂.segments, hseg₁, h1, Function.update_self] at hseg
    rw [hsel, hseg]
    cases r <;> exact ⟨rfl, rfl⟩

end Loading

section Routines

variable {s : Processor} {gdtDescriptor gdt size next : Word}

/-- The arguments are where a caller puts them. -/
theorem flushGdt_called (hs : Holds s.cpu [next, gdt, size]) :
    s.execs (flushGdtCode gdtDescriptor) = flushGdt gdtDescriptor gdt size s := by
  have hgdt : word s.cpu.mem (s.cpu.regs .esp + 4#32) = gdt := hs.2.1
  have hsize : half s.cpu.mem (s.cpu.regs .esp + 8#32) = size.setWidth 16 := by
    have hword := hs.2.2.1
    rw [BitVec.add_assoc] at hword
    exact (half_eq _ _).trans (congrArg (BitVec.setWidth 16) hword)
  have hargs : s.exec (.load 4#32 .esp .eax) = .ok (s.withCpu (s.cpu.set .eax gdt)) := by
    rw [← hgdt]
    rfl
  have hlow : (s.withCpu (s.cpu.set .eax gdt)).exec (.loadLow 8#32 .esp .ebx) =
      .ok (withArgs gdt size s) := by
    rw [withArgs, ← hsize]
    rfl
  rw [flushGdtCode, Processor.execs_cons hargs, Processor.execs_cons hlow]
  rfl

/-- The table has been loaded, through six bytes of memory. -/
structure Flushed (gdtDescriptor gdt : Word) (limit : BitVec 16) (s t : Processor) : Prop where
  gdtr : t.gdtr = ⟨gdt, limit⟩
  selector : t.selector = s.selector
  regs : ∀ r, r ≠ .eax → r ≠ .ebx → t.cpu.regs r = s.cpu.regs r
  mem : ∀ y, (∀ k < 6, gdtDescriptor + BitVec.ofNat 32 k ≠ y) → t.cpu.mem y = s.cpu.mem y

theorem flushGdt_ok (gdtDescriptor gdt size : Word) (s : Processor) :
    ∃ t, flushGdt gdtDescriptor gdt size s = .ok t ∧
    Flushed gdtDescriptor gdt (size.setWidth 16 - 1#16) s t := by
  let limit := size.setWidth 16 - 1#16
  let base := put s.cpu.mem (gdtDescriptor + 2#32) gdt
  let u := lowered (lowered (s.cpu.regs .ebx) (size.setWidth 16))
    ((lowered (s.cpu.regs .ebx) (size.setWidth 16)).setWidth 16 - 1#16)
  have hu : u.setWidth 16 = limit := by
    show (lowered _ _).setWidth 16 = limit
    rw [lowered_low, lowered_low]
  have hbase : word (write base gdtDescriptor (u.setWidth 16)) (gdtDescriptor + 2#32) = gdt := by
    have hapart (k : Nat) (hk : k < 4) (j : Nat) (hj : j < 2) :
        gdtDescriptor + BitVec.ofNat 32 j ≠ gdtDescriptor + BitVec.ofNat 32 (2 + k) := by
      rw [ne_eq, BitVec.add_right_inj, ← BitVec.toNat_inj, BitVec.toNat_ofNat, BitVec.toNat_ofNat]
      omega
    refine (word_congr (write_unrelated _ rfl (hapart 0 (by decide))) fun k hk => ?_).trans
      (word_put (by decide) _ _ _)
    rw [show (2#32 : Word) = BitVec.ofNat 32 2 from rfl, BitVec.add_assoc, ← BitVec.ofNat_add]
    exact write_unrelated _ rfl (hapart k hk)
  refine ⟨_, rfl, congrArg₂ TableRegister.mk hbase ((half_write _).trans hu), rfl,
    fun r ha hb => ?_, fun y hy => ?_⟩
  · exact (set_regs hb _ _).trans ((set_regs hb _ _).trans (set_regs ha _ _))
  · refine (write_unrelated _ rfl fun k hk => hy k (by omega)).trans
      (write_unrelated gdt rfl fun k hk => ?_)
    rw [show (2#32 : Word) = BitVec.ofNat 32 2 from rfl, BitVec.add_assoc, ← BitVec.ofNat_add]
    exact hy (2 + k) (by omega)

theorem flushTss_eq (s : Processor) :
    flushTss s = (s.withCpu (s.cpu.set .eax 0x28#32)).loadTask 0x28#16 := by
  rw [flushTss, flushTssCode, Processor.execs_cons (t := s.withCpu (s.cpu.set .eax 0x28#32)) rfl]
  exact bind_pure _

end Routines

/-- The kernel's two segments are flat, and the TSS has its stack. -/
structure Segmented (p : Placement) (sp : Word) (s : Processor) : Prop where
  gdtr : s.gdtr = ⟨p.gdt, 47#16⟩
  code : s.read (entryAddr p.gdt 1) = flat 0b1011#4 0#2
  data : s.read (entryAddr p.gdt 2) = flat 0b0011#4 0#2
  task : s.task = ⟨p.tss, 104#32, 0b1011#4, true, 0#2, true, false⟩
  esp0 : word s.cpu.mem (p.tss + 4#32) = sp
  ss0 : word s.cpu.mem (p.tss + 8#32) = 0x10#32

/-- What `init_gdt` leaves: the segments of ring 3 are flat too, and the kernel's are loaded. -/
structure Reloaded (p : Placement) (sp : Word) (s : Processor) : Prop extends Segmented p sp s where
  userCode : s.read (entryAddr p.gdt 3) = flat 0b1010#4 3#2
  userData : s.read (entryAddr p.gdt 4) = flat 0b0010#4 3#2
  registers : ∀ r, s.selector r = (if r = .cs then 0x08#16 else 0x10#16) ∧
    s.segment r = if r = .cs then flat 0b1011#4 0#2 else flat 0b0011#4 0#2
  taskSelector : s.taskSelector = 0x28#16

/-- What the stores of `init_gdt` and its three routines spare:
all but the two tables and the operand of `lgdt`,
and the registers that C code relies on across a call, apart from `%ebx`. -/
structure Spared (p : Placement) (s t : Processor) : Prop where
  regs : ∀ r ∈ [Reg.esp, .ebp, .esi, .edi], t.cpu.regs r = s.cpu.regs r
  mem : ∀ y, (∀ k < 48, p.gdt + BitVec.ofNat 32 k ≠ y) → (∀ k < 104, p.tss + BitVec.ofNat 32 k ≠ y) →
    (∀ k < 6, p.gdtDescriptor + BitVec.ofNat 32 k ≠ y) → t.cpu.mem y = s.cpu.mem y

section Init

variable (p : Placement) (sp : Word)

theorem writeTss_words (g : GdtEntry) : (writeTss p.tss sp g).2.extractLsb' (32 * 1) 32 = sp ∧
    (writeTss p.tss sp g).2.extractLsb' (32 * 2) 32 = 0x10#32 := by
  have hesp : tssEntryStruct.field .esp0 (writeTss p.tss sp g).2 = sp := by
    simp only [writeTss, Layout.field_set]
    exact BitVec.setWidth_eq sp
  have hss : tssEntryStruct.field .ss0 (writeTss p.tss sp g).2 = 0x10#32 := by
    simp only [writeTss, ne_eq, reduceCtorEq, not_false_eq_true, Layout.field_set, Layout.field_set_of_ne]
    rfl
  exact ⟨hesp, hss⟩

theorem entryAddr_unrelated {gdt y : Word} (hy : ∀ k < 48, gdt + BitVec.ofNat 32 k ≠ y) {i : Nat}
    (hi : i < 6) : ∀ k < 8, entryAddr gdt i + BitVec.ofNat 32 k ≠ y := fun k hk he => by
  rw [entryAddr, BitVec.add_assoc, ← BitVec.ofNat_add] at he
  exact hy _ (by omega) he

/-- The memory when the four segments have been described. -/
def described (m : Word → Byte) : Word → Byte :=
  let m := write m (p.gdt + 8#32) (ring0Code (gdtEntryAt m (p.gdt + 8#32)))
  let ring0Code := gdtEntryAt m (p.gdt + 8#32)
  let m := write m (p.gdt + 16#32) (asData ring0Code)
  let m := write m (p.gdt + 24#32) (asRing3 ring0Code)
  write m (p.gdt + 32#32) (asData (gdtEntryAt m (p.gdt + 24#32)))

theorem described_eq (m : Word → Byte) : ∃ g, described p m =
    write (write (write (write m (entryAddr p.gdt 1) (ring0Code g)) (entryAddr p.gdt 2)
      (asData (ring0Code g))) (entryAddr p.gdt 3) (asRing3 (ring0Code g))) (entryAddr p.gdt 4)
      (asData (asRing3 (ring0Code g))) := by
  have haddr : p.gdt + 8#32 = entryAddr p.gdt 1 ∧ p.gdt + 16#32 = entryAddr p.gdt 2 ∧
      p.gdt + 24#32 = entryAddr p.gdt 3 ∧
      p.gdt + 32#32 = entryAddr p.gdt 4 := ⟨rfl, rfl, rfl, rfl⟩
  obtain ⟨h1, h2, h3, h4⟩ := haddr
  refine ⟨gdtEntryAt m (entryAddr p.gdt 1), ?_⟩
  simp only [described, h1, h2, h3, h4]
  rw [gdtEntryAt_write (by decide), gdtEntryAt_write (by decide)]

theorem described_entries (m : Word → Byte) :
    Segment.decode (bytesFrom (described p m) (entryAddr p.gdt 1)) = flat 0b1010#4 0#2 ∧
      Segment.decode (bytesFrom (described p m) (entryAddr p.gdt 2)) = flat 0b0010#4 0#2 ∧
      Segment.decode (bytesFrom (described p m) (entryAddr p.gdt 3)) = flat 0b1010#4 3#2 ∧
      Segment.decode (bytesFrom (described p m) (entryAddr p.gdt 4)) = flat 0b0010#4 3#2 := by
  obtain ⟨g, hg⟩ := described_eq p m
  rw [hg]
  refine ⟨?_, ?_, ?_, ?_⟩
  · rw [decode_write_ne (by decide) (by decide) (by decide),
      decode_write_ne (by decide) (by decide) (by decide),
      decode_write_ne (by decide) (by decide) (by decide), decode_write (by decide), decode_ring0Code]
  · rw [decode_write_ne (by decide) (by decide) (by decide),
      decode_write_ne (by decide) (by decide) (by decide), decode_write (by decide), decode_ring0Data]
  · rw [decode_write_ne (by decide) (by decide) (by decide), decode_write (by decide), decode_ring3Code]
  · rw [decode_write (by decide), decode_ring3Data]

/-- The descriptors are all that is stored to. -/
theorem described_unrelated (m : Word → Byte) {y : Word}
    (hy : ∀ k < 48, p.gdt + BitVec.ofNat 32 k ≠ y) : described p m y = m y := by
  obtain ⟨g, hg⟩ := described_eq p m
  rw [hg, write_unrelated _ rfl (entryAddr_unrelated hy (by decide)),
    write_unrelated _ rfl (entryAddr_unrelated hy (by decide)),
    write_unrelated _ rfl (entryAddr_unrelated hy (by decide)),
    write_unrelated _ rfl (entryAddr_unrelated hy (by decide))]

theorem initGdt_eq (offset : Word) (s : Processor) : initGdt p offset sp s = (do
    let s ← flushGdt p.gdtDescriptor p.gdt 48#32 (setMem (described p s.cpu.mem) s)
    let s ← reloadSegments offset s
    let tss := writeTss p.tss sp (gdtEntryAt s.cpu.mem (entryAddr p.gdt 5))
    flushTss (setMem (write (write s.cpu.mem (entryAddr p.gdt 5) tss.1) p.tss tss.2) s)) := rfl

/-- The TSS does not overlap the descriptors. -/
theorem decode_write_tss (m : Word → Byte) (t : TssEntry) {i : Nat} (hi : i < 6) :
    Segment.decode (bytesFrom (write m p.tss t) (entryAddr p.gdt i)) = Segment.decode
    (bytesFrom m (entryAddr p.gdt i)) := by
  refine Segment.decode_congr fun k hk => ?_
  rw [bytesFrom, bytesFrom, entryAddr, BitVec.add_assoc, ← BitVec.ofNat_add]
  exact write_apart p.gdtTss t (by omega)

/-- The TSS is as it has been written: the mark on its descriptor is outside. -/
theorem word_markTss (m : Word → Byte) (s : Processor) (tss : TssEntry) {i : Nat}
    (hi : 4 * i + 3 < 104) : word ((setMem (write m p.tss tss) s).mark (entryAddr p.gdt 5) 2#8).cpu.mem
    (p.tss + BitVec.ofNat 32 (4 * i)) = tss.extractLsb' (32 * i) 32 := by
  have hbyte (k : Nat) (hk : k < 104) :
      ((setMem (write m p.tss tss) s).mark (entryAddr p.gdt 5) 2#8).cpu.mem
        (p.tss + BitVec.ofNat 32 k) = write m p.tss tss (p.tss + BitVec.ofNat 32 k) :=
    (Loads.mark (by decide) 2#8 _).mem _ fun j hj he => p.gdtTss k hk j hj he.symm
  refine (word_congr (hbyte (4 * i) (by omega)) fun k hk => ?_).trans (word_write (by decide) hi _ _ _)
  rw [BitVec.add_assoc, ← BitVec.ofNat_add]
  exact hbyte _ (by omega)

theorem initGdt_ok {s : Processor} (hcpl : s.cpl = 0#2) (offset : Word) :
    ∃ t, initGdt p offset sp s = .ok t ∧ Reloaded p sp t ∧ Spared p s t := by
  obtain ⟨h1, h2, h3, h4⟩ := described_entries p s.cpu.mem
  obtain ⟨s₁, hf, l⟩ := flushGdt_ok p.gdtDescriptor p.gdt 48#32 (setMem (described p s.cpu.mem) s)
  -- the operand of `lgdt` is outside the table
  have hentry (i : Nat) (hi : i < 6) : s₁.read (entryAddr p.gdt i) =
      Segment.decode (bytesFrom (described p s.cpu.mem) (entryAddr p.gdt i)) := by
    refine Segment.decode_congr fun k hk => l.mem _ fun j hj => ?_
    rw [entryAddr, BitVec.add_assoc, ← BitVec.ofNat_add]
    exact p.descriptorGdt j hj _ (by omega)
  have hstart : HoldsGdt p.gdt
      (fun i => Segment.decode (bytesFrom (described p s.cpu.mem) (entryAddr p.gdt i))) s₁ :=
    ⟨l.gdtr, fun i _ hi => hentry i hi⟩
  have hcpl₁ : s₁.cpl = 0#2 := by
    rw [Processor.cpl, l.selector]
    exact hcpl
  obtain ⟨s₂, hr, hl, hD, hregs⟩ := reloadSegments_ok hstart hcpl₁ h1 h2 offset
  have hentries := hD.entries
  let tss := writeTss p.tss sp (gdtEntryAt s₂.cpu.mem (entryAddr p.gdt 5))
  let stored := setMem (write (write s₂.cpu.mem (entryAddr p.gdt 5) tss.1) p.tss tss.2) s₂
  let s₃ := stored.withCpu (stored.cpu.set .eax 0x28#32)
  have hread (i : Nat) (hi : i < 5) : s₃.read (entryAddr p.gdt i) = s₂.read (entryAddr p.gdt i) :=
    (decode_write_tss p _ _ (by omega)).trans (decode_write_ne (by omega) (by decide) (by omega) _)
  have htss : s₃.read (entryAddr p.gdt 5) = ⟨p.tss, 104#32, 0b1001#4, true, 0#2, true, false⟩ :=
    ((decode_write_tss p _ _ (by decide)).trans (decode_write (by decide) _)).trans (decode_tss _ _ _)
  have hholds : HoldsGdt p.gdt (fun i => s₃.read (entryAddr p.gdt i)) s₃ := ⟨hD.gdtr, fun _ _ _ => rfl⟩
  have hbits (i : Nat) (hi : 4 ≤ i) : (2#8).getLsbD i = false := by
    have hbyte : ∀ i < 8, 4 ≤ i → (2#8).getLsbD i = false := by decide
    rcases Nat.lt_or_ge i 8 with hlt | hge
    · exact hbyte i hlt hi
    · exact BitVec.getLsbD_of_ge _ _ hge
  have hmark := hholds.mark (j := 5) (by decide) (by decide) hbits
  let marks := s₃.mark (entryAddr p.gdt 5) 2#8
  let t : Processor := { marks with taskSelector := 0x28#16, task := marks.read (entryAddr p.gdt 5) }
  have htask : flushTss stored = .ok t := (flushTss_eq stored).trans
    (Processor.loadTask_ok (by decide) (hholds.descriptor (by decide) (by decide))
      (congrArg Segment.system htss) (congrArg Segment.type htss) (congrArg Segment.present htss))
  have hword {i : Nat} (hi : 4 * i + 3 < 104) : word marks.cpu.mem
      (p.tss + BitVec.ofNat 32 (4 * i)) = tss.2.extractLsb' (32 * i) 32 := word_markTss p _ s₃ tss.2 hi
  have hkept (i : Nat) (h0 : 0 < i) (hi : i < 5) : marks.read (entryAddr p.gdt i) =
      s₂.read (entryAddr p.gdt i) := by
    rw [hmark.entries i h0 (by omega), marked, Function.update_of_ne (by omega), hread i hi]
  refine ⟨t, ?_, ⟨⟨hD.gdtr, ?_, ?_, ?_, ?_, ?_⟩, ?_, ?_, hregs, rfl⟩, ?_⟩
  · rw [initGdt_eq, hf]
    show (reloadSegments offset s₁ >>= _) = _
    rw [hr]
    exact htask
  · exact (hkept 1 (by decide) (by decide)).trans (hentries 1 (by decide) (by decide))
  · exact (hkept 2 (by decide) (by decide)).trans (hentries 2 (by decide) (by decide))
  · refine (hmark.entries 5 (by decide) (by decide)).trans ?_
    have hbusy : 9#4 ||| (2#8).extractLsb' 0 4 = 11#4 := by decide
    rw [marked, Function.update_self, htss]
    exact congrArg (fun type => Segment.mk p.tss 104#32 type true 0#2 true false) hbusy
  · exact (hword (i := 1) (by decide)).trans (writeTss_words p sp _).1
  · exact (hword (i := 2) (by decide)).trans (writeTss_words p sp _).2
  · exact (hkept 3 (by decide) (by decide)).trans ((hentries 3 (by decide) (by decide)).trans h3)
  · exact (hkept 4 (by decide) (by decide)).trans ((hentries 4 (by decide) (by decide)).trans h4)
  · refine ⟨fun r hr => ?_, fun y hgdt htss hlgdt => ?_⟩
    · have hne : r ≠ .eax ∧ r ≠ .ebx := by
        refine ⟨?_, ?_⟩ <;> rintro rfl <;> simp at hr
      show Function.update s₂.cpu.regs _ _ r = _
      rw [Function.update_of_ne hne.1, hl.regs]
      exact (set_regs hne.1 _ _).trans (l.regs r hne.1 hne.2)
    have hentry := entryAddr_unrelated hgdt (i := 5) (by decide)
    refine ((Loads.mark (by decide) 2#8 s₃).mem y hgdt).trans ?_
    refine (write_unrelated _ rfl htss).trans ((write_unrelated _ rfl hentry).trans ?_)
    exact (hl.mem y hgdt).trans ((l.mem y hlgdt).trans (described_unrelated p _ hgdt))

end Init

end PekOS.Segmentation
