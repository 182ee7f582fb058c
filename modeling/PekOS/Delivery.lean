import PekOS.Library.Runs
import PekOS.Segmentation

/-! idt.c on the processor that `init_gdt` leaves: where interrupts go, whatever
the kernel and its programs have done since. -/

namespace PekOS.Segmentation

open BitFields I386 LittleEndian

def idtEntryAt (m : Word → Byte) (idt : Word) (vector : Byte) : IdtEntry :=
  quad m (idt + BitVec.ofNat 32 (8 * vector.toNat))

/-- The memory with the table in it. -/
def storeIdt (idt : Word) (gates : Byte → IdtEntry) (m : Word → Byte) : Word → Byte := fun y =>
  if (y - idt).toNat < 2048 then
    (gates (BitVec.ofNat 8 ((y - idt).toNat / 8))).extractLsb' (8 * ((y - idt).toNat % 8)) 8
  else m y

/-- `init_idt`, with `lidt` and `sti`. -/
def enableInterrupts (p : Placement) (isrStubTable : Nat → Word) (idtr : idtrStruct.Value)
    (s : Processor) : Processor :=
  let r := initIdt p.idt isrStubTable idtr (idtEntryAt s.cpu.mem p.idt)
  let s := setMem (storeIdt p.idt r.2 s.cpu.mem) s
  { s with
    cpu := { s.cpu with eflags := s.cpu.eflags ||| 0x200#32 }
    idtr := ⟨idtrStruct.field .base r.1, idtrStruct.field .limit r.1⟩ }

/-- The bytes that interrupts depend on. -/
inductive Placement.Table (p : Placement) : Word → Prop
  | gdt (k : Nat) (hlow : 8 ≤ k) (hk : k < 24) : p.Table (p.gdt + BitVec.ofNat 32 k)
  | tss (k : Nat) (hk : k < 104) : p.Table (p.tss + BitVec.ofNat 32 k)
  | idt (k : Nat) (hk : k < 2048) : p.Table (p.idt + BitVec.ofNat 32 k)

/-- Code that leaves the tables and the registers for them alone. -/
structure Keeps (p : Placement) (s t : Processor) : Prop where
  gdtr : t.gdtr = s.gdtr
  idtr : t.idtr = s.idtr
  task : t.task = s.task
  mem : ∀ y, p.Table y → t.cpu.mem y = s.cpu.mem y

/-- The stack that an interrupt uses. -/
def frameTop (p : Placement) (s : Processor) : Word :=
  if s.cpl = 0#2 then s.cpu.regs .esp else word s.cpu.mem (p.tss + 4#32)

inductive Event
  | program
  | setKernelStack (stack : Word)
  | interrupt (vector : Byte)

inductive Step (p : Placement) : Processor → Event → Processor → Prop
  | program {s t : Processor} (h : Keeps p s t) : Step p s .program t
  | setKernelStack {s : Processor} (stack : Word) :
    Step p s (.setKernelStack stack) (setKernelStack p stack s)
  | interrupt {s t : Processor} {vector : Byte} {eip next : Word} {error : Option Word}
    (hroom : ∀ y, p.Table y → Processor.Clear (frameTop p s) 24 y)
    (h : s.deliver vector eip error = .ok (next, t)) :
    Step p s (.interrupt vector) t

/-- The stack for the kernel, once a run is over. -/
def kernelStack (sp : Word) (es : List Event) : Word :=
  es.foldl (fun sp e => match e with
    | .setKernelStack stack => stack
    | _ => sp) sp

/-- A gate to a stub. -/
def gateTo (stub : Word) : Gate := ⟨stub, 0x08#16, 0b01110#5, 0#2, true⟩

/-- What interrupts find. -/
structure Protected (p : Placement) (stubs : Nat → Word) (sp : Word) (s : Processor) : Prop
    extends Segmented p sp s where
  idtr : s.idtr = ⟨p.idt, 2047#16⟩
  gates : ∀ vector : Byte, Gate.decode
    (bytesFrom s.cpu.mem (p.idt + BitVec.ofNat 32 (vector.toNat * 8))) =
    gateTo (stubs vector.toNat)

/-- The state a stub is entered in. -/
def entered (sp : Word) (s : Processor) (eip : Word) (error : Option Word) : Processor :=
  if s.cpl = 0#2 then
    { s with
      cpu := s.cpu.interrupt eip ((s.selector .cs).setWidth 32) error
      selector := Function.update s.selector .cs 0x08#16
      segment := Function.update s.segment .cs (flat 0b1011#4 0#2) }
  else
    { s with
      cpu := Processor.interruptInner s.cpu sp eip (s.selector .ss) (s.selector .cs) error
      selector := Function.update (Function.update s.selector .ss 0x10#16) .cs 0x08#16
      segment := Function.update (Function.update s.segment .ss (flat 0b0011#4 0#2)) .cs
        (flat 0b1011#4 0#2) }

section Gates

theorem gate_decode {g : IdtEntry} {isr : Word} (h : GateDecodes isr (X86.bytesOf g)) :
    Gate.decode (X86.bytesOf g) = gateTo isr := by
  have htype := h.type
  rw [X86.gateType, Prod.mk.injEq, Prod.mk.injEq] at htype
  rw [Gate.decode, gateTo, htype.1, htype.2.1, htype.2.2, Gate.mk.injEq]
  exact ⟨h.offset, h.selector, rfl, rfl, rfl⟩

theorem bytesFrom_storeIdt (idt : Word) (gates : Byte → IdtEntry) (m : Word → Byte) (vector : Byte)
    {k : Nat} (hk : k < 8) :
    bytesFrom (storeIdt idt gates m) (idt + BitVec.ofNat 32 (vector.toNat * 8)) k =
      X86.bytesOf (gates vector) k := by
  have hv := vector.isLt
  have hdist : (idt + BitVec.ofNat 32 (vector.toNat * 8) + BitVec.ofNat 32 k - idt).toNat =
      vector.toNat * 8 + k := by
    rw [BitVec.add_assoc, ← BitVec.ofNat_add]
    exact add_sub_toNat idt (by omega)
  have hdiv : (vector.toNat * 8 + k) / 8 = vector.toNat := by omega
  have hmod : (vector.toNat * 8 + k) % 8 = k := by omega
  rw [bytesFrom, storeIdt, hdist, if_pos (by omega), hdiv, hmod, BitVec.ofNat_toNat, BitVec.setWidth_eq]
  rfl

end Gates

section Runs

variable {p : Placement} {stubs : Nat → Word} {sp : Word} {s t : Processor}

theorem Keeps.read (h : Keeps p s t) {i : Nat} (h0 : 0 < i) (hi : i < 3) :
    t.read (entryAddr p.gdt i) = s.read (entryAddr p.gdt i) := by
  refine Segment.decode_congr fun k hk => ?_
  rw [bytesFrom, bytesFrom, entryAddr, BitVec.add_assoc, ← BitVec.ofNat_add]
  exact h.mem _ (.gdt _ (by omega) (by omega))

theorem Keeps.word (h : Keeps p s t) {i : Nat} (hi : i + 3 < 104) :
    word t.cpu.mem (p.tss + BitVec.ofNat 32 i) = word s.cpu.mem (p.tss + BitVec.ofNat 32 i) := by
  refine word_congr (h.mem _ (.tss i (by omega))) fun k hk => ?_
  rw [BitVec.add_assoc, ← BitVec.ofNat_add]
  exact h.mem _ (.tss _ (by omega))

theorem Keeps.gate (h : Keeps p s t) (vector : Byte) :
    Gate.decode (bytesFrom t.cpu.mem (p.idt + BitVec.ofNat 32 (vector.toNat * 8))) =
      Gate.decode (bytesFrom s.cpu.mem (p.idt + BitVec.ofNat 32 (vector.toNat * 8))) := by
  have hv := vector.isLt
  refine Gate.decode_congr fun k hk => ?_
  rw [bytesFrom, bytesFrom, BitVec.add_assoc, ← BitVec.ofNat_add]
  exact h.mem _ (.idt _ (by omega))

theorem Protected.keeps (h : Protected p stubs sp s) (hk : Keeps p s t) : Protected p stubs sp t where
  gdtr := hk.gdtr.trans h.gdtr
  code := (hk.read (by decide) (by decide)).trans h.code
  data := (hk.read (by decide) (by decide)).trans h.data
  task := hk.task.trans h.task
  esp0 := (hk.word (i := 4) (by decide)).trans h.esp0
  ss0 := (hk.word (i := 8) (by decide)).trans h.ss0
  idtr := hk.idtr.trans h.idtr
  gates := fun vector => (hk.gate vector).trans (h.gates vector)

/-- Only four bytes of the TSS change. -/
theorem setKernelStack_mem (stack : Word) {y : Word} (hy : ∀ k < 4, p.tss + BitVec.ofNat 32 (4 + k) ≠ y) :
    (setKernelStack p stack s).cpu.mem y = s.cpu.mem y := by
  refine write_unrelated (a := p.tss + 4#32) stack rfl fun k hk => ?_
  rw [show (4#32 : Word) = BitVec.ofNat 32 4 from rfl, BitVec.add_assoc, ← BitVec.ofNat_add]
  exact hy k hk

theorem Protected.setKernelStack (h : Protected p stubs sp s) (stack : Word) :
    Protected p stubs stack (setKernelStack p stack s) := by
  have hread (i : Nat) (hi : i < 6) : (Segmentation.setKernelStack p stack s).read (entryAddr p.gdt i) =
      s.read (entryAddr p.gdt i) := by
    refine Segment.decode_congr fun k hk => setKernelStack_mem stack fun j hj he => ?_
    rw [entryAddr, BitVec.add_assoc, ← BitVec.ofNat_add] at he
    exact p.gdtTss _ (by omega) _ (by omega) he
  have hss (k : Nat) (hk : k < 4) :
      (Segmentation.setKernelStack p stack s).cpu.mem (p.tss + BitVec.ofNat 32 (8 + k)) =
      s.cpu.mem (p.tss + BitVec.ofNat 32 (8 + k)) := by
    refine setKernelStack_mem stack fun j hj he => ?_
    rw [BitVec.add_right_inj, ← BitVec.toNat_inj, BitVec.toNat_ofNat, BitVec.toNat_ofNat] at he
    omega
  refine ⟨⟨h.gdtr, ?_, ?_, h.task, word_put (by decide) _ _ _, ?_⟩, h.idtr, fun vector => ?_⟩
  · exact (hread 1 (by decide)).trans h.code
  · exact (hread 2 (by decide)).trans h.data
  · refine (word_congr (hss 0 (by decide)) fun k hk => ?_).trans h.ss0
    rw [show (8#32 : Word) = BitVec.ofNat 32 8 from rfl, BitVec.add_assoc, ← BitVec.ofNat_add]
    exact hss k hk
  · have hv := vector.isLt
    refine (Gate.decode_congr fun k hk => setKernelStack_mem stack fun j hj he => ?_).trans
      (h.gates vector)
    rw [BitVec.add_assoc, ← BitVec.ofNat_add] at he
    exact p.tssIdt _ (by omega) _ (by omega) he.symm

theorem Protected.descriptor (h : Protected p stubs sp s) {selector : BitVec 16}
    (hs : selector.getLsbD 2 = false) (hlt : selector.toNat / 8 < 6) :
    s.descriptor selector = some (entryAddr p.gdt (selector.toNat / 8)) :=
  HoldsGdt.descriptor (D := fun i => s.read (entryAddr p.gdt i)) ⟨h.gdtr, fun _ _ _ => rfl⟩ hs hlt

theorem Protected.deliver_eq (h : Protected p stubs sp s) (vector : Byte) (eip : Word)
    (error : Option Word) :
    s.deliver vector eip error = s.enterGate (gateTo (stubs vector.toNat)) eip error := by
  have hv := vector.isLt
  have hlimit : ¬ (2047#16).toNat < vector.toNat * 8 + 7 := by
    rw [BitVec.toNat_ofNat]
    omega
  rw [Processor.deliver, h.idtr]
  dsimp only
  rw [h.gates, if_neg hlimit]
  rfl

theorem le_flat (type : BitVec 4) (dpl : BitVec 2) (a : Word) : a ≤ (flat type dpl).limit := by
  have ha := a.isLt
  have hlimit : (flat type dpl).limit.toNat = 0xFFFFFFFF := rfl
  rw [BitVec.le_def, hlimit]
  omega

/-- From the kernel's own code the frame goes on its stack. -/
theorem Protected.deliver_ring0 (h : Protected p stubs sp s) (hcpl : s.cpl = 0#2) (vector : Byte)
    (eip : Word) (error : Option Word) :
    s.deliver vector eip error = .ok (stubs vector.toNat, entered sp s eip error) := by
  have hdescriptor : s.descriptor 0x08#16 = some (entryAddr p.gdt 1) :=
    h.descriptor (by decide) (by decide)
  have hselector : entry (gateTo (stubs vector.toNat)).selector ||| (0#2).setWidth 16 = 0x08#16 :=
    show entry 0x08#16 ||| (0#2).setWidth 16 = 0x08#16 by decide
  have haccessed : (s.read (entryAddr p.gdt 1)).type.getLsbD 0 = true := by
    rw [h.code]
    rfl
  rw [h.deliver_eq, Processor.enterGate_same (show entry 0x08#16 ≠ 0#16 by decide) hdescriptor ?_ ?_
    ?_ ?_, Processor.install_accessed haccessed, h.code, entered, if_pos hcpl, hcpl, hselector]
  · rfl
  · rw [h.code]
    rfl
  · rw [h.code, hcpl]
    rfl
  · rw [h.code]
    rfl
  · rw [h.code]
    exact le_flat _ _ _

/-- From an outer ring it goes on the stack of the TSS. -/
theorem Protected.deliver_outer (h : Protected p stubs sp s) (hcpl : s.cpl ≠ 0#2) (vector : Byte)
    (eip : Word) (error : Option Word) :
    s.deliver vector eip error = .ok (stubs vector.toNat, entered sp s eip error) := by
  have hdescriptor : s.descriptor 0x08#16 = some (entryAddr p.gdt 1) :=
    h.descriptor (by decide) (by decide)
  have hdata : s.descriptor 0x10#16 = some (entryAddr p.gdt 2) := h.descriptor (by decide) (by decide)
  have hdpl : (s.read (entryAddr p.gdt 1)).dpl = 0#2 := by
    rw [h.code]
    rfl
  have hselector : entry (gateTo (stubs vector.toNat)).selector ||| (0#2).setWidth 16 = 0x08#16 :=
    show entry 0x08#16 ||| (0#2).setWidth 16 = 0x08#16 by decide
  have haccessed : (s.read (entryAddr p.gdt 2)).type.getLsbD 0 = true := by
    rw [h.data]
    rfl
  let t : Processor := { s with
    selector := Function.update s.selector .ss 0x10#16
    segment := Function.update s.segment .ss (flat 0b0011#4 0#2) }
  have hstack : s.loadStackAt 0#2 .taskState 0x10#16 = .ok t := by
    rw [Processor.loadStackAt_ok (by decide) hdata (by decide) ?_ ?_ ?_ ?_,
      Processor.install_accessed haccessed, h.data]
    all_goals
      rw [h.data]
      rfl
  have hcode : t.read (entryAddr p.gdt 1) = flat 0b1011#4 0#2 := h.code
  have haccessed' : (t.read (entryAddr p.gdt 1)).type.getLsbD 0 = true := by
    rw [hcode]
    rfl
  have hss : (word s.cpu.mem (s.task.base + BitVec.ofNat 32 (8 * (0#2).toNat + 8))).setWidth 16 =
      0x10#16 := by
    rw [h.task]
    exact congrArg (BitVec.setWidth 16) h.ss0
  have hesp : word s.cpu.mem (s.task.base + BitVec.ofNat 32 (8 * (0#2).toNat + 4)) = sp := by
    rw [h.task]
    exact h.esp0
  rw [h.deliver_eq, Processor.enterGate_inner (t := t) (show entry 0x08#16 ≠ 0#16 by decide)
    hdescriptor ?_ ?_ ?_ ?_ ?_
    ?_ ?_, hdpl, Processor.install_accessed haccessed', hcode, entered, if_neg hcpl, hselector, hesp]
  · rfl
  · rw [h.code]
    rfl
  · rw [h.code]
    rfl
  · rw [hdpl]
    have hne : ∀ l : BitVec 2, l ≠ 0#2 → 0#2 < l := by decide
    exact hne _ hcpl
  · rw [h.code]
    rfl
  · rw [h.code]
    exact le_flat _ _ _
  · rw [hdpl, h.task]
    exact show 8 * (0#2).toNat + 9 ≤ (104#32).toNat by decide
  · rw [hdpl, hss]
    exact hstack

theorem Protected.deliver (h : Protected p stubs sp s) (vector : Byte) (eip : Word)
    (error : Option Word) :
    s.deliver vector eip error = .ok (stubs vector.toNat, entered sp s eip error) := by
  by_cases hcpl : s.cpl = 0#2
  · exact h.deliver_ring0 hcpl vector eip error
  · exact h.deliver_outer hcpl vector eip error

/-- A frame on a stack away from the tables. -/
theorem Protected.entered_keeps (h : Protected p stubs sp s)
    (hroom : ∀ y, p.Table y → Processor.Clear (frameTop p s) 24 y) (eip : Word)
    (error : Option Word) : Keeps p s (entered sp s eip error) := by
  by_cases hcpl : s.cpl = 0#2
  · rw [entered, if_pos hcpl]
    rw [frameTop, if_pos hcpl] at hroom
    exact ⟨rfl, rfl, rfl, fun y hy => Processor.interrupt_mem ((hroom y hy).mono (by decide)) _ _ _⟩
  · rw [entered, if_neg hcpl]
    rw [frameTop, if_neg hcpl, h.esp0] at hroom
    exact ⟨rfl, rfl, rfl, fun y hy => Processor.interruptInner_mem (hroom y hy) _ _ _ _⟩

theorem Protected.step (h : Protected p stubs sp s) {e : Event} (hs : Step p s e t) :
    Protected p stubs (kernelStack sp [e]) t := by
  cases hs with
  | program hk => exact h.keeps hk
  | setKernelStack stack => exact h.setKernelStack stack
  | interrupt hroom hd =>
    rw [h.deliver] at hd
    obtain ⟨-, rfl⟩ : _ ∧ _ = t := by simpa using hd
    exact h.keeps (h.entered_keeps hroom _ _)

theorem Protected.run (h : Protected p stubs sp s) {es : List Event} (hr : Labelled.Run (Step p) s es t) :
    Protected p stubs (kernelStack sp es) t := by
  refine hr.inv_history (I := fun es t => Protected p stubs (kernelStack sp es) t) h fun es t e u h
    hs => ?_
  have hsnoc : kernelStack sp (es ++ [e]) = kernelStack (kernelStack sp es) [e] := List.foldl_append
  rw [hsnoc]
  exact h.step hs

/-- `init_idt`, behind `init_gdt`. -/
theorem Segmented.enableInterrupts (h : Segmented p sp s) (idtr : idtrStruct.Value) :
    Protected p stubs sp (enableInterrupts p stubs idtr s) := by
  have hapart {q : Word} {n : Nat} (ha : Apart p.idt 2048 q n) {k : Nat} (hk : k < n) :
      (Segmentation.enableInterrupts p stubs idtr s).cpu.mem (q + BitVec.ofNat 32 k) = s.cpu.mem
      (q + BitVec.ofNat 32 k) := by
    refine if_neg fun hlt => ha _ hlt k hk ?_
    rw [BitVec.ofNat_toNat, BitVec.setWidth_eq, BitVec.add_comm, BitVec.sub_add_cancel]
  have hread (i : Nat) (hi : i < 6) :
      (Segmentation.enableInterrupts p stubs idtr s).read (entryAddr p.gdt i) =
      s.read (entryAddr p.gdt i) := by
    refine Segment.decode_congr fun k hk => ?_
    rw [bytesFrom, bytesFrom, entryAddr, BitVec.add_assoc, ← BitVec.ofNat_add]
    exact hapart p.gdtIdt (by omega)
  have hword (i : Nat) (hi : i + 3 < 104) : word (Segmentation.enableInterrupts p stubs idtr s).cpu.mem
      (p.tss + BitVec.ofNat 32 i) = word s.cpu.mem (p.tss + BitVec.ofNat 32 i) := by
    refine word_congr (hapart p.tssIdt (by omega)) fun k hk => ?_
    rw [BitVec.add_assoc, ← BitVec.ofNat_add]
    exact hapart p.tssIdt (by omega)
  obtain ⟨hbase, hlimit⟩ := initIdt_limit p.idt stubs idtr (idtEntryAt s.cpu.mem p.idt)
  refine ⟨⟨h.gdtr, ?_, ?_, h.task, ?_, ?_⟩, ?_, fun vector => ?_⟩
  · exact (hread 1 (by decide)).trans h.code
  · exact (hread 2 (by decide)).trans h.data
  · exact (hword 4 (by decide)).trans h.esp0
  · exact (hword 8 (by decide)).trans h.ss0
  · refine congrArg₂ TableRegister.mk hbase (BitVec.eq_of_toNat_eq ?_)
    exact Nat.succ.inj hlimit
  · refine (Gate.decode_congr fun k hk => bytesFrom_storeIdt p.idt _ s.cpu.mem vector hk).trans
      (gate_decode ?_)
    rw [initIdt_gates]
    exact gateDecodes_initGates stubs _ vector

/-- `init_gdt` and `init_idt`, on whatever the tables hold:
the kernel's segments are loaded and those of ring 3 described; and no interrupt raises an
exception ever after. Each one is in its stub, in ring 0 and with its frame on the stack it is
meant for: the current one in ring 0, otherwise the one set last. -/
theorem interrupts_delivered (p : Placement) (stubs : Nat → Word) (offset sp : Word)
    (idtr : idtrStruct.Value) {s : Processor} (hcpl : s.cpl = 0#2) :
    ∃ t, initGdt p offset sp s = .ok t ∧ Reloaded p sp t ∧ Spared p s t ∧
      ∀ es u, Labelled.Run (Step p) (enableInterrupts p stubs idtr t) es u →
      ∀ (vector : Byte) (eip : Word)
        (error : Option Word), u.deliver vector eip error =
          .ok (stubs vector.toNat, entered (kernelStack sp es) u eip error) := by
  obtain ⟨t, ht, hr, hu⟩ := initGdt_ok p sp hcpl offset
  refine ⟨t, ht, hr, hu, fun es u hrun vector eip error => ?_⟩
  exact ((hr.toSegmented.enableInterrupts idtr).run hrun).deliver vector eip error

end Runs

section Loader

def examplePlacement : Placement where
  gdt := 0xC0112040#32
  tss := 0xC0112080#32
  idt := 0xC0113000#32
  gdtDescriptor := 0xC0102000#32
  gdtTss := (apart_of_le (by decide) (by decide)).symm
  gdtIdt := (apart_of_le (by decide) (by decide)).symm
  tssIdt := (apart_of_le (by decide) (by decide)).symm
  descriptorGdt := apart_of_le (by decide) (by decide)

/-- The processor as a boot loader leaves it, with a table of its own. -/
def loaded : Processor where
  cpu := ⟨fun r => if r = .esp then 0xC0110000#32 else 0#32, 0x2#32, 0#32, fun _ => 0#8⟩
  cr0 := 0x80000011#32
  cr3 := 0x101000#32
  gdtr := ⟨0x8000#32, 0x27#16⟩
  idtr := ⟨0#32, 0#16⟩
  selector := fun r => if r = .cs then 0x10#16 else 0x18#16
  segment := fun r => if r = .cs then flat 0b1011#4 0#2 else flat 0b0011#4 0#2
  taskSelector := 0#16
  task := .unusable

theorem interrupts_delivered_loaded :
    ∃ t, initGdt examplePlacement 0xC0100123#32 0xC0110000#32 loaded = .ok t ∧
    Reloaded examplePlacement 0xC0110000#32 t ∧ Spared examplePlacement loaded t ∧
      ∀ es u, Labelled.Run (Step examplePlacement) (enableInterrupts examplePlacement (fun v =>
        0xC0101000#32 + 16#32 * BitVec.ofNat 32 v) 0 t) es u →
          ∀ (vector : Byte) (eip : Word) (error : Option Word), u.deliver vector eip error =
            .ok (0xC0101000#32 + 16#32 * BitVec.ofNat 32 vector.toNat,
              entered (kernelStack 0xC0110000#32 es) u eip error) :=
  interrupts_delivered examplePlacement _ _ _ 0 (by decide)

end Loader

end PekOS.Segmentation
