import PekOS.Delivery
import PekOS.ExceptionCaller

/-! Interrupts of the kernel, from the gate through the stub and its handler to
the `iret`. -/

namespace PekOS.Segmentation

open I386 LittleEndian ExceptionCaller

section Stubs

variable {callee : Handler → Cpu → Cpu} {vector : Nat}

/-- The stubs that return. -/
theorem exists_stub (hvector : vector = 14 ∨ 32 ≤ vector ∧ vector < 256) :
    ∃ code, isrStubTable vector = some code ∧
    (code = isrStub14 ∨ code = isrStub48 ∨ ∃ handler num, code = isrPushing handler num) := by
  by_cases hother : 34 ≤ vector ∧ vector < 48 ∨ 51 ≤ vector ∧ vector < 256
  · exact ⟨_, isrStubTable_isrOther hother, Or.inr (Or.inr ⟨_, _, rfl⟩)⟩
  · obtain rfl | rfl | rfl | rfl | rfl | rfl : vector = 14 ∨ vector = 32 ∨ vector = 33 ∨
        vector = 48 ∨ vector = 49 ∨
      vector = 50 := by omega
    · exact ⟨_, rfl, Or.inl rfl⟩
    · exact ⟨_, rfl, Or.inr (Or.inr ⟨_, _, rfl⟩)⟩
    · exact ⟨_, rfl, Or.inr (Or.inr ⟨_, _, rfl⟩)⟩
    · exact ⟨_, rfl, Or.inr (Or.inl rfl)⟩
    · exact ⟨_, rfl, Or.inr (Or.inr ⟨_, _, rfl⟩)⟩
    · exact ⟨_, rfl, Or.inr (Or.inr ⟨_, _, rfl⟩)⟩

/-- Stubs write below the top of the stack only. -/
theorem stub_mem (hvector : vector = 14 ∨ 32 ≤ vector ∧ vector < 256) {code : StubCode}
    (hcode : isrStubTable vector = some code) {next : Word} {s t : Cpu} {calls : List (Handler × Cpu)}
    (hrun : run callee next code s = some (calls, t)) {y : Word}
    (hclear : Processor.Clear (s.regs .esp) 44 y)
    (hkeeps : ∀ handler c, (callee handler c).mem y = c.mem y) : t.mem y = s.mem y := by
  have hsaved : s.pushal.mem y = s.mem y := Processor.pushes_mem (hclear.mono (show 32 ≤ 44 by decide))
  have htop : Processor.Clear (s.pushal.regs .esp) 12 y := by
    rw [pushal_esp]
    exact hclear.sub
  obtain ⟨code', hcode', hkind⟩ := exists_stub hvector
  obtain rfl : code' = code := Option.some.inj (hcode'.symm.trans hcode)
  rcases hkind with rfl | rfl | ⟨handler, num, rfl⟩
  · let u := s.pushal.set .eax s.cr2
    let args := [word s.pushal.mem (s.pushal.regs .esp + 32#32), s.cr2]
    have hset : Processor.Clear (u.regs .esp) 12 y := by
      rw [set_regs (by decide)]
      exact htop
    have hfinal : some ([(Handler.pageFaultHandler, u.enter args next)],
        (((callee .pageFaultHandler (u.enter args next)).addEsp 8#32).popal).addEsp 4#32) =
        some (calls, t) := hrun
    obtain ⟨-, rfl⟩ := Prod.mk.inj (Option.some.inj hfinal)
    exact (hkeeps _ _).trans ((Processor.enter_mem args next hset).trans hsaved)
  · have hfinal : some ([(Handler.systemTimerInterrupt, s.pushal.enter [] next)],
        (callee .systemTimerInterrupt (s.pushal.enter [] next)).popal) = some (calls, t) := by
      rw [← hrun, enter_nil]
      rfl
    obtain ⟨-, rfl⟩ := Prod.mk.inj (Option.some.inj hfinal)
    exact (hkeeps _ _).trans ((Processor.enter_mem [] next (htop.mono (by decide))).trans hsaved)
  · let args := [BitVec.ofNat 32 num]
    have hfinal : some ([(handler, s.pushal.enter args next)],
        ((callee handler (s.pushal.enter args next)).popl .eax).popal) = some (calls, t) := hrun
    obtain ⟨-, rfl⟩ := Prod.mk.inj (Option.some.inj hfinal)
    exact (hkeeps _ _).trans
      ((Processor.enter_mem args next (htop.mono (show 8 ≤ 12 by decide))).trans hsaved)

/-- They come to the `iret` with the registers of the interrupted program,
and the frame on the stack. -/
theorem stub_returns (hvector : vector = 14 ∨ 32 ≤ vector ∧ vector < 256) {c : Cpu}
    (eip cs error next : Word) {stack : List Word} (hstack : Holds c stack)
    (hroom : 4 * (stack.length + 15) ≤ 2 ^ 32)
    (hobeys : Obeys callee (called vector c.cr2 error).1 (called vector c.cr2 error).2.length
      (4 * (8 + ((errorCode vector error).toList ++ eip :: cs :: c.eflags :: stack).length))) :
    ∃ code calls t, isrStubTable vector = some code ∧
      run callee next code (c.interrupt eip cs (errorCode vector error)) = some (calls, t) ∧
      t.regs = Function.update c.regs .esp (c.regs .esp - 12#32) ∧
      Holds t (eip :: cs :: c.eflags :: stack) := by
  have hupdate {t : Cpu} (hesp : t.regs .esp = c.regs .esp - 12#32)
      (hregs : ∀ r, r ≠ .esp → t.regs r = c.regs r) :
      t.regs = Function.update c.regs .esp (c.regs .esp - 12#32) :=
    Function.eq_update_iff.mpr ⟨hesp, hregs⟩
  rcases hvector with rfl | hvector
  · have hentered := hstack.interrupt eip cs (some error) (by omega)
    have hframe : 4 * ((eip :: cs :: c.eflags :: stack).length + 12) ≤ 2 ^ 32 := by
      simp only [List.length_cons]
      omega
    obtain ⟨_, t, hrun, -, hregs, htop, ht⟩ := isrStub14_calls next hentered hframe hobeys
    refine ⟨_, _, t, rfl, hrun, hupdate ?_ fun r hr => ?_, ht⟩
    · rw [htop, interrupt_esp]
      show c.regs .esp - 16#32 + 4#32 = _
      grind
    · rw [hregs r hr, interrupt_regs hr]
  · have herror : errorCode vector error = none := if_neg (by omega)
    rw [herror] at hobeys ⊢
    have hentered := hstack.interrupt eip cs none (by omega)
    have hframe : 4 * ((eip :: cs :: c.eflags :: stack).length + 10) ≤ 2 ^ 32 := by
      simp only [List.length_cons]
      omega
    obtain ⟨code, hcode, _, t, hrun, -, hregs, ht⟩ :=
      calls_of_le hvector c.cr2 error next hentered hframe hobeys
    refine ⟨code, _, t, hcode, hrun, hupdate ?_ fun r hr => ?_, ht⟩
    · rw [hregs, interrupt_esp]
      rfl
    · rw [hregs, interrupt_regs hr]

end Stubs

/-- An interrupt, its stub with the handler that it calls, and the `iret`;
`next` is the address behind the call. -/
def Resumes (stubs : Nat → Word) (callee : Handler → Cpu → Cpu) (next : Word) (vector : Byte) (eip : Word)
    (error : Option Word) (s t : Processor) : Prop :=
  ∃ entry code calls c, s.deliver vector eip error = .ok (stubs vector.toNat, entry) ∧
    isrStubTable vector.toNat = some code ∧ run callee next code entry.cpu = some (calls, c) ∧
    ({ entry with cpu := c } : Processor).iret = .ok (eip, t)

section Resumes

variable {p : Placement} {stubs : Nat → Word} {sp : Word} {s : Processor} {callee : Handler → Cpu → Cpu}

/-- The kernel goes on with the registers, the flags,
the segments and the stack it was interrupted with. -/
theorem Protected.resumes (h : Protected p stubs sp s) (hcs : s.selector .cs = 0x08#16)
    (hsegment : s.segment .cs = flat 0b1011#4 0#2) {vector : Byte}
    (hvector : vector.toNat = 14 ∨ 32 ≤ vector.toNat) (eip error next : Word) {stack : List Word}
    (hstack : Holds s.cpu stack) (hlength : 4 * (stack.length + 15) ≤ 2 ^ 32)
    (hroom : ∀ y, p.Table y → Processor.Clear (s.cpu.regs .esp) 64 y)
    (hobeys : Obeys callee (called vector.toNat s.cpu.cr2 error).1
      (called vector.toNat s.cpu.cr2 error).2.length
      (4 * (8 + ((errorCode vector.toNat error).toList ++ eip :: 8#32 :: s.cpu.eflags :: stack).length)))
    (hkeeps : ∀ y, p.Table y → ∀ handler c, (callee handler c).mem y = c.mem y) :
    ∃ m cr2, Resumes stubs callee next vector eip (errorCode vector.toNat error) s
        { s with cpu := { s.cpu with mem := m, cr2 := cr2 } } ∧
      Holds { s.cpu with mem := m } stack ∧
      ∀ y, Processor.Clear (s.cpu.regs .esp) 64 y → (∀ handler c, (callee handler c).mem y = c.mem y) →
        m y = s.cpu.mem y := by
  have hlt := vector.isLt
  have hreturns : vector.toNat = 14 ∨ 32 ≤ vector.toNat ∧ vector.toNat < 256 := by omega
  have hcpl := cpl_of_selector hcs
  have hselector : Function.update s.selector .cs 0x08#16 = s.selector := by
    rw [← hcs, Function.update_eq_self]
  have hsegments : Function.update s.segment .cs (flat 0b1011#4 0#2) = s.segment := by
    rw [← hsegment, Function.update_eq_self]
  have hentered : entered sp s eip (errorCode vector.toNat error) =
      { s with cpu := s.cpu.interrupt eip 8#32 (errorCode vector.toNat error) } := by
    rw [entered, if_pos hcpl, hselector, hsegments, hcs]
    rfl
  obtain ⟨code, calls, c, hcode, hrun, hregs, hholds⟩ :=
    stub_returns hreturns eip 8#32 error next hstack hlength hobeys
  have hmem (y : Word) (hy : Processor.Clear (s.cpu.regs .esp) 64 y)
      (hk : ∀ handler c, (callee handler c).mem y = c.mem y) : c.mem y = s.cpu.mem y := by
    have hframe : (errorCode vector.toNat error).toList.length ≤ 1 := by
      rw [errorCode]
      split <;> simp
    have hbelow : Processor.Clear
        ((s.cpu.interrupt eip 8#32 (errorCode vector.toNat error)).regs .esp) 44 y := by
      rw [interrupt_esp]
      exact Processor.Clear.sub (hy.mono (by omega))
    exact (stub_mem hreturns hcode hrun hbelow hk).trans
      (Processor.interrupt_mem (hy.mono (by decide)) _ _ _)
  have hu : Protected p stubs sp { s with cpu := c } :=
    h.keeps ⟨rfl, rfl, rfl, fun y hy => hmem y (hroom y hy) (hkeeps y hy)⟩
  have hcode' := hu.code
  have haccessed : (({ s with cpu := c } : Processor).read (entryAddr p.gdt 1)).type.getLsbD 0 =
    true := by
    rw [hcode']
    rfl
  have hdescriptor : ({ s with cpu := c } : Processor).descriptor 0x08#16 = some (entryAddr p.gdt 1) :=
    hu.descriptor (by decide) (by decide)
  have hrestored : ({ c.addEsp 12#32 with eflags := s.cpu.eflags } : Cpu) =
      { s.cpu with mem := c.mem, cr2 := c.cr2 } := by
    have hpopped : (c.addEsp 12#32).regs = s.cpu.regs := by
      rw [Cpu.addEsp, Cpu.set, hregs, Function.update_idem, Function.update_self, BitVec.sub_add_cancel,
        Function.update_eq_self]
    exact congrArg (fun regs => Cpu.mk regs s.cpu.eflags c.cr2 c.mem) hpopped
  have hiret : ({ s with cpu := c } : Processor).iret =
      .ok (eip, { s with cpu := { s.cpu with mem := c.mem, cr2 := c.cr2 } }) := by
    rw [Processor.iret_same (s := { s with cpu := c }) hholds
      (show (8#32).setWidth 16 = 0x08#16 by decide) (by decide) hdescriptor ?_ ?_ ?_ ?_ ?_ ?_,
      Processor.install_accessed haccessed, hcode', hselector, hsegments, hrestored]
    · rw [hcode']
      rfl
    · rw [hcode']
      rfl
    · rw [hcode']
      decide
    · exact hcpl.symm
    · rw [hcode']
      rfl
    · rw [hcode']
      exact le_flat _ _ _
  let entry : Processor := { s with cpu := s.cpu.interrupt eip 8#32 (errorCode vector.toNat error) }
  refine ⟨c.mem, c.cr2, ⟨entry, code, calls, c, ?_, hcode, hrun, hiret⟩, ?_, hmem⟩
  · rw [h.deliver, hentered]
  · have htop : c.regs .esp + 4#32 + 4#32 + 4#32 = s.cpu.regs .esp := by
      rw [hregs, Function.update_self]
      grind
    have hpopped := hholds.2.2.2
    rwa [htop] at hpopped

variable {offset : Word} {idtr : idtrStruct.Value} {t u : Processor} {es : List Event}

/-- In every state that the kernel can be interrupted in, once `init_gdt` and `init_idt` have run:
the interrupt is served by its stub, and the kernel is back where it was, with another of these
states. Of the memory, only what the handler writes and 64 bytes below the top of the stack can be
different. -/
theorem interrupts_resume (hcpl : s.cpl = 0#2) (ht : initGdt p offset sp s = .ok t)
    (hrun : Labelled.Run (Step p) (enableInterrupts p stubs idtr t) es u) (hcs : u.selector .cs = 0x08#16)
    (hsegment : u.segment .cs = flat 0b1011#4 0#2) {vector : Byte}
    (hvector : vector.toNat = 14 ∨ 32 ≤ vector.toNat) (eip error next : Word) {stack : List Word}
    (hstack : Holds u.cpu stack) (hlength : 4 * (stack.length + 15) ≤ 2 ^ 32)
    (hroom : ∀ y, p.Table y → Processor.Clear (u.cpu.regs .esp) 64 y)
    (hobeys : Obeys callee (called vector.toNat u.cpu.cr2 error).1
      (called vector.toNat u.cpu.cr2 error).2.length
      (4 * (8 + ((errorCode vector.toNat error).toList ++ eip :: 8#32 :: u.cpu.eflags :: stack).length)))
    (hkeeps : ∀ y, p.Table y → ∀ handler c, (callee handler c).mem y = c.mem y) :
    ∃ m cr2, Resumes stubs callee next vector eip (errorCode vector.toNat error) u
        { u with cpu := { u.cpu with mem := m, cr2 := cr2 } } ∧
      Labelled.Run (Step p) (enableInterrupts p stubs idtr t) (es ++ [.program])
        { u with cpu := { u.cpu with mem := m, cr2 := cr2 } } ∧
      Holds { u.cpu with mem := m } stack ∧
      ∀ y, Processor.Clear (u.cpu.regs .esp) 64 y → (∀ handler c, (callee handler c).mem y = c.mem y) →
        m y = u.cpu.mem y := by
  obtain ⟨t', ht', hr, -⟩ := initGdt_ok p sp hcpl offset
  obtain rfl : t' = t := by simpa [ht'] using ht
  have hu := (hr.toSegmented.enableInterrupts idtr).run hrun
  obtain ⟨m, cr2, hresumes, hholds, hmem⟩ :=
    hu.resumes hcs hsegment hvector eip error next hstack hlength hroom hobeys hkeeps
  exact ⟨m, cr2, hresumes,
    .snoc hrun (.program ⟨rfl, rfl, rfl, fun y hy => hmem y (hroom y hy) (hkeeps y hy)⟩), hholds, hmem⟩

def exampleStubs (vector : Nat) : Word := 0xC0101000#32 + 16#32 * BitVec.ofNat 32 vector

theorem clear_loaded {y : Word} (hy : examplePlacement.Table y) :
    Processor.Clear (loaded.cpu.regs .esp) 64 y := by
  cases hy with
  | gdt k hlow hk =>
    show 64 ≤ (0xC0110000#32 - 1#32 - (0xC0112040#32 + BitVec.ofNat 32 k)).toNat
    bv_omega
  | tss k hk =>
    show 64 ≤ (0xC0110000#32 - 1#32 - (0xC0112080#32 + BitVec.ofNat 32 k)).toNat
    bv_omega
  | idt k hk =>
    show 64 ≤ (0xC0110000#32 - 1#32 - (0xC0113000#32 + BitVec.ofNat 32 k)).toNat
    bv_omega

/-- The first interrupt of the keyboard. -/
theorem interrupts_resume_keyboard :
    ∃ t m cr2, initGdt examplePlacement 0xC0100123#32 0xC0110000#32 loaded = .ok t ∧
    Resumes exampleStubs (fun _ => clearing) 0xC0101234#32 33#8 0xC0100456#32 none
      (enableInterrupts examplePlacement exampleStubs 0 t)
      { enableInterrupts examplePlacement exampleStubs 0 t with
        cpu := { (enableInterrupts examplePlacement exampleStubs 0 t).cpu with mem := m, cr2 :=
          cr2 } } := by
  obtain ⟨t, ht, hr, hu⟩ :=
    initGdt_ok examplePlacement 0xC0110000#32 (s := loaded) (by decide) 0xC0100123#32
  have hstart : Labelled.Run (Step examplePlacement)
      (enableInterrupts examplePlacement exampleStubs 0 t) []
      (enableInterrupts examplePlacement exampleStubs 0 t) := .nil
  have hesp : (enableInterrupts examplePlacement exampleStubs 0 t).cpu.regs .esp = loaded.cpu.regs .esp :=
    hu.regs .esp (by simp)
  have hroom (y : Word) (hy : examplePlacement.Table y) :
      Processor.Clear ((enableInterrupts examplePlacement exampleStubs 0 t).cpu.regs .esp) 64 y := by
    rw [hesp]
    exact clear_loaded hy
  have hvector : (33#8).toNat = 14 ∨ 32 ≤ (33#8).toNat := by decide
  have hempty : Holds (enableInterrupts examplePlacement exampleStubs 0 t).cpu [] := trivial
  obtain ⟨m, cr2, hresumes, -⟩ := interrupts_resume (by decide) ht hstart (hr.registers .cs).1
    (hr.registers .cs).2
    hvector 0xC0100456#32 0#32 0xC0101234#32 hempty (by decide) hroom
    (clearing_obeys _ _ _) fun _ _ _ _ => rfl
  exact ⟨t, m, cr2, ht, hresumes⟩

end Resumes

end PekOS.Segmentation
