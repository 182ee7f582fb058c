import PekOS.Interrupts
import PekOS.Library.I386

/-! exception_caller.S: the stubs, and `isr_stub_table`. -/

namespace PekOS.ExceptionCaller

open I386 LittleEndian

inductive Handler
  | exceptionHandler
  | pageFaultHandler
  | exceptionHandlerCode
  | testKbdInterrupt
  | systemTimerInterrupt
  deriving DecidableEq

abbrev StubCode := List (Instr Handler)

def isrErrStub : StubCode := [.call .exceptionHandler, .iret]

def isrNoErrStub : StubCode := [.call .exceptionHandler, .iret]

def isrStub14 : StubCode :=
  [.pushal, .movCr2 .eax, .pushAt 32#32, .push .eax, .cld, .call .pageFaultHandler, .addEsp 8#32, .popal,
    .addEsp 4#32, .iret]

def isrPushing (handler : Handler) (num : Nat) : StubCode :=
  [.pushal, .pushImm (BitVec.ofNat 32 num), .cld, .call handler, .popl .eax, .popal, .iret]

def isrStub32 : StubCode := isrPushing .exceptionHandlerCode 32

def isrStub33 : StubCode := isrPushing .testKbdInterrupt 33

def isrOther (num : Nat) : StubCode := isrPushing .exceptionHandlerCode num

def isrStub48 : StubCode := [.pushal, .cld, .call .systemTimerInterrupt, .popal, .iret]

def isrStub49 : StubCode := isrPushing .exceptionHandlerCode 49

def isrStub50 : StubCode := isrPushing .testKbdInterrupt 50

/-- `n` stubs made by a macro, from `i` on. -/
def loopInsert (i n : Nat) : List (Nat × StubCode) := (List.range' i n).map fun num => (num, isrOther num)

def exceptionStubs : List (Nat × StubCode) :=
  [(0, isrNoErrStub), (1, isrNoErrStub), (2, isrNoErrStub), (3, isrNoErrStub), (4, isrNoErrStub),
    (5, isrNoErrStub), (6, isrNoErrStub), (7, isrNoErrStub), (8, isrErrStub), (9, isrNoErrStub),
    (10, isrErrStub), (11, isrErrStub), (12, isrErrStub), (13, isrErrStub), (14, isrStub14),
    (15, isrNoErrStub), (16, isrNoErrStub), (17, isrErrStub), (18, isrNoErrStub),
    (19, isrNoErrStub), (20, isrNoErrStub), (21, isrNoErrStub), (22, isrNoErrStub),
    (23, isrNoErrStub), (24, isrNoErrStub), (25, isrNoErrStub), (26, isrNoErrStub), (27, isrNoErrStub),
    (28, isrNoErrStub), (29, isrNoErrStub), (30, isrErrStub), (31, isrNoErrStub)]

/-- The stubs in the order of the file. -/
def stubs : List (Nat × StubCode) :=
  exceptionStubs ++ [(32, isrStub32), (33, isrStub33)] ++ loopInsert 34 14 ++
    [(48, isrStub48), (49, isrStub49), (50, isrStub50)] ++ loopInsert 51 14 ++ loopInsert 65 191

def isrStubTable (i : Nat) : Option StubCode := stubs.lookup i

/-- What the stub of a vector calls, and with which arguments. -/
def called (vector : Nat) (cr2 error : Word) : Handler × List Word :=
  if vector = 14 then (.pageFaultHandler, [cr2, error])
  else if vector = 48 then (.systemTimerInterrupt, [])
  else if vector = 33 ∨ vector = 50 then (.testKbdInterrupt, [BitVec.ofNat 32 vector])
  else (.exceptionHandlerCode, [BitVec.ofNat 32 vector])

/-- What is known of a stub by its kind. -/
def stubCalled : Stub → Handler × List Word
  | .exceptionHandlerCode num => (.exceptionHandlerCode, [BitVec.ofNat 32 num])
  | .testKbdInterrupt num => (.testKbdInterrupt, [BitVec.ofNat 32 num])
  | .systemTimerInterrupt => (.systemTimerInterrupt, [])

theorem called_isrStubs {vector : Nat} (h : 32 ≤ vector ∧ vector < 256) (cr2 error : Word) :
    isrStubs[vector - 32]?.map stubCalled = some (called vector cr2 error) := by
  have hall : ∀ i < 224, isrStubs[i]?.map stubCalled = some (called (i + 32) 0#32 0#32) := by
    decide +kernel
  have hcalled : called vector cr2 error = called vector 0#32 0#32 := by
    have hne : vector ≠ 14 := by omega
    simp only [called, if_neg hne]
  rw [hall (vector - 32) (by omega), hcalled, Nat.sub_add_cancel h.1]

theorem lookup_loopInsert (v i n : Nat) :
    (loopInsert i n).lookup v = if i ≤ v ∧ v < i + n then some (isrOther v) else none := by
  induction n generalizing i with
  | zero => exact (if_neg (by omega)).symm
  | succ n ih =>
    rw [loopInsert, List.range'_succ, List.map_cons, List.lookup_cons]
    by_cases h : v = i
    · subst h
      rw [beq_self_eq_true, if_pos (by omega)]
    · rw [beq_eq_false_iff_ne.mpr h]
      refine (ih (i + 1)).trans (if_congr (by omega) rfl rfl)

theorem isrStubTable_isrOther {v : Nat} (h : 34 ≤ v ∧ v < 48 ∨ 51 ≤ v ∧ v < 256) :
    isrStubTable v = some (isrOther v) := by
  have hnot {l : List (Nat × StubCode)} (hl : v ∉ l.map (·.1)) : l.lookup v = none :=
    List.lookup_eq_none_iff.mpr fun p hp => bne_iff_ne.mpr fun he => hl (he ▸ List.mem_map_of_mem hp)
  have hexceptions : v ∉ exceptionStubs.map (·.1) := by
    have hall : ∀ k ∈ exceptionStubs.map (·.1), k < 32 := by decide
    intro hmem
    have hlt := hall v hmem
    omega
  have hfirst : v ∉ [(32, isrStub32), (33, isrStub33)].map (·.1) := by
    simp only [List.map_cons, List.map_nil, List.mem_cons, List.not_mem_nil, or_false]
    omega
  have hlast : v ∉ [(48, isrStub48), (49, isrStub49), (50, isrStub50)].map (·.1) := by
    simp only [List.map_cons, List.map_nil, List.mem_cons, List.not_mem_nil, or_false]
    omega
  simp only [isrStubTable, stubs, List.lookup_append, hnot hexceptions, hnot hfirst, hnot hlast,
    lookup_loopInsert, Option.none_or]
  rcases h with h | h
  · rw [if_pos (by omega)]
    rfl
  · rw [if_neg (by omega)]
    by_cases hlt : v < 65
    · rw [if_pos (by omega)]
      rfl
    · rw [if_neg (by omega), if_pos (by omega)]
      rfl

section Templates

variable {callee : Handler → Cpu → Cpu} {s u : Cpu} {rest : List Word}

/-- The handler keeps to cdecl, where the direction flag is clear. -/
def Obeys (callee : Handler → Cpu → Cpu) (handler : Handler) (args above : Nat) : Prop :=
  ∀ c, c.eflags.getLsbD 10 = false → Cdecl args above c (callee handler c)

/-- Between the `pushal` and the `popal` of a stub; `leave` takes the arguments off the stack. -/
theorem popal_restores {handler : Handler} (args : List Word) (next : Word) (leave : Cpu → Cpu)
    (hu : Holds u ([Reg.edi, .esi, .ebp, .esp, .ebx, .edx, .ecx, .eax].map s.regs ++ rest))
    (hesp : u.regs .esp = s.regs .esp - 32#32) (hroom : 4 * (args.length + rest.length + 9) ≤ 2 ^ 32)
    (hobeys : Obeys callee handler args.length (4 * (8 + rest.length)))
    (hleave : ∀ t, (leave t).mem = t.mem ∧
      (leave t).regs .esp = t.regs .esp + BitVec.ofNat 32 (4 * args.length)) :
    Holds (u.enter args next) (next :: args.reverse) ∧
      (leave (callee handler (u.enter args next))).popal.regs = s.regs ∧
      Holds (leave (callee handler (u.enter args next))).popal rest := by
  have hc := hu.enter args (by simp; omega) next
  have hreturns := hobeys (u.enter args next) (enter_eflags u args next)
  rw [← List.length_reverse] at hreturns
  have hentered : (u.enter args next).regs .esp = s.regs .esp - BitVec.ofNat 32
      (4 * (9 + args.reverse.length)) := by
    rw [enter_esp, hesp, List.length_reverse, Nat.mul_add, BitVec.ofNat_add]
    show _ = _ - (36#32 + _)
    grind
  refine ⟨hc.append, ?_⟩
  exact hreturns.popal hc hentered (hleave _).1 (by rw [List.length_reverse]; exact (hleave _).2)

theorem pushal_esp (s : Cpu) : s.pushal.regs .esp = s.regs .esp - 32#32 := pushes_esp s _

theorem pushal_holds (hs : Holds s rest) (hroom : 4 * (8 + rest.length) ≤ 2 ^ 32) :
    Holds s.pushal ([Reg.edi, .esi, .ebp, .esp, .ebx, .edx, .ecx, .eax].map s.regs ++ rest) :=
  hs.pushes _ hroom

/-- The code comes to its `iret` having called `handler` with these arguments, and with the
registers and the stack as they were. -/
def Calls (callee : Handler → Cpu → Cpu) (next : Word) (code : StubCode) (handler : Handler)
    (args rest : List Word) (s : Cpu) : Prop :=
  ∃ c t, run callee next code s = some ([(handler, c)], t) ∧ Holds c (next :: args) ∧
    t.regs = s.regs ∧ Holds t rest

theorem isrPushing_calls {handler : Handler} (num : Nat) (next : Word) (hs : Holds s rest)
    (hroom : 4 * (rest.length + 10) ≤ 2 ^ 32) (hobeys : Obeys callee handler 1 (4 * (8 + rest.length))) :
    Calls callee next (isrPushing handler num) handler [BitVec.ofNat 32 num] rest s := by
  have hrun : run callee next (isrPushing handler num) s =
      some ([(handler, s.pushal.enter [BitVec.ofNat 32 num] next)],
        ((callee handler (s.pushal.enter [BitVec.ofNat 32 num] next)).popl .eax).popal) := rfl
  have hpushed : 4 * ([BitVec.ofNat 32 num].length + rest.length + 9) ≤ 2 ^ 32 := by
    rw [List.length_singleton]
    omega
  have hleave (t : Cpu) : (t.popl .eax).mem = t.mem ∧
      (t.popl .eax).regs .esp = t.regs .esp + BitVec.ofNat 32 (4 * [BitVec.ofNat 32 num].length) :=
    ⟨rfl, rfl⟩
  obtain ⟨hc, hregs, hrest⟩ := popal_restores [BitVec.ofNat 32 num] next (fun t => t.popl .eax)
    (pushal_holds hs (by omega)) (pushal_esp s) hpushed hobeys hleave
  exact ⟨_, _, hrun, hc, hregs, hrest⟩

theorem isrStub48_calls (next : Word) (hs : Holds s rest) (hroom : 4 * (rest.length + 9) ≤ 2 ^ 32)
    (hobeys : Obeys callee .systemTimerInterrupt 0 (4 * (8 + rest.length))) :
    Calls callee next isrStub48 .systemTimerInterrupt [] rest s := by
  have hrun : run callee next isrStub48 s = some ([(.systemTimerInterrupt, s.pushal.enter [] next)],
      (callee .systemTimerInterrupt (s.pushal.enter [] next)).popal) := by
    rw [enter_nil]
    rfl
  have hpushed : 4 * (([] : List Word).length + rest.length + 9) ≤ 2 ^ 32 := by
    rw [List.length_nil]
    omega
  have hleave (t : Cpu) : (id t).mem = t.mem ∧ (id t).regs .esp = t.regs .esp + 0#32 :=
    ⟨rfl, (BitVec.add_zero _).symm⟩
  obtain ⟨hc, hregs, hrest⟩ := popal_restores [] next id (pushal_holds hs (by omega))
    (pushal_esp s) hpushed hobeys
    hleave
  exact ⟨_, _, hrun, hc, hregs, hrest⟩

theorem isrStub14_calls {error : Word} (next : Word) (hs : Holds s (error :: rest))
    (hroom : 4 * (rest.length + 12) ≤ 2 ^ 32)
    (hobeys : Obeys callee .pageFaultHandler 2 (4 * (8 + (error :: rest).length))) :
    ∃ c t, run callee next isrStub14 s = some ([(.pageFaultHandler, c)], t) ∧
      Holds c (next :: [s.cr2, error]) ∧
      (∀ r, r ≠ .esp → t.regs r = s.regs r) ∧ t.regs .esp = s.regs .esp + 4#32 ∧ Holds t rest := by
  have herror : word s.pushal.mem (s.pushal.regs .esp + 32#32) = error :=
    (words_append.mp (pushal_holds hs (by rw [List.length_cons]; omega))).2.1
  have hrun : run callee next isrStub14 s = some ([(.pageFaultHandler,
      (s.pushal.set .eax s.cr2).enter [word s.pushal.mem (s.pushal.regs .esp + 32#32), s.cr2] next)],
      (((callee .pageFaultHandler ((s.pushal.set .eax s.cr2).enter
        [word s.pushal.mem (s.pushal.regs .esp + 32#32), s.cr2] next)).addEsp 8#32).popal).addEsp
        4#32) := rfl
  rw [herror] at hrun
  have hsaved := (pushal_holds hs (by rw [List.length_cons]; omega)).set
    (show Reg.eax ≠ .esp by decide) s.cr2
  have hesp : (s.pushal.set .eax s.cr2).regs .esp = s.regs .esp - 32#32 := by
    rw [set_regs (by decide), pushal_esp]
  have hpushed : 4 * ([error, s.cr2].length + (error :: rest).length + 9) ≤ 2 ^ 32 := by
    rw [List.length_cons, List.length_singleton, List.length_cons]
    omega
  have hleave (t : Cpu) : (t.addEsp 8#32).mem = t.mem ∧
      (t.addEsp 8#32).regs .esp = t.regs .esp + BitVec.ofNat 32 (4 * [error, s.cr2].length) :=
    ⟨rfl, addEsp_esp t 8#32⟩
  obtain ⟨hc, hregs, hrest⟩ := popal_restores [error,
    s.cr2] next (fun t => t.addEsp 8#32) hsaved hesp hpushed hobeys
    hleave
  refine ⟨_, _, hrun, hc, fun r hr => ?_, ?_, hrest.addEsp⟩
  · rw [addEsp_regs hr]
    exact congrFun hregs r
  · rw [addEsp_esp]
    exact congrArg (· + 4#32) (congrFun hregs .esp)

end Templates

/-- Of the exceptions in question, page faults have an error code. -/
def errorCode (vector : Nat) (error : Word) : Option Word := if vector = 14 then some error else none

/-- From 32 on the stubs call what they are said to call, and leave the stack as they found it. -/
theorem calls_of_le {vector : Nat} (hvector : 32 ≤ vector ∧ vector < 256) {s : Cpu} {rest : List Word}
    (cr2 error next : Word) {callee : Handler → Cpu → Cpu} (hs : Holds s rest)
    (hroom : 4 * (rest.length + 10) ≤ 2 ^ 32)
    (hobeys : Obeys callee (called vector cr2 error).1 (called vector cr2 error).2.length
    (4 * (8 + rest.length))) :
    ∃ code, isrStubTable vector = some code ∧
      Calls callee next code (called vector cr2 error).1 (called vector cr2 error).2 rest s := by
  by_cases hother : 34 ≤ vector ∧ vector < 48 ∨ 51 ≤ vector
  · have hcalled : called vector cr2 error = (.exceptionHandlerCode, [BitVec.ofNat 32 vector]) := by
      rw [called, if_neg (by omega), if_neg (by omega), if_neg (by omega)]
    rw [hcalled] at hobeys ⊢
    exact ⟨_, isrStubTable_isrOther (by omega), isrPushing_calls vector next hs hroom hobeys⟩
  · obtain rfl | rfl | rfl | rfl | rfl : vector = 32 ∨ vector = 33 ∨ vector = 48 ∨ vector = 49 ∨
        vector = 50 := by omega
    · exact ⟨_, rfl, isrPushing_calls 32 next hs hroom hobeys⟩
    · exact ⟨_, rfl, isrPushing_calls 33 next hs hroom hobeys⟩
    · exact ⟨_, rfl, isrStub48_calls next hs (by omega) hobeys⟩
    · exact ⟨_, rfl, isrPushing_calls 49 next hs hroom hobeys⟩
    · exact ⟨_, rfl, isrPushing_calls 50 next hs hroom hobeys⟩

/-- A stub comes to its `iret` with the registers and the stack of the interrupted program,
whatever the handler does that cdecl allows. -/
theorem stubs_restore {vector : Nat} (hvector : vector = 14 ∨ 32 ≤ vector ∧ vector < 256) (s : Cpu)
    (eip cs error next : Word) {stack : List Word} (hstack : Holds s stack)
    (hroom : 4 * (stack.length + 15) ≤ 2 ^ 32) {callee : Handler → Cpu → Cpu}
    (hobeys : Obeys callee (called vector s.cr2 error).1 (called vector s.cr2 error).2.length
      (4 * (8 + ((errorCode vector error).toList ++ eip :: cs :: s.eflags :: stack).length))) :
    ∃ code c t, isrStubTable vector = some code ∧
      run callee next code (s.interrupt eip cs (errorCode vector error)) =
        some ([((called vector s.cr2 error).1, c)], t) ∧
      Holds c (next :: (called vector s.cr2 error).2) ∧
      t.regs .esp = s.regs .esp - 12#32 ∧ (∀ r, r ≠ .esp → t.regs r = s.regs r) ∧
      Holds t (eip :: cs :: s.eflags :: stack) ∧
      t.iret.1 = (eip, cs) ∧ t.iret.2.eflags = s.eflags ∧ t.iret.2.regs = s.regs := by
  have hiret {t : Cpu} (hesp : t.regs .esp = s.regs .esp - 12#32)
      (hregs : ∀ r, r ≠ .esp → t.regs r = s.regs r) (ht : Holds t (eip :: cs :: s.eflags :: stack)) :
      t.iret.1 = (eip, cs) ∧ t.iret.2.eflags = s.eflags ∧ t.iret.2.regs = s.regs := by
    obtain ⟨hframe, hflags, htop, hother⟩ := iret_restores ht
    refine ⟨hframe, hflags, funext fun r => ?_⟩
    by_cases hr : r = .esp
    · rw [hr, htop, hesp, BitVec.sub_add_cancel]
    · rw [hother r hr, hregs r hr]
  rcases hvector with rfl | hvector
  · have hentered := hstack.interrupt eip cs (some error) (by omega)
    have hframe : 4 * ((eip :: cs :: s.eflags :: stack).length + 12) ≤ 2 ^ 32 := by
      simp only [List.length_cons]
      omega
    obtain ⟨c, t, hrun, hc, hregs, htop, ht⟩ := isrStub14_calls next hentered hframe hobeys
    rw [interrupt_cr2] at hc
    have hesp : t.regs .esp = s.regs .esp - 12#32 := by
      rw [htop, interrupt_esp]
      show s.regs .esp - 16#32 + 4#32 = _
      grind
    have hsame (r : Reg) (hr : r ≠ .esp) : t.regs r = s.regs r := by
      rw [hregs r hr, interrupt_regs hr]
    exact ⟨_, c, t, rfl, hrun, hc, hesp, hsame, ht, hiret hesp hsame ht⟩
  · have herror : errorCode vector error = none := if_neg (by omega)
    rw [herror] at hobeys ⊢
    have hentered := hstack.interrupt eip cs none (by omega)
    have hframe : 4 * ((eip :: cs :: s.eflags :: stack).length + 10) ≤ 2 ^ 32 := by
      simp only [List.length_cons]
      omega
    obtain ⟨code, hcode, c, t, hrun, hc, hregs, ht⟩ :=
      calls_of_le hvector s.cr2 error next hentered hframe hobeys
    have hesp : t.regs .esp = s.regs .esp - 12#32 := by
      rw [hregs, interrupt_esp]
      rfl
    have hsame (r : Reg) (hr : r ≠ .esp) : t.regs r = s.regs r := by
      rw [hregs, interrupt_regs hr]
    exact ⟨code, c, t, hcode, hrun, hc, hesp, hsame, ht, hiret hesp hsame ht⟩

/-- A program that is interrupted, and a handler that only clears `%eax`. -/
def interrupted : Cpu :=
  ⟨fun r => if r = .esp then 0xC0120000#32 else 7#32, 0x246#32, 0xCAFE0000#32, fun _ => 0x5A#8⟩

def clearing (c : Cpu) : Cpu := (c.addEsp 4#32).set .eax 0#32

theorem clearing_obeys (handler : Handler) (args above : Nat) :
    Obeys (fun _ => clearing) handler args above := by
  refine fun c _ => ⟨?_, fun r hr => ?_, fun _ _ => rfl⟩
  · show ((c.addEsp 4#32).set .eax 0#32).regs .esp = _
    rw [set_regs (by decide), addEsp_esp]
  · have hne : r ≠ .eax ∧ r ≠ .esp := by
      revert r
      decide
    show ((c.addEsp 4#32).set .eax 0#32).regs r = _
    rw [set_regs hne.1, addEsp_regs hne.2]

theorem stubs_restore_page_fault : ∃ code c t, isrStubTable 14 = some code ∧
    run (fun _ => clearing) 0xC0101234#32 code
    (interrupted.interrupt 0xC0100000#32 8#32 (errorCode 14 2#32)) =
      some ([((called 14 interrupted.cr2 2#32).1, c)], t) ∧
    Holds c (0xC0101234#32 :: (called 14 interrupted.cr2 2#32).2) ∧
    t.regs .esp = interrupted.regs .esp - 12#32 ∧ (∀ r, r ≠ .esp → t.regs r = interrupted.regs r) ∧
    Holds t (0xC0100000#32 :: 8#32 :: interrupted.eflags :: [0x5A5A5A5A#32]) ∧
    t.iret.1 = (0xC0100000#32, 8#32) ∧ t.iret.2.eflags = interrupted.eflags ∧
      t.iret.2.regs = interrupted.regs :=
  stubs_restore (Or.inl rfl) interrupted 0xC0100000#32 8#32 2#32 0xC0101234#32
    (show Holds interrupted [0x5A5A5A5A#32] from ⟨by decide, trivial⟩) (by decide) (clearing_obeys _ _ _)

end PekOS.ExceptionCaller
