import PekOS.Apic
import PekOS.PageFault
import PekOS.PicMasks

/-! The stubs of exception_caller.S from vector 32 on, the handlers they call,
and how the kernel programs the controllers. -/

namespace PekOS

open OpTree Code I8259

def exceptionHandlerCode (code : Word) : Code Unit :=
  if 32#32 ≤ code ∧ code < 48#32 then picSendEOI ((code - 32#32).setWidth 8)
  else if 48#32 ≤ code ∧ code < 64#32 then apicSendEoi
  else return ()

section Fuel

variable (fuel : Nat)

def testKbdInterrupt (code : Word) : Code Unit := do
  (if code = 33#32 then do
    let _ ← readPs2Data fuel
    picSendEOI ((code - 32#32).setWidth 8)
  else if code = 50#32 then do
    let _ ← readPs2Data fuel
    apicSendEoi
  else halt)
  apicSendEoi

end Fuel

def systemTimerInterrupt : Code Unit := apicSendEoi

/-- What a stub calls, and the number it pushes. -/
inductive Stub
  | exceptionHandlerCode (num : Nat)
  | testKbdInterrupt (num : Nat)
  | systemTimerInterrupt
  deriving DecidableEq

/-- `n` stubs made by `isr_other`, from `i` on. -/
def isrOther (i n : Nat) : List Stub := (List.range' i n).map .exceptionHandlerCode

/-- The stubs from 32 on, in the order of the file. -/
def isrStubs : List Stub :=
  [.exceptionHandlerCode 32, .testKbdInterrupt 33] ++ isrOther 34 14 ++
    [.systemTimerInterrupt, .exceptionHandlerCode 49, .testKbdInterrupt 50] ++ isrOther 51 14 ++
    isrOther 65 191

def Stub.code (fuel : Nat) : Stub → Code Unit
  | exceptionHandlerCode num => PekOS.exceptionHandlerCode (BitVec.ofNat 32 num)
  | testKbdInterrupt num => PekOS.testKbdInterrupt fuel (BitVec.ofNat 32 num)
  | systemTimerInterrupt => PekOS.systemTimerInterrupt

/-- The entry of `isr_stub_table` for an interrupt. The vectors below 32 are exceptions. -/
def isrStub (fuel num : Nat) : Code Unit :=
  if num < 32 then exceptionHandler
  else match isrStubs[num - 32]? with
    | some stub => stub.code fuel
    | none => exceptionHandler

/-- The parts of `init_pic` and `init_apic` that program vectors. -/
def programVectors (ioapicVirtAddress : Word) : Code Unit := do
  initPic
  apicStartTimer
  redirectInterrupts ioapicVirtAddress

/-! Deliveries. -/

inductive Source
  | pic (line : Fin 16)
  | timer
  | ioapic (entry : Fin 16)
  deriving DecidableEq

inductive Controller
  | master
  | slave
  | localApic
  deriving DecidableEq

/-- The controllers in which a delivery is in service. -/
def Source.controllers : Source → List Controller
  | pic line => if line < 8 then [.master] else [.slave, .master]
  | timer | ioapic _ => [.localApic]

/-- What the stub of a source's vector comes to. -/
def Source.handler (fuel : Nat) : Source → Code Unit
  | pic line => if line = 1 then testKbdInterrupt fuel 33#32 else picSendEOI (BitVec.ofNat 8 line)
  | timer => apicSendEoi
  | ioapic entry =>
    if entry = 1 then testKbdInterrupt fuel 50#32 else if entry = 15 then return () else apicSendEoi

def Source.acknowledged : Source → List Controller
  | pic line => if line = 1 then [.master, .localApic] else if line < 8 then [.master]
    else [.slave, .master]
  | timer => [.localApic]
  | ioapic entry => if entry = 1 then [.localApic, .localApic] else if entry = 15 then []
    else [.localApic]

/-- Neither of the keyboard's two interrupts, nor the one with vector 64. -/
def Source.Proper (source : Source) : Prop := source ≠ .pic 1 ∧ source ≠ .ioapic 1 ∧ source ≠ .ioapic 15

namespace Board

variable (s : Board)

def vector : Source → Nat
  | .pic line =>
    (if line < 8 then s.master.vector (BitVec.ofNat 8 line)
      else s.slave.vector (BitVec.ofNat 8 (line - 8 : Nat))).toNat
  | .timer => (s.localApic.registers 0x320#32).toNat % 256
  | .ioapic entry => (s.ioapic.registers (BitVec.ofNat 8 (0x10 + entry * 2))).toNat % 256

/-- The slave is on line 2 of the master. -/
def deliver (source : Source) : Board :=
  match source with
  | .pic line =>
    if line < 8 then { s with master := s.master.accept (BitVec.ofNat 8 line) }
    else { s with
      master := s.master.accept 2#8
      slave := s.slave.accept (BitVec.ofNat 8 (line - 8 : Nat)) }
  | source => { s with localApic := s.localApic.accept (s.vector source) }

structure Idle : Prop where
  master : s.master.isr = 0#8
  slave : s.slave.isr = 0#8
  localApic : s.localApic.inService = ∅

structure Programmed (w : Wiring) : Prop where
  remapped : s.Remapped (32#32, 40#32)
  timer : (s.localApic.registers 0x320#32).toNat % 256 = 48
  ioapic : ∀ entry : Fin 16, (s.ioapic.registers (BitVec.ofNat 8 (0x10 + entry * 2))).toNat % 256 =
    49 + entry
  localApic : s.globals.localApic1VirtAddr = w.localApic

end Board

/-- The controller an acknowledgement is sent to. -/
def Op.acknowledges (w : Wiring) : Op → Option Controller
  | .outb port v =>
    if v.getLsbD 4 || v.getLsbD 3 || !v.getLsbD 5 then none
    else if port = pic1Command then some .master
    else if port = pic2Command then some .slave
    else none
  | .store a _ => if a = w.localApic + 0xB0#32 then some .localApic else none
  | _ => none

/-- A delivery that has been handled: what was acknowledged, and the state after it. -/
structure Service where
  source : Source
  acknowledged : List Controller
  after : Board

/-- The handler runs to completion. -/
def Serves (w : Wiring) (fuel : Nat) (s : Board) (e : Service) (t : Board) : Prop :=
  Prog.run (Board.exec w) (isrStub fuel (s.vector e.source)) (s.deliver e.source) = .ok ((), t) ∧
    e.acknowledged = Prog.notes (Board.exec w) (Op.acknowledges w)
    (isrStub fuel (s.vector e.source)) (s.deliver e.source) ∧
      e.after = t

end PekOS
