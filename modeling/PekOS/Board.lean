import Mathlib.Data.Finset.Max
import PekOS.Library.I8259
import PekOS.Machine

/-! The interrupt controllers as the code sees them: the pair of 8259s on the
I/O bus, and the registers of the local APIC and of the IOAPIC at the addresses
where `init_apic` has mapped them. -/

namespace PekOS

open I8259

/-- `inService` are the vectors delivered and not yet acknowledged; the highest has priority. -/
structure LocalApic where
  registers : Word → Word
  inService : Finset Nat

namespace LocalApic

variable (a : LocalApic)

def endOfInterrupt : LocalApic :=
  if h : a.inService.Nonempty then { a with inService := a.inService.erase (a.inService.max' h) } else a

/-- The write of any value to the register at 0xB0 is an acknowledgement. -/
def write (offset v : Word) : LocalApic :=
  if offset = 0xB0#32 then a.endOfInterrupt
  else { a with registers := fun o => if o = offset then v else a.registers o }

def accept (vector : Nat) : LocalApic := { a with inService := insert vector a.inService }

variable {a}

theorem accept_endOfInterrupt (h : a.inService = ∅) (vector : Nat) :
    (a.accept vector).endOfInterrupt.inService = ∅ := by
  have hone : (a.accept vector).inService = {vector} := by simp [accept, h]
  rw [endOfInterrupt, dif_pos (by simp [hone])]
  simp [hone]

end LocalApic

/-- `select` is the register the window shows. -/
structure Ioapic where
  select : Byte
  registers : Byte → Word

def Ioapic.write (i : Ioapic) (v : Word) : Ioapic :=
  { i with registers := fun r => if r = i.select then v else i.registers r }

/-- Where the registers are mapped: on two pages. -/
structure Wiring where
  localApic : Word
  ioapic : Word
  apart : ∀ offset : Word, offset < 0x1000#32 → localApic + offset ≠ ioapic ∧
    localApic + offset ≠ ioapic + 0x10#32

/-- On pages that follow each other. -/
def Wiring.adjacent : Wiring where
  localApic := 0xD0000000#32
  ioapic := 0xD0001000#32
  apart := by
    intro offset h
    constructor <;> bv_omega

/-- `answers` are the bytes the other devices put on the I/O bus. -/
structure Board where
  master : Chip
  slave : Chip
  localApic : LocalApic
  ioapic : Ioapic
  globals : Globals
  answers : Nat → Byte
  asked : Nat

namespace Board

/-- A board with the registers mapped as in `Wiring.adjacent`, and nothing in service. -/
def idle : Board where
  master := Chip.idle
  slave := Chip.idle
  localApic := ⟨fun _ => 0#32, ∅⟩
  ioapic := ⟨0#8, fun _ => 0#32⟩
  globals := { initialGlobals with localApic1VirtAddr := Wiring.adjacent.localApic }
  answers := fun _ => 0#8
  asked := 0

variable (w : Wiring)

def load (s : Board) (a : Word) : Except Stop Word :=
  if a = w.ioapic then .ok (s.ioapic.select.setWidth 32)
  else if a = w.ioapic + 0x10#32 then .ok (s.ioapic.registers s.ioapic.select)
  else if a - w.localApic < 0x1000#32 then .ok (s.localApic.registers (a - w.localApic))
  else .error (.notPresent a false)

def store (s : Board) (a v : Word) : Except Stop Board :=
  if a = w.ioapic then .ok { s with ioapic := { s.ioapic with select := v.setWidth 8 } }
  else if a = w.ioapic + 0x10#32 then .ok { s with ioapic := s.ioapic.write v }
  else if a - w.localApic < 0x1000#32 then
    .ok { s with localApic := s.localApic.write (a - w.localApic) v }
  else .error (.notPresent a true)

def inb (s : Board) (port : BitVec 16) : Byte × Board :=
  if port = 0x20#16 then (s.master.readCommand, s)
  else if port = 0x21#16 then (s.master.readData, s)
  else if port = 0xA0#16 then (s.slave.readCommand, s)
  else if port = 0xA1#16 then (s.slave.readData, s)
  else (s.answers s.asked, { s with asked := s.asked + 1 })

def outb (s : Board) (port : BitVec 16) (v : Byte) : Board :=
  if port = 0x20#16 then { s with master := s.master.writeCommand v }
  else if port = 0x21#16 then { s with master := s.master.writeData v }
  else if port = 0xA0#16 then { s with slave := s.slave.writeCommand v }
  else if port = 0xA1#16 then { s with slave := s.slave.writeData v }
  else s

/-- One operation. What the code of the controllers does not perform stops the run. -/
def exec : (o : Op) → Board → Except Stop (o.Res × Board)
  | .load a, s => (s.load w a).map fun v => (v, s)
  | .store a v, s => (s.store w a v).map fun t => ((), t)
  | .loadByte a, s =>
    let k := a &&& 3#32
    (s.load w (a - k)).map fun v => (v.extractLsb' (8 * k.toNat) 8, s)
  | .inb port, s => .ok (s.inb port)
  | .outb port v, s => .ok ((), s.outb port v)
  | .globals f, s => .ok ((f s.globals).1, { s with globals := (f s.globals).2 })
  | .outOfFuel, _ => .error .fuel
  | _, _ => .error .halt

end Board

end PekOS
