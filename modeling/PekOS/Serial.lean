import PekOS.Library.Products
import PekOS.Library.Uart16550
import PekOS.Ps2
import PekOS.Stdout

/-! serial.c. `fuel` bounds the polling loops, which wait for the line as long
as it takes. A string is what stands before its terminator, and after it. -/

namespace PekOS

open OpTree Code Uart16550

namespace Serial

def port : BitVec 16 := 0x3F8#16

def baudRate : Byte := 0x0C#8

def isTransmitEmpty : Code Word := do
  let status ← inb (port + 5#16)
  return status.setWidth 32 &&& 0x20#32

def serialReceived : Code Word := do
  let status ← inb (port + 5#16)
  return status.setWidth 32 &&& 1#32

/-- `is_transmit_empty() == 0`, as the condition of a loop. -/
def pollTransmit : Code (Unit ⊕ Unit) := do
  let empty ← isTransmitEmpty
  return if empty = 0#32 then .inl () else .inr ()

def pollReceive : Code (Unit ⊕ Unit) := do
  let received ← serialReceived
  return if received = 0#32 then .inl () else .inr ()

section Fuel

variable (fuel : Nat)

def writeSerial (a : Byte) : Code Unit := do
  Prog.loop outOfFuel (fun _ => pollTransmit) fuel ()
  outb port a

def writeStringSerial : List Byte → Code Unit
  | [] => return ()
  | a :: str => if a = 0#8 then return () else do
    writeSerial fuel a
    writeStringSerial str

def readSerial : Code Byte := do
  Prog.loop outOfFuel (fun _ => pollReceive) fuel ()
  inb port

/-- `init_serial` up to the answer to the test byte. -/
def testSerial : Code Byte := do
  outb (port + 1#16) 0x00#8
  outb (port + 3#16) 0x80#8
  outb (port + 0#16) baudRate
  outb (port + 1#16) 0x00#8
  outb (port + 3#16) 0x03#8
  outb (port + 2#16) 0xC7#8
  outb (port + 4#16) 0x0B#8
  outb (port + 4#16) 0x1E#8
  outb (port + 0#16) 0xAE#8
  inb (port + 0#16)

/-- "IO to serial port enabled\n". -/
def enabled : List Byte :=
  [0x49#8, 0x4F#8, 0x20#8, 0x74#8, 0x6F#8, 0x20#8, 0x73#8, 0x65#8, 0x72#8, 0x69#8, 0x61#8, 0x6C#8,
    0x20#8, 0x70#8, 0x6F#8, 0x72#8, 0x74#8, 0x20#8, 0x65#8, 0x6E#8, 0x61#8, 0x62#8, 0x6C#8, 0x65#8,
    0x64#8, 0x0A#8]

/-- Code that also prints. -/
abbrev Printing (α : Type) := Prog (Op ⊕ Stdio.Call) (Sum.elim Op.Res fun _ => Int) α

def print (c : Stdio.Call) : Printing Int := .op (.inr c) fun n => .ret n

def initSerial : Printing Word := do
  let answer ← testSerial.left
  if answer ≠ 0xAE#8 then return 1#32
  else
    (outb (port + 4#16) 0x0F#8).left
    let _ ← print (.printf enabled [])
    (writeStringSerial fuel enabled).left
    return 0#32

end Fuel

/-- A machine with a UART at the port. `line i` is what happens on its line
before the `i`-th access that is still to come. -/
structure Com1 where
  uart : Uart
  line : Nat → List Line

namespace Com1

variable (s : Com1)

def pass : Com1 := ⟨s.uart.events (s.line 0), fun i => s.line (i + 1)⟩

def offset (p : BitVec 16) : Option (BitVec 3) :=
  if p &&& 0xFFF8#16 = port then some (p.setWidth 3) else none

def read (offset : BitVec 3) : Byte × Com1 :=
  ((s.pass.uart.read offset).1, { s.pass with uart := (s.pass.uart.read offset).2 })

def write (offset : BitVec 3) (v : Byte) : Com1 := { s.pass with uart := s.pass.uart.write offset v }

/-- One operation. What the driver does not perform stops the run. -/
def exec : (o : Op) → Com1 → Except Stop (o.Res × Com1)
  | .inb p, s => match offset p with
    | some o => .ok (s.read o)
    | none => .ok (0xFF#8, s)
  | .outb p v, s => match offset p with
    | some o => .ok ((), s.write o v)
    | none => .ok ((), s)
  | .outOfFuel, _ => .error .fuel
  | _, _ => .error .halt

/-- The transmitter goes on for ever. -/
def Sends : Prop := ∀ i, ∃ j ≥ i, Line.shift ∈ s.line j

/-- Bytes come in for ever. -/
def Receives : Prop := ∀ i, ∃ j ≥ i, ∃ b, Line.arrive b ∈ s.line j

end Com1

/-- The calls the terminal is printed on with. -/
def execPrint (F : Nat) (c : Stdio.Call) (t : Tty.Terminal) : Except Stop (Int × Tty.Terminal) :=
  match c.run F t with
  | .ok (n, t') => .ok (n, t')
  | .error _ => .error .fuel

section Runs

variable {s : Com1}

theorem run_print (F : Nat) (c : Stdio.Call) (s : Com1) (T : Tty.Terminal) :
    Prog.run (Prog.execBoth Com1.exec (execPrint F)) (print c) (s, T) =
      match c.run F T with
      | .ok (n, T') => .ok (n, (s, T'))
      | .error _ => .error .fuel := by
  rw [print, Prog.run, Prog.execBoth, execPrint]
  cases c.run F T <;> rfl

theorem run_inb {p : BitVec 16} {o : BitVec 3} (h : Com1.offset p = some o) (s : Com1) :
    Prog.run Com1.exec (inb p) s = .ok (s.read o) := by
  rw [inb, Prog.run_perform, Com1.exec, h]

theorem run_outb {p : BitVec 16} {o : BitVec 3} (h : Com1.offset p = some o) (v : Byte) (s : Com1) :
    Prog.run Com1.exec (outb p v) s = .ok ((), s.write o v) := by
  rw [outb, Prog.run_perform, Com1.exec, h]

theorem status_eq (b m : Byte) : b.setWidth 32 &&& m.setWidth 32 = 0#32 ↔ b &&& m = 0#8 := by
  rw [← BitVec.setWidth_and]
  constructor
  · intro h
    have hb := congrArg (BitVec.setWidth 8) h
    simpa using hb
  · intro h
    rw [h]
    rfl

theorem outOfFuel_ne_ok {γ : Type} (s : Com1) (x : γ × Com1) :
    Prog.run Com1.exec (outOfFuel : Code γ) s ≠ .ok x := by
  simp [outOfFuel, Prog.run_bind, Com1.exec]

/-- One look at the status. -/
def look (s : Com1) : Com1 := (s.read 5#3).2

theorem run_isTransmitEmpty (s : Com1) :
    Prog.run Com1.exec isTransmitEmpty s = .ok (s.pass.uart.lsr.setWidth 32 &&& 0x20#32, look s) :=
  Prog.run_bind_ok _ (run_inb (o := 5#3) (by decide) s)

theorem run_serialReceived (s : Com1) :
    Prog.run Com1.exec serialReceived s = .ok (s.pass.uart.lsr.setWidth 32 &&& 1#32, look s) :=
  Prog.run_bind_ok _ (run_inb (o := 5#3) (by decide) s)

theorem run_pollTransmit (s : Com1) :
    Prog.run Com1.exec pollTransmit s = .ok (if s.pass.uart.transmit = [] then
      .inr () else .inl (), look s) := by
  rw [pollTransmit, Prog.run_bind_ok _ (run_isTransmitEmpty s)]
  have hbit : s.pass.uart.lsr.setWidth 32 &&& 0x20#32 = 0#32 ↔ s.pass.uart.lsr &&& 0x20#8 = 0#8 :=
    status_eq _ 0x20#8
  by_cases ht : s.pass.uart.transmit = []
  · have hne := Uart.lsr_transmit.mpr ht
    rw [if_pos ht, if_neg (fun h => hne (hbit.mp h))]
    rfl
  · have he := not_not.mp fun h => ht (Uart.lsr_transmit.mp h)
    rw [if_neg ht, if_pos (hbit.mpr he)]
    rfl

theorem run_pollReceive (s : Com1) :
    Prog.run Com1.exec pollReceive s = .ok (if s.pass.uart.receive = [] then
      .inl () else .inr (), look s) := by
  rw [pollReceive, Prog.run_bind_ok _ (run_serialReceived s)]
  have hbit : s.pass.uart.lsr.setWidth 32 &&& 1#32 = 0#32 ↔ s.pass.uart.lsr &&& 1#8 = 0#8 :=
    status_eq _ 1#8
  by_cases hr : s.pass.uart.receive = []
  · have he := not_not.mp fun h => Uart.lsr_receive.mp h hr
    rw [if_pos hr, if_pos (hbit.mpr he)]
    rfl
  · have hne := Uart.lsr_receive.mpr hr
    rw [if_neg hr, if_neg (fun h => hne (hbit.mp h))]
    rfl

end Runs

end Serial

end PekOS
