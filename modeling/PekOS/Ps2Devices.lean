import PekOS.Ps2Writes

/-! A controller with two channels, and the devices on them. -/

namespace PekOS

open OpTree Code

inductive Device
  | keyboard
  | mouse
  deriving DecidableEq

namespace Device

def answer : Device → Byte → List Byte
  | keyboard, 0xFF#8 => [0xFA#8, 0xAA#8]
  | keyboard, 0xF5#8 => [0xFA#8]
  | keyboard, 0xF4#8 => [0xFA#8]
  | keyboard, 0xF2#8 => [0xFA#8, 0xAB#8, 0x83#8]
  | mouse, 0xFF#8 => [0xFA#8, 0xAA#8, 0x00#8]
  | mouse, 0xF5#8 => [0xFA#8]
  | mouse, 0xF4#8 => [0xFA#8]
  | mouse, 0xF2#8 => [0xFA#8, 0x00#8]
  | _, _ => []

/-- The first byte of the identification. -/
def id : Device → Byte
  | keyboard => 0xAB#8
  | mouse => 0x00#8

end Device

/-- A keyboard is on the first port. `afterTest` is what the self-test makes of
the configuration byte. -/
structure Channels where
  second : Device
  afterTest : Byte → Byte

/-- `awaiting` is the command whose data byte comes next. A byte to be read
stands with the number of the byte written last when it was produced; `strays`
counts those read after another byte has been written. -/
structure Desk where
  machine : Machine
  config : Byte
  awaiting : Option Byte
  output : List (Byte × Nat)
  sent : Nat
  strays : Nat

namespace Desk

variable (ch : Channels) (d : Desk)

def respond (answer : List Byte) : Desk :=
  { d with output := d.output ++ answer.map fun b => (b, d.sent) }

/-- A byte written to the command port. -/
def command (b : Byte) : Desk :=
  let d := { d with sent := d.sent + 1 }
  match b with
  | 0x20#8 => d.respond [d.config]
  | 0x60#8 | 0xD4#8 => { d with awaiting := some b }
  | 0xA7#8 => { d with config := d.config ||| 0x20#8 }
  | 0xA8#8 => { d with config := d.config &&& ~~~0x20#8 }
  | 0xA9#8 | 0xAB#8 => d.respond [0x00#8]
  | 0xAA#8 => { d with config := ch.afterTest d.config }.respond [0x55#8]
  | 0xAD#8 => { d with config := d.config ||| 0x10#8 }
  | 0xAE#8 => { d with config := d.config &&& ~~~0x10#8 }
  | _ => d

/-- A byte written to the data port: the configuration, or for a device whose port is enabled. -/
def data (b : Byte) : Desk :=
  let d' := { d with sent := d.sent + 1, awaiting := none }
  match d.awaiting with
  | some 0x60#8 => { d' with config := b }
  | some _ => if d.config &&& 0x20#8 = 0#8 then d'.respond (ch.second.answer b) else d'
  | none => if d.config &&& 0x10#8 = 0#8 then d'.respond (Device.keyboard.answer b) else d'

end Desk

/-- The first byte to be read becomes available after `wait` more reads of the
status, and `delays` are the waits for the ones after it. -/
structure Session where
  desk : Desk
  wait : Nat
  delays : Nat → Nat

namespace Session

variable (ch : Channels)

def status (s : Session) : Byte × Session :=
  if s.desk.output = [] then (0#8, s)
  else if s.wait = 0 then (1#8, s)
  else (0#8, { s with wait := s.wait - 1 })

def take (s : Session) : Byte × Session :=
  if s.wait ≠ 0 then (0#8, s)
  else match s.desk.output with
    | [] => (0#8, s)
    | (b, command) :: output => (b, { s with
        desk := { s.desk with
          output := output
          strays := if command = s.desk.sent then s.desk.strays else s.desk.strays + 1 }
        wait := s.delays 0
        delays := fun i => s.delays (i + 1) })

def exec : (o : Op) → Session → Except Stop (o.Res × Session)
  | .inb port, s => .ok (if port = 0x64#16 then s.status else if port = 0x60#16 then s.take else (0#8, s))
  | .outb port b, s =>
    if port = 0x64#16 then .ok ((), { s with desk := s.desk.command ch b })
    else if port = 0x60#16 then .ok ((), { s with desk := s.desk.data ch b })
    else .ok ((), s)
  | o, s => (Machine.exec o s.desk.machine).map fun x =>
    (x.1, { s with desk := { s.desk with machine := x.2 } })

end Session

end PekOS
