import PekOS.Machine
import PekOS.Library.Loops

/-! tty.c: the terminal on the 80 by 25 cells of the VGA text buffer. Every
statement of the source is one operation on the static variables, the buffer
or the ports of the CRT controller. -/

namespace PekOS.Tty

open OpTree

abbrev Cell := BitVec 16

def vgaWidth : Word := 80#32
def vgaHeight : Word := 25#32

def vgaEntryColor (fg bg : Byte) : Byte := fg ||| bg <<< 4

def vgaEntry (uc color : Byte) : Cell := uc.setWidth 16 ||| (color.setWidth 16) <<< 8

def newline : Byte := 0x0A#8
def space : Byte := 0x20#8

structure Statics where
  row : Word
  column : Word
  color : Byte

/-- `buffer` is indexed as `terminal_buffer` is; `crt` are the registers of the
CRT controller, one of which is selected by `crtIndex`. -/
structure Terminal extends Statics where
  buffer : Word → Cell
  crtIndex : Byte
  crt : Byte → Byte

/-- `statics` is a statement's look at the static variables; `incRow` returns the new row. -/
inductive Op
  | statics
  | setRow (w : Word)
  | setColumn (w : Word)
  | setColor (b : Byte)
  | incRow
  | decRow
  | incColumn
  | load (i : Word)
  | store (i : Word) (c : Cell)
  | inb (port : BitVec 16)
  | outb (port : BitVec 16) (b : Byte)
  | outOfFuel

@[reducible] def Op.Res : Op → Type
  | .statics => Statics
  | .incRow => Word
  | .load _ => Cell
  | .inb _ => Byte
  | .outOfFuel => Empty
  | _ => Unit

abbrev Code (α : Type) := Prog Op Op.Res α

namespace Terminal

def poke (s : Terminal) (i : Word) (c : Cell) : Terminal :=
  { s with buffer := fun k => if k = i then c else s.buffer k }

def outb (s : Terminal) (port : BitVec 16) (b : Byte) : Terminal :=
  if port = 0x3D4#16 then { s with crtIndex := b }
  else if port = 0x3D5#16 then { s with crt := fun k => if k = s.crtIndex then b else s.crt k }
  else s

/-- Nothing answers on another port. -/
def inb (s : Terminal) (port : BitVec 16) : Byte :=
  if port = 0x3D4#16 then s.crtIndex
  else if port = 0x3D5#16 then s.crt s.crtIndex
  else 0xFF#8

def cursor (s : Terminal) : BitVec 16 := s.crt 0x0E#8 ++ s.crt 0x0F#8

def exec : (o : Op) → Terminal → Except Stop (o.Res × Terminal)
  | .statics, s => .ok (s.toStatics, s)
  | .setRow w, s => .ok ((), { s with row := w })
  | .setColumn w, s => .ok ((), { s with column := w })
  | .setColor b, s => .ok ((), { s with color := b })
  | .incRow, s => .ok (s.row + 1#32, { s with row := s.row + 1#32 })
  | .decRow, s => .ok ((), { s with row := s.row - 1#32 })
  | .incColumn, s => .ok ((), { s with column := s.column + 1#32 })
  | .load i, s => .ok (s.buffer i, s)
  | .store i c, s => .ok ((), s.poke i c)
  | .inb port, s => .ok (s.inb port, s)
  | .outb port b, s => .ok ((), s.outb port b)
  | .outOfFuel, _ => .error .fuel

end Terminal

namespace Code

def statics : Code Statics := Prog.perform Op.statics
def setRow (w : Word) : Code Unit := Prog.perform (Op.setRow w)
def setColumn (w : Word) : Code Unit := Prog.perform (Op.setColumn w)
def setColor (b : Byte) : Code Unit := Prog.perform (Op.setColor b)
def incRow : Code Word := Prog.perform Op.incRow
def decRow : Code Unit := Prog.perform Op.decRow
def incColumn : Code Unit := Prog.perform Op.incColumn
def load (i : Word) : Code Cell := Prog.perform (Op.load i)
def store (i : Word) (c : Cell) : Code Unit := Prog.perform (Op.store i c)
def inb (port : BitVec 16) : Code Byte := Prog.perform (Op.inb port)
def outb (port : BitVec 16) (b : Byte) : Code Unit := Prog.perform (Op.outb port b)
def outOfFuel {α : Type} : Code α := Prog.perform Op.outOfFuel >>= Empty.elim

end Code

section Run

open Terminal

variable (s : Terminal)

@[simp] theorem run_statics : Prog.run exec Code.statics s = .ok (s.toStatics, s) := rfl

@[simp] theorem run_setRow (w : Word) :
    Prog.run exec (Code.setRow w) s = .ok ((), { s with row := w }) := rfl

@[simp] theorem run_setColumn (w : Word) :
    Prog.run exec (Code.setColumn w) s = .ok ((), { s with column := w }) := rfl

@[simp] theorem run_setColor (b : Byte) :
    Prog.run exec (Code.setColor b) s = .ok ((), { s with color := b }) := rfl

@[simp] theorem run_incRow :
    Prog.run exec Code.incRow s = .ok (s.row + 1#32, { s with row := s.row + 1#32 }) := rfl

@[simp] theorem run_incColumn :
    Prog.run exec Code.incColumn s = .ok ((), { s with column := s.column + 1#32 }) := rfl

@[simp] theorem run_load (i : Word) : Prog.run exec (Code.load i) s = .ok (s.buffer i, s) := rfl

@[simp] theorem run_store (i : Word) (c : Cell) :
    Prog.run exec (Code.store i c) s = .ok ((), s.poke i c) := rfl

@[simp] theorem run_outb (port : BitVec 16) (b : Byte) :
    Prog.run exec (Code.outb port b) s = .ok ((), s.outb port b) := rfl

theorem run_outOfFuel {α : Type} (x : α × Terminal) :
    Prog.run exec (Code.outOfFuel : Code α) s ≠ .ok x := nofun

end Run

open Tty.Code

def updateCursor (x y : Word) : Code Unit := do
  let pos : BitVec 16 := (y * vgaWidth + x).setWidth 16
  outb 0x3D4#16 0x0F#8
  outb 0x3D5#16 (pos.setWidth 8)
  outb 0x3D4#16 0x0E#8
  outb 0x3D5#16 ((pos >>> 8).setWidth 8)

def terminalInitialize : Code Unit := do
  setRow 0#32
  setColumn 0#32
  setColor (vgaEntryColor 7#8 0#8)
  Prog.forUp 25 () fun y _ => Prog.forUp 80 () fun x _ => do
    let v ← statics
    store (BitVec.ofNat 32 y * vgaWidth + BitVec.ofNat 32 x) (vgaEntry space v.color)

def terminalPutentryat (c color : Byte) (x y : Word) : Code Unit :=
  store (y * vgaWidth + x) (vgaEntry c color)

def terminalHandlePosition : Code Unit := do
  let v ← statics
  (if v.column = vgaWidth then do
    setColumn 0#32
    let _ ← incRow
  else return ())
  let v ← statics
  if v.row = vgaHeight then do
    setRow 0#32
    setColumn 0#32
  else return ()

/-- `terminal_putchar` past its first branch. -/
def putVisible (uc : Byte) : Code Unit := do
  let v ← statics
  terminalPutentryat uc v.color v.column v.row
  incColumn
  terminalHandlePosition

section Fuel

variable (fuel : Nat)

/-- `terminal_putchar(' ')`, then again while the column is not 0; `fuel` bounds the loop. -/
def terminalClearRestOfLine : Code Unit := do
  putVisible space
  Prog.loop outOfFuel (fun _ => do
    let v ← statics
    if v.column ≠ 0#32 then do
      putVisible space
      return .inl ()
    else return .inr ()) fuel ()

def terminalPutchar (c : Byte) : Code Unit :=
  if c = newline then terminalClearRestOfLine fuel else putVisible c

/-- The loop of `terminal_write`. -/
def putchars : List Byte → Code Unit
  | [] => return ()
  | c :: data => do
    terminalPutchar fuel c
    putchars data

def terminalWrite (data : List Byte) : Code Unit := do
  putchars fuel data
  let v ← statics
  updateCursor v.column v.row

def strlen (data : List Byte) : Nat := (data.takeWhile (· ≠ 0#8)).length

/-- `data` are the bytes from the pointer on, the terminator after them left out. -/
def terminalWritestring (data : List Byte) : Code Unit := terminalWrite fuel (data.take (strlen data))

/-- `putchar` of the C library, as the kernel is linked with it. -/
def putchar (c : Byte) : Code Unit := terminalWrite fuel [c]

end Fuel

def terminalScrollDown (d : Word) : Code Unit :=
  Prog.forUp (vgaHeight - d).toNat () fun i _ => Prog.forUp 80 () fun j _ => do
    let c ← load ((BitVec.ofNat 32 i + d) * vgaWidth + BitVec.ofNat 32 j)
    store (BitVec.ofNat 32 i * vgaWidth + BitVec.ofNat 32 j) c

/-- `terminal_scroll_down_by_amount` has the same body. -/
def terminalScrollDownByAmount (d : Word) : Code Unit := terminalScrollDown d

def terminalNewRow : Code Unit := do
  let row ← incRow
  if row = vgaHeight - 1#32 then do
    terminalScrollDown 1#32
    decRow
  else return ()

end PekOS.Tty
