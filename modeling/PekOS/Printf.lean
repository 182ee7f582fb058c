import Mathlib.Algebra.Group.Int.Defs
import PekOS.Machine
import PekOS.Library.Loops

/-! printf.c, with the functions of the C library it calls. Lengths are natural
numbers: no string is as long as the address space. -/

namespace PekOS.Stdio

open OpTree

inductive Arg
  | int (w : Word)
  | str (s : List Byte)

/-- What a call works on: the arguments not yet taken, and the bytes passed to `putchar`. -/
structure Console where
  args : List Arg
  output : List Byte

/-- `format i` is a read of the `i`-th byte of the format. `count` has no
effect: it marks where the number of bytes written is updated. -/
inductive Op
  | format (i : Nat)
  | argInt
  | argStr
  | putchar (b : Byte)
  | count (n : Int)
  | outOfFuel

@[reducible] def Op.Res : Op → Type
  | .format _ => Byte
  | .argInt => Word
  | .argStr => List Byte
  | .putchar _ => Int
  | .outOfFuel => Empty
  | _ => Unit

abbrev Code (α : Type) := Prog Op Op.Res α

/-- `undefined` is the use of an argument of another type, or of a missing one. -/
inductive Fault
  | undefined
  | fuel

def Console.emit (s : Console) (data : List Byte) : Console := { s with output := s.output ++ data }

/-- `F` are the bytes from the format's first on. -/
def exec (F : Nat → Byte) : (o : Op) → Console → Except Fault (o.Res × Console)
  | .format i, s => .ok (F i, s)
  | .argInt, s =>
    match s.args with
    | .int w :: args => .ok (w, { s with args := args })
    | _ => .error .undefined
  | .argStr, s =>
    match s.args with
    | .str l :: args => .ok (l, { s with args := args })
    | _ => .error .undefined
  | .putchar b, s => .ok ((b.toNat : Int), s.emit [b])
  | .count _, s => .ok ((), s)
  | .outOfFuel, _ => .error .fuel

namespace Code

def format (i : Nat) : Code Byte := Prog.perform (Op.format i)
def argInt : Code Word := Prog.perform Op.argInt
def argStr : Code (List Byte) := Prog.perform Op.argStr
def putchar (b : Byte) : Code Int := Prog.perform (Op.putchar b)
def count (n : Int) : Code Unit := Prog.perform (Op.count n)
def outOfFuel {α : Type} : Code α := Prog.perform Op.outOfFuel >>= Empty.elim

end Code

open Stdio.Code

def intMax : Int := 0x7FFFFFFF

def percent : Byte := 0x25#8

/-- A C string, byte by byte. -/
abbrev Reader := Nat → Code Byte

/-- The string a list holds, with a terminator after it. -/
def reader (l : List Byte) : Reader := fun i => return l.getD i 0#8

/-- `print`; `EOF` is -1. -/
def print (data : Reader) (length : Nat) : Code Bool := do
  let failed ← Prog.search (fun i => do
    let b ← data i
    let c ← putchar b
    return if c = -1 then some () else none) 0 length
  return failed.isNone

/-- The digits of a number, the last one first. -/
def digits (base : Nat) (digit : Nat → Byte) : Nat → Nat → List Byte
  | 0, _ => []
  | room + 1, num => if num = 0 then [] else digit (num % base) :: digits base digit room (num / base)

def decimalDigit (n : Nat) : Byte := BitVec.ofNat 8 (n + 0x30)

def hexDigit (n : Nat) : Byte := BitVec.ofNat 8 (n + if n < 10 then 0x30 else 0x61 - 10)

/-- The loop that prints collected digits, from the last one down. -/
def printDigits (num : List Byte) : Code Bool := do
  let failed ← Prog.search (fun i => do
    let ok ← print (fun _ => return num.getD (num.length - 1 - i) 0#8) 1
    return if ok then none else some ()) 0 num.length
  return failed.isNone

/-- What a directive adds to the count, or `none` where `printf` returns -1. -/
abbrev Directive := Code (Option Nat)

def printed (ok : Bool) (n : Nat) : Directive := return if ok then some n else none

def formatChar (maxrem : Nat) : Directive := do
  let w ← argInt
  if maxrem = 0 then return none
  else
    let ok ← print (reader [w.setWidth 8]) 1
    printed ok 1

/-- `%u`, and `%d` once the sign is known. -/
def formatDigits (maxrem : Nat) (neg : Bool) (num : List Byte) : Directive := do
  let len := num.length
  if maxrem < len + neg.toNat then return none
  else
    let ok ← if neg then print (reader [0x2D#8]) 1 else pure true
    if ok then
      let ok ← printDigits num
      printed ok (len + neg.toNat)
    else return none

def formatUnsigned (maxrem : Nat) : Directive := do
  let unum ← argInt
  if unum = 0#32 then
    let ok ← print (reader [0x30#8]) 1
    printed ok 1
  else formatDigits maxrem false (digits 10 decimalDigit 32 unum.toNat)

section Nested

-- the calls `printf` makes of itself, with a constant text
variable (nested : List Byte → Code Unit)

def formatInt (maxrem : Nat) : Directive := do
  let num ← argInt
  if num = 0x80000000#32 then
    nested [0x2D#8, 0x32#8, 0x31#8, 0x34#8, 0x37#8, 0x34#8, 0x38#8, 0x33#8, 0x36#8, 0x34#8, 0x38#8]
    return some 11
  else if num = 0#32 then
    let ok ← print (reader [0x30#8]) 1
    printed ok 1
  else formatDigits maxrem (num.msb) (digits 10 decimalDigit 32 num.toInt.natAbs)

def formatHex (maxrem : Nat) : Directive := do
  let hex ← argInt
  if hex = 0#32 then
    nested [0x30#8, 0x78#8, 0x30#8]
    return some 3
  else
    let num := digits 16 hexDigit 8 hex.toNat
    if maxrem < num.length then return none
    else
      nested [0x30#8, 0x78#8]
      let ok ← printDigits num
      printed ok (num.length + 2)

variable (format : Reader) (fuel : Nat)

def strlen (str : Reader) : Code Nat :=
  Prog.loop outOfFuel (fun len => do
    let c ← str len
    return if c ≠ 0#8 then .inl (len + 1) else .inr len) fuel 0

def formatString (maxrem : Nat) : Directive := do
  let l ← argStr
  let len ← strlen fuel (reader l)
  if maxrem < len then return none
  else
    let ok ← print (reader l) len
    printed ok len

/-- The rest of the format, `i` being where the unknown directive begins. -/
def formatRest (i maxrem : Nat) : Directive := do
  let len ← strlen fuel fun k => format (i + k)
  if maxrem < len then return none
  else
    let ok ← print (fun k => format (i + k)) len
    printed ok len

/-- The length of the run of ordinary bytes whose first is at `i`. -/
def literalRun (i : Nat) : Code Nat :=
  Prog.loop outOfFuel (fun amount => do
    let c ← format (i + amount)
    if c = 0#8 then return .inr amount
    else
      let c ← format (i + amount)
      return if c ≠ percent then .inl (amount + 1) else .inr amount) fuel 1

/-- The end of an iteration: the count is updated, and the format continues at `i`. -/
def advance (i : Nat) (written : Int) (r : Option Nat) : Code ((Nat × Int) ⊕ Int) :=
  match r with
  | none => return .inr (-1)
  | some n => do
    count (written + n)
    return .inl (i, written + n)

/-- `INT_MAX - written` as a `size_t`. -/
def remaining (written : Int) : Nat := ((intMax - written) % 2 ^ 32).toNat

def formatLiteral (i : Nat) (written : Int) : Code ((Nat × Int) ⊕ Int) := do
  let c ← format i
  let i := if c = percent then i + 1 else i
  let amount ← literalRun format fuel i
  if remaining written < amount then return .inr (-1)
  else
    let ok ← print (fun k => format (i + k)) amount
    advance (i + amount) written (if ok then some amount else none)

def formatDirective (i : Nat) (written : Int) : Code ((Nat × Int) ⊕ Int) := do
  let maxrem := remaining written
  let c ← format (i + 1)
  if c = 0x63#8 then formatChar maxrem >>= advance (i + 2) written
  else if c = 0x73#8 then formatString fuel maxrem >>= advance (i + 2) written
  else if c = 0x64#8 then formatInt nested maxrem >>= advance (i + 2) written
  else if c = 0x75#8 then formatUnsigned maxrem >>= advance (i + 2) written
  else if c = 0x78#8 then formatHex nested maxrem >>= advance (i + 2) written
  else do
    let r ← formatRest format fuel i maxrem
    advance (i + r.getD 0) written r

/-- One iteration of `printf`'s loop, at byte `i` of the format. -/
def iteration (b : Nat × Int) : Code ((Nat × Int) ⊕ Int) := do
  let (i, written) := b
  let c ← format i
  if c = 0#8 then return .inr written
  else
    let c ← format i
    let literal ← if c ≠ percent then pure true else do
      let d ← format (i + 1)
      pure (d = percent : Bool)
    if literal then formatLiteral format fuel i written
    else formatDirective nested format fuel i written

def printfWith : Code Int := Prog.loop outOfFuel (iteration nested format fuel) fuel (0, 0)

end Nested

/-- `printf`. The formats of the calls it makes of itself hold no directive. -/
def printf (fuel : Nat) : Code Int :=
  printfWith (fun text => do
    let _ ← printfWith (fun _ => outOfFuel) (reader text) fuel
    return ()) format fuel

end PekOS.Stdio
