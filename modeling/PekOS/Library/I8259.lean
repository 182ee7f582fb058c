import Mathlib.Data.Fintype.Basic
import Mathlib.Data.Fintype.BigOperators

/-! The 8259 interrupt controller: its initialisation sequence, its mask and the
end of an interrupt. The priorities are fixed, line 0 having the highest. -/

namespace I8259

/-- What the next word on the data port is taken for. -/
inductive Phase
  | icw2
  | icw3
  | icw4
  | ready
  deriving DecidableEq

/-- `cascade` is ICW3: the lines with a slave, or the line of the master a slave
is on. `readIsr` is the register the next read of the command port returns. -/
structure Chip where
  imr : BitVec 8
  irr : BitVec 8
  isr : BitVec 8
  base : BitVec 8
  cascade : BitVec 8
  phase : Phase
  single : Bool
  needsIcw4 : Bool
  mode8086 : Bool
  autoEoi : Bool
  readIsr : Bool

def Chip.idle : Chip where
  imr := 0#8
  irr := 0#8
  isr := 0#8
  base := 0#8
  cascade := 0#8
  phase := .ready
  single := false
  needsIcw4 := false
  mode8086 := false
  autoEoi := false
  readIsr := false

/-- The line of the highest priority is the lowest bit that is set. -/
def endOfInterrupt (isr : BitVec 8) : BitVec 8 := isr &&& (isr - 1#8)

theorem getLsbD_or_bit (v : BitVec 8) {i j : Nat} (hj : j < 8) :
    (v ||| 1#8 <<< i).getLsbD j = (v.getLsbD j || decide (j = i)) := by
  rw [BitVec.getLsbD_or, BitVec.getLsbD_shiftLeft, BitVec.getLsbD_one]
  congr 1
  grind

theorem getLsbD_and_not_bit (v : BitVec 8) {i j : Nat} (hj : j < 8) :
    (v &&& ~~~(1#8 <<< i)).getLsbD j = (v.getLsbD j && decide (j ≠ i)) := by
  rw [BitVec.getLsbD_and, BitVec.getLsbD_not, BitVec.getLsbD_shiftLeft, BitVec.getLsbD_one]
  congr 1
  grind

theorem base_of_multiple (v : BitVec 8) (h : v.toNat % 8 = 0) : v &&& 0xF8#8 = v := by
  revert v
  decide

namespace Chip

variable (c : Chip)

/-- A word on the command port: ICW1, OCW3 or OCW2. -/
def writeCommand (v : BitVec 8) : Chip :=
  if v.getLsbD 4 then
    { c with
      imr := 0#8
      phase := .icw2
      single := v.getLsbD 1
      needsIcw4 := v.getLsbD 0
      mode8086 := v.getLsbD 0 && c.mode8086
      autoEoi := v.getLsbD 0 && c.autoEoi
      readIsr := false }
  else if v.getLsbD 3 then
    if v.getLsbD 1 then { c with readIsr := v.getLsbD 0 } else c
  else if v.getLsbD 5 then
    if v.getLsbD 6 then { c with isr := c.isr &&& ~~~(1#8 <<< (v &&& 7#8).toNat) }
    else { c with isr := endOfInterrupt c.isr }
  else c

def writeData (v : BitVec 8) : Chip :=
  let afterIcw3 : Phase := if c.needsIcw4 then .icw4 else .ready
  match c.phase with
  | .icw2 => { c with base := v &&& 0xF8#8, phase := if c.single then afterIcw3 else .icw3 }
  | .icw3 => { c with cascade := v, phase := afterIcw3 }
  | .icw4 => { c with mode8086 := v.getLsbD 0, autoEoi := v.getLsbD 1, phase := .ready }
  | .ready => { c with imr := v }

def readCommand : BitVec 8 := if c.readIsr then c.isr else c.irr

def readData : BitVec 8 := c.imr

/-- The interrupt on `line` is delivered. -/
def accept (line : BitVec 8) : Chip :=
  let bit := 1#8 <<< line.toNat
  { c with
    irr := c.irr &&& ~~~bit
    isr := if c.autoEoi then c.isr else c.isr ||| bit }

def vector (line : BitVec 8) : BitVec 8 := c.base ||| line

/-- Out of initialisation, one of a pair, and in 8086 mode. -/
structure Initialised (cascade base : BitVec 8) : Prop where
  phase : c.phase = .ready
  single : c.single = false
  cascade : c.cascade = cascade
  mode8086 : c.mode8086 = true
  autoEoi : c.autoEoi = false
  base : c.base = base

variable {c}

@[simp] theorem writeData_of_ready (h : c.phase = .ready) (v : BitVec 8) :
    c.writeData v = { c with imr := v } := by
  simp [writeData, h]

/-- An acknowledgement ends the service of the only line in service. -/
theorem accept_endOfInterrupt (h : c.isr = 0#8) (ha : c.autoEoi = false) {line : BitVec 8}
    (hl : line < 8#8) : endOfInterrupt (c.accept line).isr = 0#8 := by
  have hbit : ∀ line : BitVec 8, line < 8#8 → endOfInterrupt (0#8 ||| 1#8 <<< line.toNat) =
      0#8 := by decide
  rw [accept]
  dsimp only
  rw [ha, if_neg (by decide), h]
  exact hbit line hl

namespace Initialised

variable {cascade base : BitVec 8} (h : c.Initialised cascade base)

include h

theorem setImr (v : BitVec 8) : { c with imr := v }.Initialised cascade base :=
  ⟨h.phase, h.single, h.cascade, h.mode8086, h.autoEoi, h.base⟩

theorem setIsr (v : BitVec 8) : { c with isr := v }.Initialised cascade base :=
  ⟨h.phase, h.single, h.cascade, h.mode8086, h.autoEoi, h.base⟩

theorem accept (line : BitVec 8) : (c.accept line).Initialised cascade base :=
  ⟨h.phase, h.single, h.cascade, h.mode8086, h.autoEoi, h.base⟩

theorem setReadIsr (b : Bool) : { c with readIsr := b }.Initialised cascade base :=
  ⟨h.phase, h.single, h.cascade, h.mode8086, h.autoEoi, h.base⟩

end Initialised

end Chip

end I8259
