import PekOS.Library.Protection

/-! Instructions of routines that load the registers of protected mode. -/

namespace I386

open LittleEndian

inductive Ins
  | movImm (v : BitVec 32) (r : Reg)
  | movLow (v : BitVec 16) (r : Reg)
  | load (offset : BitVec 32) (base dst : Reg)
  | loadLow (offset : BitVec 32) (base dst : Reg)
  | store (r : Reg) (a : BitVec 32)
  | storeLow (r : Reg) (a : BitVec 32)
  | subLow (v : BitVec 16) (r : Reg)
  | lgdt (a : BitVec 32)
  | ljmp (selector : BitVec 16) (offset : BitVec 32)
  | loadSegment (src : Reg) (r : SReg)
  | ltr (r : Reg)

/-- Two bytes of memory. -/
def half (m : BitVec 32 → BitVec 8) (p : BitVec 32) : BitVec 16 := m (p + 1#32) ++ m p

/-- The lower half of a register is replaced. -/
def lowered (v : BitVec 32) (low : BitVec 16) : BitVec 32 := v.extractLsb' 16 16 ++ low

/-- The flags that a subtraction of 16 bits leaves: CF, PF, AF, ZF, SF and OF. -/
def subFlags (a b : BitVec 16) (eflags : BitVec 32) : BitVec 32 :=
  let d := a - b
  let bit (c : Bool) (i : Nat) : BitVec 32 := if c then 1#32 <<< i else 0#32
  (eflags &&& ~~~0x8D5#32) ||| bit (a < b) 0 ||| bit ((List.range 8).countP (d.getLsbD ·) % 2 = 0) 2 |||
    bit (a.setWidth 4 < b.setWidth 4) 4 ||| bit (d = 0#16) 6 ||| bit d.msb 7 |||
    bit (a.msb ≠ b.msb ∧ a.msb ≠ d.msb) 11

namespace Processor

variable (s : Processor)

def withCpu (c : Cpu) : Processor := { s with cpu := c }

/-- A selector for one of the segment registers. -/
def loadSegment (r : SReg) (selector : BitVec 16) : Except Exception Processor :=
  if r = .ss then s.loadStack selector else s.loadData r selector

def exec (i : Ins) : Except Exception Processor :=
  let c := s.cpu
  match i with
  | .movImm v r => .ok (s.withCpu (c.set r v))
  | .movLow v r => .ok (s.withCpu (c.set r (lowered (c.regs r) v)))
  | .load offset base dst => .ok (s.withCpu (c.set dst (word c.mem (c.regs base + offset))))
  | .loadLow offset base dst =>
    .ok (s.withCpu (c.set dst (lowered (c.regs dst) (half c.mem (c.regs base + offset)))))
  | .store r a => .ok (s.withCpu { c with mem := put c.mem a (c.regs r) })
  | .storeLow r a => .ok (s.withCpu { c with mem := write c.mem a ((c.regs r).setWidth 16) })
  | .subLow v r =>
    let low := (c.regs r).setWidth 16
    .ok (s.withCpu { c.set r (lowered (c.regs r) (low - v)) with eflags := subFlags low v c.eflags })
  | .lgdt a => .ok { s with gdtr := ⟨word c.mem (a + 2#32), half c.mem a⟩ }
  | .ljmp selector offset => s.farJump selector offset
  | .loadSegment src r => s.loadSegment r ((c.regs src).setWidth 16)
  | .ltr r => s.loadTask ((c.regs r).setWidth 16)

/-- A routine, up to the `ret` at its end. -/
def execs (code : List Ins) : Except Exception Processor := code.foldlM exec s

variable {s} in
theorem execs_cons {i : Ins} {code : List Ins} {t : Processor} (h : s.exec i = .ok t) :
    s.execs (i :: code) = t.execs code := by
  rw [execs, List.foldlM_cons, h]
  rfl

end Processor

section Halves

variable {m : BitVec 32 → BitVec 8} {p : BitVec 32}

theorem half_eq (m : BitVec 32 → BitVec 8) (p : BitVec 32) : half m p = (word m p).setWidth 16 := by
  apply BitVec.eq_of_getLsbD_eq
  intro i hi
  simp only [half, word, BitVec.getLsbD_append, BitVec.getLsbD_setWidth]
  grind

theorem lowered_low (v : BitVec 32) (low : BitVec 16) : (lowered v low).setWidth 16 = low := by
  apply BitVec.eq_of_getLsbD_eq
  intro i hi
  simp only [lowered, BitVec.getLsbD_append, BitVec.getLsbD_setWidth]
  grind

theorem half_write (x : BitVec 16) : half (write m p x) p = x := by
  have h0 := write_add (by decide) m p x (k := 0) (by decide)
  rw [BitVec.add_zero] at h0
  rw [half, write_add (by decide) m p x (by decide), h0]
  apply BitVec.eq_of_getLsbD_eq
  intro i hi
  simp only [BitVec.getLsbD_append, BitVec.getLsbD_extractLsb']
  grind

end Halves

end I386
