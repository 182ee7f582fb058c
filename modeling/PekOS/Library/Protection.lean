import PekOS.Library.I386

/-! The protected mode of an i386: descriptors, what is checked when a segment
register or the task register is loaded, and how an interrupt goes through its
gate. There is no local descriptor table. -/

namespace I386

open LittleEndian

inductive SReg
  | cs
  | ds
  | es
  | fs
  | gs
  | ss
  deriving DecidableEq

/-- The privilege level a selector asks for. -/
def rpl (selector : BitVec 16) : BitVec 2 := selector.extractLsb' 0 2

/-- A selector without its privilege level. -/
def entry (selector : BitVec 16) : BitVec 16 := selector &&& 0xFFFC#16

/-- Exceptions, with their error codes. -/
inductive Exception
  | general (code : BitVec 16)
  | notPresent (code : BitVec 16)
  | stack (code : BitVec 16)
  | taskState (code : BitVec 16)
  deriving DecidableEq

/-- A segment as the processor keeps it. -/
@[ext] structure Segment where
  base : BitVec 32
  limit : BitVec 32
  type : BitVec 4
  system : Bool
  dpl : BitVec 2
  present : Bool
  big : Bool
  deriving DecidableEq

namespace Segment

/-- The segment that the eight bytes of a descriptor describe. -/
def decode (b : Nat → BitVec 8) : Segment where
  base := b 7 ++ b 4 ++ b 3 ++ b 2
  limit :=
    let limit : BitVec 20 := (b 6).extractLsb' 0 4 ++ b 1 ++ b 0
    if (b 6).getLsbD 7 then limit.setWidth 32 <<< 12 ||| 0xFFF#32 else limit.setWidth 32
  type := (b 5).extractLsb' 0 4
  system := !(b 5).getLsbD 4
  dpl := (b 5).extractLsb' 5 2
  present := (b 5).getLsbD 7
  big := (b 6).getLsbD 6

/-- Bits of the type are set in a descriptor. -/
theorem decode_or (b : Nat → BitVec 8) {bits : BitVec 8} (h : ∀ i, 4 ≤ i → bits.getLsbD i = false) :
    decode (fun k => if k = 5 then b 5 ||| bits else b k) =
      { decode b with type := (decode b).type ||| bits.extractLsb' 0 4 } := by
  have hbit (i : Nat) (hi : 4 ≤ i) : (b 5 ||| bits).getLsbD i = (b 5).getLsbD i := by
    rw [BitVec.getLsbD_or, h i hi, Bool.or_false]
  have hdpl : (b 5 ||| bits).extractLsb' 5 2 = (b 5).extractLsb' 5 2 := by
    apply BitVec.eq_of_getLsbD_eq
    intro i hi
    rw [BitVec.getLsbD_extractLsb', BitVec.getLsbD_extractLsb', hbit _ (by omega)]
  have htype : (b 5 ||| bits).extractLsb' 0 4 = (b 5).extractLsb' 0 4 ||| bits.extractLsb' 0 4 :=
    BitVec.extractLsb'_or
  ext1
  · rfl
  · rfl
  · exact htype
  · exact congrArg not (hbit 4 (by decide))
  · exact hdpl
  · exact hbit 7 (by decide)
  · rfl

theorem decode_congr {b b' : Nat → BitVec 8} (h : ∀ k < 8, b k = b' k) : decode b = decode b' := by
  simp only [decode, h 0 (by decide), h 1 (by decide), h 2 (by decide), h 3 (by decide),
    h 4 (by decide), h 5 (by decide), h 6 (by decide), h 7 (by decide)]

variable (d : Segment)

def code : Bool := !d.system && d.type.getLsbD 3

def data : Bool := !d.system && !d.type.getLsbD 3

/-- Of code conforming, of data growing downwards. -/
def conforming : Bool := d.type.getLsbD 2

/-- Of code readable, of data writable. -/
def permits : Bool := d.type.getLsbD 1

/-- A null selector makes the register unusable. -/
def unusable : Segment := ⟨0#32, 0#32, 0#4, false, 0#2, false, false⟩

end Segment

/-- A gate, by the eight bytes of its descriptor. -/
structure Gate where
  offset : BitVec 32
  selector : BitVec 16
  type : BitVec 5
  dpl : BitVec 2
  present : Bool
  deriving DecidableEq

def Gate.decode (b : Nat → BitVec 8) : Gate where
  offset := b 7 ++ b 6 ++ b 1 ++ b 0
  selector := b 3 ++ b 2
  type := (b 5).extractLsb' 0 5
  dpl := (b 5).extractLsb' 5 2
  present := (b 5).getLsbD 7

theorem Gate.decode_congr {b b' : Nat → BitVec 8} (h : ∀ k < 8, b k = b' k) :
    Gate.decode b = Gate.decode b' := by
  simp only [Gate.decode, h 0 (by decide), h 1 (by decide), h 2 (by decide), h 3 (by decide),
    h 5 (by decide), h 6 (by decide), h 7 (by decide)]

structure TableRegister where
  base : BitVec 32
  limit : BitVec 16

structure Processor where
  cpu : Cpu
  cr0 : BitVec 32
  cr3 : BitVec 32
  gdtr : TableRegister
  idtr : TableRegister
  selector : SReg → BitVec 16
  segment : SReg → Segment
  taskSelector : BitVec 16
  task : Segment

/-- The bytes from an address on. -/
def bytesFrom (m : BitVec 32 → BitVec 8) (a : BitVec 32) (k : Nat) : BitVec 8 := m (a + BitVec.ofNat 32 k)

namespace Processor

variable (s : Processor)

def cpl : BitVec 2 := rpl (s.selector .cs)

/-- The address of the descriptor, within the table. -/
def descriptor (selector : BitVec 16) : Option (BitVec 32) :=
  if selector.getLsbD 2 ∨ s.gdtr.limit.toNat < selector.toNat / 8 * 8 + 7 then none
  else some (s.gdtr.base + BitVec.ofNat 32 (selector.toNat / 8 * 8))

def read (a : BitVec 32) : Segment := .decode (bytesFrom s.cpu.mem a)

/-- The bits of a descriptor's fifth byte that the processor sets. -/
def mark (a : BitVec 32) (bits : BitVec 8) : Processor :=
  { s with cpu := { s.cpu with mem := Function.update s.cpu.mem (a + 5#32) (s.cpu.mem (a + 5#32) |||
    bits) } }

/-- A register is loaded with the segment at `a`, which is marked as accessed. -/
def install (r : SReg) (selector : BitVec 16) (a : BitVec 32) : Processor :=
  let t := s.mark a 1#8
  { t with
    selector := Function.update s.selector r selector
    segment := Function.update s.segment r (t.read a) }

/-- `mov` to one of `%ds`, `%es`, `%fs` and `%gs`. -/
def loadData (r : SReg) (selector : BitVec 16) : Except Exception Processor :=
  if entry selector = 0#16 then .ok { s with
    selector := Function.update s.selector r selector
    segment := Function.update s.segment r .unusable }
  else match s.descriptor selector with
    | none => .error (.general (entry selector))
    | some a =>
      let d := s.read a
      if d.system || d.code && !d.permits then .error (.general (entry selector))
      else if !(d.code && d.conforming) && (d.dpl < rpl selector || d.dpl < s.cpl) then
        .error (.general (entry selector))
      else if !d.present then .error (.notPresent (entry selector))
      else .ok (s.install r selector a)

/-- The stack segment for a privilege level; `fault` is the exception for one that is no good. -/
def loadStackAt (level : BitVec 2) (fault : BitVec 16 → Exception) (selector : BitVec 16) :
    Except Exception Processor :=
  if entry selector = 0#16 then .error (fault 0#16)
  else match s.descriptor selector with
    | none => .error (fault (entry selector))
    | some a =>
      let d := s.read a
      if rpl selector ≠ level || !d.data || !d.permits || d.dpl ≠ level then
        .error (fault (entry selector))
      else if !d.present then .error (.stack (entry selector))
      else .ok (s.install .ss selector a)

/-- `mov` to `%ss`. -/
def loadStack (selector : BitVec 16) : Except Exception Processor := s.loadStackAt s.cpl .general selector

/-- A far jump to a code segment. -/
def farJump (selector : BitVec 16) (offset : BitVec 32) : Except Exception Processor :=
  if entry selector = 0#16 then .error (.general 0#16)
  else match s.descriptor selector with
    | none => .error (.general (entry selector))
    | some a =>
      let d := s.read a
      if !d.code then .error (.general (entry selector))
      else if (if d.conforming then s.cpl < d.dpl else s.cpl < rpl selector || d.dpl ≠ s.cpl) then
        .error (.general (entry selector))
      else if !d.present then .error (.notPresent (entry selector))
      else if d.limit < offset then .error (.general 0#16)
      else .ok (s.install .cs (entry selector ||| s.cpl.setWidth 16) a)

/-- `ltr`: the TSS must be available, and becomes busy. -/
def loadTask (selector : BitVec 16) : Except Exception Processor :=
  if entry selector = 0#16 then .error (.general 0#16)
  else match s.descriptor selector with
    | none => .error (.general (entry selector))
    | some a =>
      let d := s.read a
      if !d.system || d.type ≠ 9#4 then .error (.general (entry selector))
      else if !d.present then .error (.notPresent (entry selector))
      else
        let t := s.mark a 2#8
        .ok { t with taskSelector := selector, task := t.read a }

/-- The frame of an interrupt from an outer level, on the stack of the inner one. -/
def interruptInner (c : Cpu) (esp eip : BitVec 32) (ss cs : BitVec 16)
    (error : Option (BitVec 32)) : Cpu :=
  (((c.set .esp esp).push (ss.setWidth 32)).push (c.regs .esp)).interrupt eip (cs.setWidth 32) error

/-- The code segment of a gate is entered at a level at least as privileged. -/
def enterGate (g : Gate) (eip : BitVec 32) (error : Option (BitVec 32)) :
    Except Exception (BitVec 32 × Processor) :=
  if entry g.selector = 0#16 then .error (.general 0#16)
  else match s.descriptor g.selector with
    | none => .error (.general (entry g.selector))
    | some a =>
      let d := s.read a
      if !d.code || s.cpl < d.dpl then .error (.general (entry g.selector))
      else if !d.present then .error (.notPresent (entry g.selector))
      else if d.limit < g.offset then .error (.general 0#16)
      else if d.conforming || d.dpl = s.cpl then
        let t := s.install .cs (entry g.selector ||| s.cpl.setWidth 16) a
        .ok (g.offset, { t with cpu := t.cpu.interrupt eip ((s.selector .cs).setWidth 32) error })
      else
        -- the stack of the level comes from the TSS
        let place := 8 * d.dpl.toNat + 4
        if s.task.limit.toNat < place + 5 then .error (.taskState (entry s.taskSelector))
        else
          let esp := word s.cpu.mem (s.task.base + BitVec.ofNat 32 place)
          let ss := (word s.cpu.mem (s.task.base + BitVec.ofNat 32 (place + 4))).setWidth 16
          match s.loadStackAt d.dpl .taskState ss with
          | .error e => .error e
          | .ok t =>
            let t := t.install .cs (entry g.selector ||| d.dpl.setWidth 16) a
            .ok (g.offset, { t with
              cpu := interruptInner t.cpu esp eip (s.selector .ss) (s.selector .cs) error })

/-- An interrupt through an interrupt gate: the address it goes to, and the state there. -/
def deliver (vector : BitVec 8) (eip : BitVec 32) (error : Option (BitVec 32)) :
    Except Exception (BitVec 32 × Processor) :=
  let code := BitVec.ofNat 16 (vector.toNat * 8 + 2)
  if s.idtr.limit.toNat < vector.toNat * 8 + 7 then .error (.general code)
  else
    let g := Gate.decode (bytesFrom s.cpu.mem (s.idtr.base + BitVec.ofNat 32 (vector.toNat * 8)))
    if g.type ≠ 0b01110#5 then .error (.general code)
    else if !g.present then .error (.notPresent code)
    else s.enterGate g eip error

/-- Registers that an outer level may not keep. -/
def hideData : Processor :=
  [SReg.ds, .es, .fs, .gs].foldl (fun t r =>
    let d := t.segment r
    if !(d.code && d.conforming) && d.dpl < t.cpl then { t with
      selector := Function.update t.selector r 0#16
      segment := Function.update t.segment r .unusable }
    else t) s

/-- `iret`, as in ring 0: to the same level, or to an outer one with its stack. -/
def iret : Except Exception (BitVec 32 × Processor) :=
  let frame (i : Nat) := word s.cpu.mem (s.cpu.regs .esp + BitVec.ofNat 32 (4 * i))
  let eip := frame 0
  let cs := (frame 1).setWidth 16
  if entry cs = 0#16 then .error (.general 0#16)
  else match s.descriptor cs with
    | none => .error (.general (entry cs))
    | some a =>
      let d := s.read a
      if !d.code || rpl cs < s.cpl || (if d.conforming then rpl cs < d.dpl else d.dpl ≠ rpl cs) then
        .error (.general (entry cs))
      else if !d.present then .error (.notPresent (entry cs))
      else if rpl cs = s.cpl then
        if d.limit < eip then .error (.general 0#16)
        else
          let t := s.install .cs cs a
          .ok (eip, { t with cpu := { t.cpu.addEsp 12#32 with eflags := frame 2 } })
      else match s.loadStackAt (rpl cs) .general ((frame 4).setWidth 16) with
        | .error e => .error e
        | .ok t =>
          if d.limit < eip then .error (.general 0#16)
          else
            let t := t.install .cs cs a
            .ok (eip, hideData { t with cpu := { t.cpu.set .esp (frame 3) with eflags := frame 2 } })

section Marks

variable {s : Processor} {a : BitVec 32}

theorem mark_accessed (h : (s.read a).type.getLsbD 0 = true) : s.mark a 1#8 = s := by
  have hbit : (s.cpu.mem (a + 5#32)).getLsbD 0 = true := by
    have htype : (s.read a).type.getLsbD 0 = ((s.cpu.mem (a + 5#32)).extractLsb' 0 4).getLsbD 0 := rfl
    rw [htype, BitVec.getLsbD_extractLsb'] at h
    simpa using h
  have hbyte : s.cpu.mem (a + 5#32) ||| 1#8 = s.cpu.mem (a + 5#32) := by
    apply BitVec.eq_of_getLsbD_eq
    intro i hi
    rw [BitVec.getLsbD_or, BitVec.getLsbD_one]
    rcases Nat.eq_zero_or_pos i with rfl | hpos
    · rw [hbit, Bool.true_or]
    · rw [decide_eq_false (Nat.ne_of_gt hpos), Bool.and_false, Bool.or_false]
  rw [mark, hbyte, Function.update_eq_self]

/-- A segment that has been accessed before is loaded without a change of the table. -/
theorem install_accessed (h : (s.read a).type.getLsbD 0 = true) (r : SReg) (selector : BitVec 16) :
    s.install r selector a = { s with
      selector := Function.update s.selector r selector
      segment := Function.update s.segment r (s.read a) } := by
  rw [install, mark_accessed h]

end Marks

section Frames

/-- A byte that is not among the `n` below the top of the stack. -/
def Clear (top : BitVec 32) (n : Nat) (y : BitVec 32) : Prop := n ≤ (top - 1#32 - y).toNat

theorem Clear.mono {top y : BitVec 32} {m n : Nat} (h : Clear top n y) (hmn : m ≤ n) : Clear top m y :=
  Nat.le_trans hmn h

theorem Clear.sub {top y : BitVec 32} {m n : Nat} (h : Clear top (n + m) y) :
    Clear (top - BitVec.ofNat 32 m) n y := by
  unfold Clear at *
  have hlt := (top - 1#32 - y).isLt
  have hm : (BitVec.ofNat 32 m).toNat = m := by
    rw [BitVec.toNat_ofNat]
    omega
  have hsub : top - BitVec.ofNat 32 m - 1#32 - y = top - 1#32 - y - BitVec.ofNat 32 m := by grind
  rw [hsub, BitVec.toNat_sub_of_le (BitVec.le_def.mpr (by omega)), hm]
  omega

theorem push_mem {c : Cpu} {y : BitVec 32} (h : Clear (c.regs .esp) 4 y) (v : BitVec 32) :
    (c.push v).mem y = c.mem y := by
  refine if_neg ?_
  unfold Clear at h
  have hsub : y - (c.regs .esp - 4#32) = 3#32 - (c.regs .esp - 1#32 - y) := by grind
  rw [hsub]
  bv_omega

theorem pushes_mem {c : Cpu} {y : BitVec 32} {l : List (BitVec 32)}
    (h : Clear (c.regs .esp) (4 * l.length) y) : (c.pushes l).mem y = c.mem y := by
  induction l generalizing c with
  | nil => rfl
  | cons v l ih =>
    rw [List.length_cons, Nat.mul_succ] at h
    refine (ih (c := c.push v) ?_).trans (push_mem (h.mono (by omega)) v)
    rw [push_esp]
    exact h.sub

theorem enter_mem {c : Cpu} {y : BitVec 32} (args : List (BitVec 32)) (next : BitVec 32)
    (h : Clear (c.regs .esp) (4 + 4 * args.length) y) : (c.enter args next).mem y = c.mem y := by
  have hpushed : Clear ((c.pushes args).cld.regs .esp) 4 y := by
    show Clear ((c.pushes args).regs .esp) 4 y
    rw [pushes_esp]
    exact h.sub
  exact (push_mem hpushed next).trans (pushes_mem (h.mono (by omega)))

/-- At most sixteen bytes are pushed when the level stays the same. -/
theorem interrupt_mem {c : Cpu} {y : BitVec 32} (h : Clear (c.regs .esp) 16 y) (eip cs : BitVec 32)
    (error : Option (BitVec 32)) : (c.interrupt eip cs error).mem y = c.mem y := by
  refine pushes_mem (h.mono ?_)
  cases error <;> simp

/-- And at most 24 on the stack of an inner level. -/
theorem interruptInner_mem {c : Cpu} {esp y : BitVec 32} (h : Clear esp 24 y) (eip : BitVec 32)
    (ss cs : BitVec 16) (error : Option (BitVec 32)) :
    (interruptInner c esp eip ss cs error).mem y = c.mem y := by
  have hesp : (c.set .esp esp).regs .esp = esp := by simp [Cpu.set]
  have h1 : Clear ((c.set .esp esp).regs .esp) 4 y := by
    rw [hesp]
    exact h.mono (by decide)
  have h2 : Clear (((c.set .esp esp).push (ss.setWidth 32)).regs .esp) 20 y := by
    rw [push_esp, hesp]
    exact h.sub
  have h3 : Clear ((((c.set .esp esp).push (ss.setWidth 32)).push (c.regs .esp)).regs .esp) 16 y := by
    rw [push_esp]
    exact h2.sub
  exact (interrupt_mem h3 eip _ error).trans ((push_mem (h2.mono (by decide)) _).trans (push_mem h1 _))

end Frames

section Loads

variable {s : Processor} {selector : BitVec 16} {a : BitVec 32} {r : SReg}

theorem loadData_ok (hne : entry selector ≠ 0#16) (ha : s.descriptor selector = some a)
    (hd : (s.read a).data = true) (hr : rpl selector ≤ (s.read a).dpl) (hl : s.cpl ≤ (s.read a).dpl)
    (hp : (s.read a).present = true) :
    s.loadData r selector = .ok (s.install r selector a) := by
  have hdata : (s.read a).system = false ∧ (s.read a).code = false := by
    rw [Segment.data, Bool.and_eq_true, Bool.not_eq_true', Bool.not_eq_true'] at hd
    exact ⟨hd.1, by rw [Segment.code, hd.2, Bool.and_false]⟩
  rw [loadData, if_neg hne, ha]
  dsimp only
  rw [hdata.1, hdata.2, hp, decide_eq_false (BitVec.not_lt.mpr hr),
    decide_eq_false (BitVec.not_lt.mpr hl)]
  rfl

theorem loadStackAt_ok {level : BitVec 2} {fault : BitVec 16 → Exception} (hne : entry selector ≠ 0#16)
    (ha : s.descriptor selector = some a) (hr : rpl selector = level) (hd : (s.read a).data = true)
    (hw : (s.read a).permits = true) (hl : (s.read a).dpl = level) (hp : (s.read a).present = true) :
    s.loadStackAt level fault selector = .ok (s.install .ss selector a) := by
  rw [loadStackAt, if_neg hne, ha]
  dsimp only
  rw [hd, hw, hp, hr, hl]
  simp

theorem farJump_ok {offset : BitVec 32} (hne : entry selector ≠ 0#16)
    (ha : s.descriptor selector = some a) (hd : (s.read a).code = true)
    (hc : (s.read a).conforming = false) (hr : rpl selector ≤ s.cpl) (hl : (s.read a).dpl = s.cpl)
    (hp : (s.read a).present = true) (ho : offset ≤ (s.read a).limit) :
    s.farJump selector offset = .ok (s.install .cs (entry selector ||| s.cpl.setWidth 16) a) := by
  rw [farJump, if_neg hne, ha]
  dsimp only
  rw [hd, hc, hp, hl, decide_eq_false (BitVec.not_lt.mpr hr), if_neg (BitVec.not_lt.mpr ho)]
  simp

theorem loadTask_ok (hne : entry selector ≠ 0#16) (ha : s.descriptor selector = some a)
    (hs : (s.read a).system = true) (ht : (s.read a).type = 9#4) (hp : (s.read a).present = true) :
    s.loadTask selector =
      .ok { s.mark a 2#8 with taskSelector := selector, task := (s.mark a 2#8).read a } := by
  rw [loadTask, if_neg hne, ha]
  dsimp only
  rw [hs, ht, hp]
  simp

/-- A gate to a code segment of the level at which the interrupt comes. -/
theorem enterGate_same {g : Gate} {eip : BitVec 32} {error : Option (BitVec 32)}
    (hne : entry g.selector ≠ 0#16) (ha : s.descriptor g.selector = some a)
    (hd : (s.read a).code = true) (hl : (s.read a).dpl = s.cpl) (hp : (s.read a).present = true)
    (ho : g.offset ≤ (s.read a).limit) :
    s.enterGate g eip error = .ok (g.offset,
      { s.install .cs (entry g.selector ||| s.cpl.setWidth 16) a with
        cpu := (s.install .cs (entry g.selector ||| s.cpl.setWidth 16) a).cpu.interrupt eip
          ((s.selector .cs).setWidth 32) error }) := by
  have hlevel : ¬ s.cpl < (s.read a).dpl := by rw [hl]; exact BitVec.lt_irrefl _
  rw [enterGate, if_neg hne, ha]
  dsimp only
  rw [hd, hp, decide_eq_false hlevel, if_neg (BitVec.not_lt.mpr ho), decide_eq_true hl, Bool.or_true]
  rfl

/-- A gate to an inner level, with a stack for it in the TSS. -/
theorem enterGate_inner {g : Gate} {eip : BitVec 32} {error : Option (BitVec 32)}
    (hne : entry g.selector ≠ 0#16) (ha : s.descriptor g.selector = some a)
    (hd : (s.read a).code = true) (hc : (s.read a).conforming = false) (hl : (s.read a).dpl < s.cpl)
    (hp : (s.read a).present = true) (ho : g.offset ≤ (s.read a).limit)
    (ht : 8 * (s.read a).dpl.toNat + 9 ≤ s.task.limit.toNat) {t : Processor}
    (hss : s.loadStackAt (s.read a).dpl .taskState
      ((word s.cpu.mem (s.task.base + BitVec.ofNat 32 (8 * (s.read a).dpl.toNat + 8))).setWidth
        16) = .ok t) :
    s.enterGate g eip error = .ok (g.offset,
      { t.install .cs (entry g.selector ||| (s.read a).dpl.setWidth 16) a with
        cpu := interruptInner (t.install .cs (entry g.selector ||| (s.read a).dpl.setWidth 16) a).cpu
          (word s.cpu.mem (s.task.base + BitVec.ofNat 32 (8 * (s.read a).dpl.toNat + 4))) eip
          (s.selector .ss) (s.selector .cs) error }) := by
  have hlevel : ¬ s.cpl < (s.read a).dpl := BitVec.not_lt.mpr (BitVec.le_of_lt hl)
  have hne' : (s.read a).dpl ≠ s.cpl := fun he => BitVec.lt_irrefl _ (he ▸ hl)
  rw [enterGate, if_neg hne, ha]
  dsimp only
  rw [hd, hp, hc, decide_eq_false hlevel, decide_eq_false hne', if_neg (BitVec.not_lt.mpr ho), hss,
    if_neg (show ¬ s.task.limit.toNat < 8 * (s.read a).dpl.toNat + 4 + 5 by omega)]
  rfl

/-- To the level that the code is at. -/
theorem iret_same {eip cs eflags : BitVec 32} {stack : List (BitVec 32)}
    (hframe : Holds s.cpu (eip :: cs :: eflags :: stack)) (hcs : cs.setWidth 16 = selector)
    (hne : entry selector ≠ 0#16) (ha : s.descriptor selector = some a)
    (hd : (s.read a).code = true) (hc : (s.read a).conforming = false)
    (hl : (s.read a).dpl = rpl selector) (hr : rpl selector = s.cpl) (hp : (s.read a).present = true)
    (he : eip ≤ (s.read a).limit) : s.iret = .ok (eip, { s.install .cs selector a with
      cpu := { (s.install .cs selector a).cpu.addEsp 12#32 with eflags := eflags } }) := by
  have h0 : word s.cpu.mem (s.cpu.regs .esp + BitVec.ofNat 32 (4 * 0)) = eip := by
    rw [BitVec.add_zero]
    exact hframe.1
  have h1 : word s.cpu.mem (s.cpu.regs .esp + BitVec.ofNat 32 (4 * 1)) = cs := hframe.2.1
  have h2 : word s.cpu.mem (s.cpu.regs .esp + BitVec.ofNat 32 (4 * 2)) = eflags := by
    have hword := hframe.2.2.1
    rwa [BitVec.add_assoc] at hword
  simp only [iret, h0, h1, h2]
  rw [hcs, if_neg hne, ha]
  dsimp only
  rw [hd, hc, hl, hp, hr, if_pos rfl, if_neg (BitVec.not_lt.mpr he), decide_eq_false (BitVec.lt_irrefl _)]
  simp

end Loads

end Processor

end I386
