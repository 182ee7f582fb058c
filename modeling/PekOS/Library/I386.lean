import Mathlib.Logic.Function.Basic
import PekOS.Library.LittleEndian

/-! The instructions of an i386 that work on the stack, and the stack as a list of words. -/

namespace I386

open LittleEndian

inductive Reg
  | eax
  | ecx
  | edx
  | ebx
  | esp
  | ebp
  | esi
  | edi
  deriving DecidableEq

structure Cpu where
  regs : Reg → BitVec 32
  eflags : BitVec 32
  cr2 : BitVec 32
  mem : BitVec 32 → BitVec 8

namespace Cpu

variable (s : Cpu)

def set (r : Reg) (v : BitVec 32) : Cpu := { s with regs := Function.update s.regs r v }

def push (v : BitVec 32) : Cpu :=
  { s.set .esp (s.regs .esp - 4#32) with mem := put s.mem (s.regs .esp - 4#32) v }

/-- `addl $n, %esp`. -/
def addEsp (n : BitVec 32) : Cpu := s.set .esp (s.regs .esp + n)

def top : BitVec 32 := word s.mem (s.regs .esp)

def popl (r : Reg) : Cpu := (s.addEsp 4#32).set r s.top

def pushes (l : List (BitVec 32)) : Cpu := l.foldl push s

/-- The registers as they were before the first push. -/
def pushal : Cpu := s.pushes ([.eax, .ecx, .edx, .ebx, .esp, .ebp, .esi, .edi].map s.regs)

/-- Pops into registers; for `none` the word is skipped. -/
def pops (l : List (Option Reg)) : Cpu :=
  l.foldl (fun t r => match r with
    | some r => t.popl r
    | none => t.addEsp 4#32) s

def popal : Cpu :=
  s.pops [some .edi, some .esi, some .ebp, none, some .ebx, some .edx, some .ecx, some .eax]

/-- `cld`; the direction flag is bit 10. -/
def cld : Cpu := { s with eflags := s.eflags &&& ~~~0x400#32 }

/-- An interrupt through an interrupt gate, of the same privilege level: IF, TF, NT, RF and
VM are cleared. Some exceptions have an error code. -/
def interrupt (eip cs : BitVec 32) (error : Option (BitVec 32)) : Cpu :=
  { s.pushes ([s.eflags, cs, eip] ++ error.toList) with eflags := s.eflags &&& ~~~0x34300#32 }

def iret : (BitVec 32 × BitVec 32) × Cpu :=
  let eip := s.top
  let t := s.addEsp 4#32
  let cs := t.top
  let t := t.addEsp 4#32
  ((eip, cs), { t.addEsp 4#32 with eflags := t.top })

end Cpu

/-- `H` are the functions that are called. -/
inductive Instr (H : Type)
  | pushal
  | popal
  | pushImm (v : BitVec 32)
  | push (r : Reg)
  | pushAt (offset : BitVec 32)
  | popl (r : Reg)
  | movCr2 (r : Reg)
  | addEsp (n : BitVec 32)
  | cld
  | call (h : H)
  | iret

section Run

variable {H : Type} (callee : H → Cpu → Cpu) (next : BitVec 32)

/-- Up to the `iret`: the calls, each with the state the function is entered in, and the state
the `iret` is executed in. `next` is the address behind the call. -/
def run : List (Instr H) → Cpu → Option (List (H × Cpu) × Cpu)
  | [], _ => none
  | .iret :: _, s => some ([], s)
  | .call h :: code, s =>
    let entry := s.push next
    (run code (callee h entry)).map fun r => ((h, entry) :: r.1, r.2)
  | .pushal :: code, s => run code s.pushal
  | .popal :: code, s => run code s.popal
  | .pushImm v :: code, s => run code (s.push v)
  | .push r :: code, s => run code (s.push (s.regs r))
  | .pushAt offset :: code, s => run code (s.push (word s.mem (s.regs .esp + offset)))
  | .popl r :: code, s => run code (s.popl r)
  | .movCr2 r :: code, s => run code (s.set r s.cr2)
  | .addEsp n :: code, s => run code (s.addEsp n)
  | .cld :: code, s => run code s.cld

end Run

/-- The words from `p` upwards. -/
def Words (m : BitVec 32 → BitVec 8) : BitVec 32 → List (BitVec 32) → Prop
  | _, [] => True
  | p, w :: l => word m p = w ∧ Words m (p + 4#32) l

section Words

variable {m m' : BitVec 32 → BitVec 8} {p : BitVec 32} {l l' : List (BitVec 32)}

theorem add_four (p : BitVec 32) (n : Nat) :
    p + 4#32 + BitVec.ofNat 32 n = p + BitVec.ofNat 32 (n + 4) := by
  rw [BitVec.add_assoc, ← BitVec.ofNat_add, Nat.add_comm]

theorem Words.congr (h : ∀ k < 4 * l.length, m' (p + BitVec.ofNat 32 k) = m (p + BitVec.ofNat 32 k))
    (hl : Words m p l) : Words m' p l := by
  induction l generalizing p with
  | nil => trivial
  | cons w l ih =>
    rw [List.length_cons] at h
    have h0 := h 0 (by omega)
    rw [BitVec.add_zero] at h0
    refine ⟨(word_congr h0 fun k hk => h k (by omega)).trans hl.1, ih (fun k hk => ?_) hl.2⟩
    rw [add_four]
    exact h (k + 4) (by omega)

theorem words_append :
    Words m p (l ++ l') ↔ Words m p l ∧ Words m (p + BitVec.ofNat 32 (4 * l.length)) l' := by
  induction l generalizing p with
  | nil =>
    rw [List.nil_append, List.length_nil, BitVec.add_zero]
    exact ⟨fun h => ⟨trivial, h⟩, fun h => h.2⟩
  | cons w l ih =>
    rw [List.cons_append, Words, Words, ih, and_assoc, add_four, List.length_cons, Nat.mul_succ]

theorem Words.put (h : Words m p l) (hroom : 4 * (l.length + 1) ≤ 2 ^ 32) (v : BitVec 32) :
    Words (put m (p - 4#32) v) (p - 4#32) (v :: l) := by
  refine ⟨word_put (by decide) m (p - 4#32) v, ?_⟩
  rw [BitVec.sub_add_cancel]
  refine h.congr fun k hk => ?_
  have hfar : (p + BitVec.ofNat 32 k - (p - 4#32)).toNat = k + 4 := by
    rw [show p + BitVec.ofNat 32 k - (p - 4#32) = BitVec.ofNat 32 (k + 4) by
      rw [BitVec.ofNat_add]
      grind, BitVec.toNat_ofNat]
    omega
  exact if_neg (by omega)

end Words

/-- The words on the stack, from its top. -/
def Holds (s : Cpu) (l : List (BitVec 32)) : Prop := Words s.mem (s.regs .esp) l

section Holds

variable {s t : Cpu} {l : List (BitVec 32)} {v w : BitVec 32} {r : Reg}

theorem push_regs (h : r ≠ .esp) (s : Cpu) (v : BitVec 32) : (s.push v).regs r = s.regs r :=
  Function.update_of_ne h _ _

theorem push_esp (s : Cpu) (v : BitVec 32) :
    (s.push v).regs .esp = s.regs .esp - 4#32 := by simp [Cpu.push, Cpu.set]

theorem addEsp_regs (h : r ≠ .esp) (s : Cpu) (n : BitVec 32) : (s.addEsp n).regs r = s.regs r :=
  Function.update_of_ne h _ _

theorem addEsp_esp (s : Cpu) (n : BitVec 32) :
    (s.addEsp n).regs .esp = s.regs .esp + n := by simp [Cpu.addEsp, Cpu.set]

theorem popl_regs_self (s : Cpu) (r : Reg) : (s.popl r).regs r = s.top := Function.update_self _ _ _

theorem popl_regs {r' : Reg} (h : r' ≠ r) (s : Cpu) : (s.popl r).regs r' = (s.addEsp 4#32).regs r' :=
  Function.update_of_ne h _ _

theorem Holds.push (h : Holds s l) (hroom : 4 * (l.length + 1) ≤ 2 ^ 32) (v : BitVec 32) :
    Holds (s.push v) (v :: l) := by
  rw [Holds, push_esp]
  exact Words.put h hroom v

theorem Holds.top (h : Holds s (w :: l)) : s.top = w := h.1

theorem Holds.addEsp (h : Holds s (w :: l)) : Holds (s.addEsp 4#32) l := by
  rw [Holds, addEsp_esp]
  exact h.2

theorem Holds.popl (h : Holds s (w :: l)) (hr : r ≠ .esp) : Holds (s.popl r) l := by
  rw [Holds, popl_regs hr.symm]
  exact h.addEsp

theorem set_regs {r' : Reg} (h : r' ≠ r) (s : Cpu) (v : BitVec 32) : (s.set r v).regs r' = s.regs r' :=
  Function.update_of_ne h _ _

theorem Holds.set (h : Holds s l) (hr : r ≠ .esp) (v : BitVec 32) : Holds (s.set r v) l := by
  rw [Holds, set_regs hr.symm]
  exact h

theorem Holds.append {l' : List (BitVec 32)} (h : Holds s (l ++ l')) : Holds s l := (words_append.mp h).1

theorem pushes_regs (h : r ≠ .esp) (s : Cpu) (l : List (BitVec 32)) : (s.pushes l).regs r = s.regs r := by
  induction l generalizing s with
  | nil => rfl
  | cons v l ih => exact (ih (s.push v)).trans (push_regs h s v)

theorem pushes_esp (s : Cpu) (l : List (BitVec 32)) :
    (s.pushes l).regs .esp = s.regs .esp - BitVec.ofNat 32 (4 * l.length) := by
  induction l generalizing s with
  | nil => exact (BitVec.sub_zero _).symm
  | cons v l ih =>
    refine (ih (s.push v)).trans ?_
    rw [push_esp, List.length_cons, Nat.mul_succ, BitVec.ofNat_add]
    grind

theorem Holds.pushes (h : Holds s l) (vs : List (BitVec 32))
    (hroom : 4 * (vs.length + l.length) ≤ 2 ^ 32) : Holds (s.pushes vs) (vs.reverse ++ l) := by
  induction vs generalizing s l with
  | nil => exact h
  | cons v vs ih =>
    rw [List.length_cons] at hroom
    rw [List.reverse_cons, List.append_assoc]
    exact ih (h.push (by omega) v) (by rw [List.length_append, List.length_singleton]; omega)

theorem Holds.pops {rs : List (Option Reg)} {val : Option Reg → BitVec 32} (hrs : some .esp ∉ rs)
    (h : Holds s (rs.map val ++ l)) : Holds (s.pops rs) l ∧
      (s.pops rs).regs .esp = s.regs .esp + BitVec.ofNat 32 (4 * rs.length) ∧
      ∀ r, r ≠ .esp → (s.pops rs).regs r = if some r ∈ rs then val (some r) else s.regs r := by
  induction rs generalizing s with
  | nil => exact ⟨h, (BitVec.add_zero _).symm, fun r _ => rfl⟩
  | cons a rs ih =>
    rw [List.mem_cons, not_or] at hrs
    cases a with
    | none =>
      obtain ⟨hholds, hesp, hregs⟩ := ih hrs.2 h.addEsp
      refine ⟨hholds, ?_, fun r hr => ?_⟩
      · refine hesp.trans ?_
        rw [addEsp_esp, List.length_cons, Nat.mul_succ, add_four]
      · refine (hregs r hr).trans ?_
        rw [addEsp_regs hr]
        simp
    | some r' =>
      have hr' : r' ≠ .esp := fun he => hrs.1 (congrArg some he.symm)
      obtain ⟨hholds, hesp, hregs⟩ := ih hrs.2 (h.popl hr')
      refine ⟨hholds, ?_, fun r hr => ?_⟩
      · refine hesp.trans ?_
        rw [popl_regs hr'.symm, addEsp_esp, List.length_cons, Nat.mul_succ, add_four]
      · refine (hregs r hr).trans ?_
        by_cases he : r = r'
        · subst he
          rw [popl_regs_self, h.top, if_pos List.mem_cons_self]
          exact ite_self _
        · rw [popl_regs he, addEsp_regs hr]
          simp [he]

theorem pushes_cr2 (s : Cpu) (l : List (BitVec 32)) : (s.pushes l).cr2 = s.cr2 := by
  induction l generalizing s with
  | nil => rfl
  | cons v l ih => exact ih (s.push v)

variable {eip cs flags : BitVec 32}

theorem Holds.interrupt (h : Holds s l) (eip cs : BitVec 32) (error : Option (BitVec 32))
    (hroom : 4 * (4 + l.length) ≤ 2 ^ 32) :
    Holds (s.interrupt eip cs error) (error.toList ++ eip :: cs :: s.eflags :: l) := by
  cases error with
  | none =>
    have hframe : 4 * (3 + l.length) ≤ 2 ^ 32 := by omega
    exact h.pushes [s.eflags, cs, eip] hframe
  | some code => exact h.pushes [s.eflags, cs, eip, code] hroom

theorem interrupt_regs (h : r ≠ .esp) (s : Cpu) (eip cs : BitVec 32) (error : Option (BitVec 32)) :
    (s.interrupt eip cs error).regs r = s.regs r := pushes_regs h s _

theorem interrupt_esp (s : Cpu) (eip cs : BitVec 32) (error : Option (BitVec 32)) :
    (s.interrupt eip cs error).regs .esp = s.regs .esp - BitVec.ofNat 32
    (4 * (3 + error.toList.length)) := by
  refine (pushes_esp s _).trans ?_
  rw [List.length_append]
  rfl

theorem interrupt_cr2 (s : Cpu) (eip cs : BitVec 32) (error : Option (BitVec 32)) :
    (s.interrupt eip cs error).cr2 = s.cr2 := pushes_cr2 s _

theorem iret_restores (h : Holds t (eip :: cs :: flags :: l)) :
    t.iret.1 = (eip, cs) ∧ t.iret.2.eflags = flags ∧
    t.iret.2.regs .esp = t.regs .esp + 12#32 ∧ ∀ r, r ≠ .esp → t.iret.2.regs r = t.regs r := by
  refine ⟨Prod.ext h.top h.addEsp.top, h.addEsp.addEsp.top, ?_, fun r hr => ?_⟩
  · show (((t.addEsp 4#32).addEsp 4#32).addEsp 4#32).regs .esp = _
    rw [addEsp_esp, addEsp_esp, addEsp_esp, BitVec.add_assoc, BitVec.add_assoc]
    rfl
  · show (((t.addEsp 4#32).addEsp 4#32).addEsp 4#32).regs r = _
    rw [addEsp_regs hr, addEsp_regs hr, addEsp_regs hr]

end Holds

/-- A function has been entered in `c` and has returned in `t`, by the C calling convention: of
the caller's it may have changed `%eax`, `%ecx`, `%edx`, the flags and its own arguments.
`above` bytes of the stack lie above these. -/
structure Cdecl (args above : Nat) (c t : Cpu) : Prop where
  esp : t.regs .esp = c.regs .esp + 4#32
  saved : ∀ r ∈ [Reg.ebx, .ebp, .esi, .edi], t.regs r = c.regs r
  stack : ∀ i < above, t.mem (c.regs .esp + BitVec.ofNat 32 (4 * (args + 1) + i)) =
    c.mem (c.regs .esp + BitVec.ofNat 32 (4 * (args + 1) + i))

/-- The state a function is entered in that is called with the direction flag cleared. The
arguments are in the order in which they are pushed. -/
def Cpu.enter (u : Cpu) (args : List (BitVec 32)) (next : BitVec 32) : Cpu :=
  (u.pushes args).cld.push next

section Calls

variable {s c t u : Cpu} {next : BitVec 32} {args l : List (BitVec 32)}

theorem Cdecl.holds (h : Cdecl args.length (4 * l.length) c t) (hc : Holds c (next :: args ++ l)) :
    Words t.mem (t.regs .esp + BitVec.ofNat 32 (4 * args.length)) l := by
  rw [h.esp, add_four]
  refine (words_append.mp hc).2.congr fun k hk => ?_
  have hkept := h.stack k hk
  rw [BitVec.ofNat_add, ← BitVec.add_assoc] at hkept
  exact hkept

/-- The registers that were pushed before a call are popped after it. -/
theorem Cdecl.popal (h : Cdecl args.length (4 * (8 + l.length)) c t)
    (hc : Holds c (next :: args ++ ([Reg.edi, .esi, .ebp, .esp, .ebx, .edx, .ecx, .eax].map s.regs ++ l)))
    (hesp : c.regs .esp = s.regs .esp - BitVec.ofNat 32 (4 * (9 + args.length))) (hmem : u.mem = t.mem)
    (hu : u.regs .esp = t.regs .esp + BitVec.ofNat 32 (4 * args.length)) :
    u.popal.regs = s.regs ∧ Holds u.popal l := by
  have hholds : Holds u ([some Reg.edi, some .esi, some .ebp, none, some .ebx, some .edx, some .ecx,
      some .eax].map
      (fun r => s.regs (r.getD .esp)) ++ l) := by
    rw [Holds, hmem, hu]
    refine Cdecl.holds ?_ hc
    rw [List.length_append]
    exact h
  obtain ⟨hl, hpopped, hregs⟩ := Holds.pops (by decide) hholds
  refine ⟨funext fun r => ?_, hl⟩
  by_cases hr : r = .esp
  · subst hr
    refine hpopped.trans ?_
    have hpushed : BitVec.ofNat 32 (4 * (9 + args.length)) = 36#32 + BitVec.ofNat 32
        (4 * args.length) := by
      rw [Nat.mul_add, BitVec.ofNat_add]
    rw [hu, h.esp, hesp, hpushed]
    show _ + _ + _ + 32#32 = _
    grind
  · refine (hregs r hr).trans ?_
    cases r <;> first | rfl | exact absurd rfl hr

theorem Holds.enter (h : Holds u l) (args : List (BitVec 32))
    (hroom : 4 * (args.length + l.length + 1) ≤ 2 ^ 32) (next : BitVec 32) :
    Holds (u.enter args next) (next :: args.reverse ++ l) := by
  have hargs : Holds (u.pushes args).cld (args.reverse ++ l) := h.pushes args (by omega)
  exact hargs.push (by rw [List.length_append, List.length_reverse]; omega) next

theorem enter_esp (u : Cpu) (args : List (BitVec 32)) (next : BitVec 32) :
    (u.enter args next).regs .esp = u.regs .esp - BitVec.ofNat 32 (4 * args.length) - 4#32 := by
  rw [Cpu.enter, push_esp]
  exact congrArg (· - 4#32) (pushes_esp u args)

theorem enter_nil (u : Cpu) (next : BitVec 32) : u.enter [] next = u.cld.push next := rfl

theorem enter_eflags (u : Cpu) (args : List (BitVec 32)) (next : BitVec 32) :
    (u.enter args next).eflags.getLsbD 10 = false := by
  show ((u.pushes args).eflags &&& ~~~0x400#32).getLsbD 10 = false
  rw [BitVec.getLsbD_and, show (~~~0x400#32).getLsbD 10 = false by decide, Bool.and_false]

end Calls

end I386
