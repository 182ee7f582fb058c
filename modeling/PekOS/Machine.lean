import PekOS.Library.Program

/-! The machine the kernel runs on: physical memory (frames of 1024
little-endian words), the two-level walk of the
MMU with CR0.WP set (as `_start` sets it), and the C globals. Every store into
a table is followed by `_flush_TLB` before an access through the changed entry,
so an access is translated by the tables as they stand. -/

namespace PekOS

abbrev Word := BitVec 32
abbrev Byte := BitVec 8
abbrev Frame := BitVec 20
abbrev Index := BitVec 10

abbrev Memory := Frame → Index → Word

def poke (m : Memory) (f : Frame) (i : Index) (w : Word) : Memory :=
  fun f' i' => if f' = f ∧ i' = i then w else m f' i'

@[simp] theorem poke_same (m : Memory) (f : Frame) (i : Index) (w : Word) :
    poke m f i w f i = w := by simp [poke]

theorem poke_of_frame_ne {m : Memory} {f f' : Frame} (h : f' ≠ f) (i i' : Index) (w : Word) :
    poke m f i w f' i' = m f' i' := by simp [poke, h]

theorem poke_of_index_ne {m : Memory} {i i' : Index} (h : i' ≠ i) (f f' : Frame) (w : Word) :
    poke m f i w f' i' = m f' i' := by simp [poke, h]

/-! Page-directory and page-table entries, and the fields of an address. -/

def present (e : Word) : Bool := e.getLsbD 0
def writable (e : Word) : Bool := e.getLsbD 1
def frameOf (e : Word) : Frame := e.extractLsb' 12 20

def dirOf (a : Word) : Index := a.extractLsb' 22 10
def tabOf (a : Word) : Index := a.extractLsb' 12 10
def wordOf (a : Word) : Index := a.extractLsb' 2 10
def offsetOf (a : Word) : BitVec 12 := a.extractLsb' 0 12

def aligned (n : Nat) (a : Word) : Prop := a.toNat % n = 0

instance (n : Nat) (a : Word) : Decidable (aligned n a) := inferInstanceAs (Decidable (_ = _))

structure Mapping where
  frame : Frame
  writable : Bool
  deriving DecidableEq

def Mapping.phys (m : Mapping) (a : Word) : Word := m.frame ++ offsetOf a

/-! The C globals of paging.c, rsdt.c, apic.c and ps2.c. -/

structure Globals where
  virtualMmap : Nat → Word
  curVirtaddrIdx : Nat
  curPhysaddr : Word
  kernelPTIndex : Word
  acpiVersion : Bool
  rsdp : Word
  rsdt : Word
  xsdt : Word
  rsdtPhysaddr : Word
  entries : Word
  madt : Word
  localApic1PhysAddr : Word
  localApic1VirtAddr : Word
  msrAvailable : Bool
  fadt : Word
  firstControllerWorks : Bool
  secondControllerWorks : Bool
  device1 : Byte
  device2 : Byte
  commandRes : Byte

/-- The globals as the image is loaded. -/
def initialGlobals : Globals where
  virtualMmap := fun _ => 0#32
  curVirtaddrIdx := 768 * 32
  curPhysaddr := 0x10000000#32
  kernelPTIndex := 0#32
  acpiVersion := false
  rsdp := 0#32
  rsdt := 0#32
  xsdt := 0#32
  rsdtPhysaddr := 0#32
  entries := 0#32
  madt := 0#32
  localApic1PhysAddr := 0#32
  localApic1VirtAddr := 0#32
  msrAvailable := false
  fadt := 0#32
  firstControllerWorks := false
  secondControllerWorks := false
  device1 := 0#8
  device2 := 0#8
  commandRes := 0#8

/-- `answers` are the bytes the devices put on the I/O bus, in the order in
which they are read. -/
structure Machine where
  mem : Memory
  cr3 : Frame
  globals : Globals
  cpuidEdx : Word
  apicBase : BitVec 64
  answers : Nat → Byte
  asked : Nat

namespace Machine

variable (s : Machine)

def pde (d : Index) : Word := s.mem s.cr3 d

def pte (d t : Index) : Word := s.mem (frameOf (s.pde d)) t

/-- The two-level walk for the page with directory index `d` and table index `t`. -/
def walk (d t : Index) : Option Mapping :=
  if present (s.pde d) && present (s.pte d t) then
    some ⟨frameOf (s.pte d t), PekOS.writable (s.pde d) && PekOS.writable (s.pte d t)⟩
  else none

def translate (a : Word) : Option Word :=
  (s.walk (dirOf a) (tabOf a)).map fun m => m.phys a

end Machine

inductive Lookup
  | findRSDP
  | findByHeader
  | findMADTEntryByType
  deriving DecidableEq

/-- The operations the kernel's code performs. `allocated` and `deref` have no
effect: they mark where `allocate_pt` returns an address and where the result
of a lookup is dereferenced. -/
inductive Op
  | load (a : Word)
  | store (a v : Word)
  | loadByte (a : Word)
  | storeByte (a : Word) (b : Byte)
  | globals (f : Globals → Word × Globals)
  | cpuid
  | rdmsr
  | wrmsr (v : BitVec 64)
  | inb (port : BitVec 16)
  | outb (port : BitVec 16) (b : Byte)
  | halt
  | outOfFuel
  | allocated (p : Word)
  | deref (l : Lookup) (p : Word)

@[reducible] def Op.Res : Op → Type
  | .load _ | .globals _ | .cpuid => Word
  | .loadByte _ | .inb _ => Byte
  | .rdmsr => BitVec 64
  | .outOfFuel => Empty
  | _ => Unit

def Op.address : Op → Option Word
  | .load a | .store a _ | .loadByte a | .storeByte a _ => some a
  | _ => none

/-- Why a run stops short. `halt` is `cli; hlt`, `fuel` the bound on a loop. -/
inductive Stop
  | notPresent (a : Word) (write : Bool)
  | protection (a : Word)
  | halt
  | fuel
  deriving DecidableEq

abbrev Code (α : Type) := OpTree.Prog Op Op.Res α

def byteOf (a w : Word) : Byte := w.extractLsb' (8 * (a.toNat % 4)) 8

def setByte (a w : Word) (b : Byte) : Word :=
  w &&& ~~~((0xFF : Word) <<< (8 * (a.toNat % 4))) ||| (b.setWidth 32) <<< (8 * (a.toNat % 4))

namespace Machine

/-- The mapping an access to `a` goes through, or why it faults. -/
def access (s : Machine) (a : Word) (write : Bool) : Except Stop Mapping :=
  match s.walk (dirOf a) (tabOf a) with
  | none => .error (.notPresent a write)
  | some m => if write && !m.writable then .error (.protection a) else .ok m

def byteAt (s : Machine) (a : Word) : Except Stop Byte :=
  match s.access a false with
  | .ok m => .ok (byteOf a (s.mem m.frame (wordOf a)))
  | .error e => .error e

def putByte (s : Machine) (a : Word) (b : Byte) : Except Stop Machine :=
  match s.access a true with
  | .ok m => .ok { s with
      mem := poke s.mem m.frame (wordOf a) (setByte a (s.mem m.frame (wordOf a)) b) }
  | .error e => .error e

/-- A word that may lie across two words of memory, or two pages. -/
def wordAt (s : Machine) (a : Word) : Except Stop Word := do
  let b₀ ← s.byteAt a
  let b₁ ← s.byteAt (a + 1#32)
  let b₂ ← s.byteAt (a + 2#32)
  let b₃ ← s.byteAt (a + 3#32)
  return b₃ ++ b₂ ++ b₁ ++ b₀

def putWord (s : Machine) (a v : Word) : Except Stop Machine := do
  let s ← s.putByte a (v.extractLsb' 0 8)
  let s ← s.putByte (a + 1#32) (v.extractLsb' 8 8)
  let s ← s.putByte (a + 2#32) (v.extractLsb' 16 8)
  s.putByte (a + 3#32) (v.extractLsb' 24 8)

/-- One operation, an access to an absent page stopping the run: the machine
as the page-fault handler sees it. -/
def exec : (o : Op) → Machine → Except Stop (o.Res × Machine)
  | .load a, s =>
    if aligned 4 a then
      match s.access a false with
      | .ok m => .ok (s.mem m.frame (wordOf a), s)
      | .error e => .error e
    else (s.wordAt a).map fun w => (w, s)
  | .store a v, s =>
    if aligned 4 a then
      match s.access a true with
      | .ok m => .ok ((), { s with mem := poke s.mem m.frame (wordOf a) v })
      | .error e => .error e
    else (s.putWord a v).map fun t => ((), t)
  | .loadByte a, s => (s.byteAt a).map fun b => (b, s)
  | .storeByte a b, s => (s.putByte a b).map fun t => ((), t)
  | .globals f, s => .ok ((f s.globals).1, { s with globals := (f s.globals).2 })
  | .cpuid, s => .ok (s.cpuidEdx, s)
  | .rdmsr, s => .ok (s.apicBase, s)
  | .wrmsr v, s => .ok ((), { s with apicBase := v })
  | .inb _, s => .ok (s.answers s.asked, { s with asked := s.asked + 1 })
  | .outb _ _, s => .ok ((), s)
  | .halt, _ => .error .halt
  | .outOfFuel, _ => .error .fuel
  | .allocated _, s => .ok ((), s)
  | .deref _ _, s => .ok ((), s)

end Machine

namespace Code

open OpTree

def load (a : Word) : Code Word := Prog.perform (Op.load a)
def store (a v : Word) : Code Unit := Prog.perform (Op.store a v)
def loadByte (a : Word) : Code Byte := Prog.perform (Op.loadByte a)
def storeByte (a : Word) (b : Byte) : Code Unit := Prog.perform (Op.storeByte a b)
def globals (f : Globals → Word × Globals) : Code Word := Prog.perform (Op.globals f)
def get (f : Globals → Word) : Code Word := globals fun g => (f g, g)
def flag (f : Globals → Bool) : Code Bool := do
  let w ← get fun g => if f g then 1#32 else 0#32
  return w ≠ 0#32
def modify (f : Globals → Globals) : Code Unit := do
  let _ ← globals fun g => (0, f g)
  return ()
def cpuid : Code Word := Prog.perform Op.cpuid
def rdmsr : Code (BitVec 64) := Prog.perform Op.rdmsr
def wrmsr (v : BitVec 64) : Code Unit := Prog.perform (Op.wrmsr v)
def inb (port : BitVec 16) : Code Byte := Prog.perform (Op.inb port)
def outb (port : BitVec 16) (b : Byte) : Code Unit := Prog.perform (Op.outb port b)
def halt : Code Unit := Prog.perform Op.halt
def outOfFuel {α : Type} : Code α := Prog.perform Op.outOfFuel >>= Empty.elim
def allocated (p : Word) : Code Unit := Prog.perform (Op.allocated p)
def deref (l : Lookup) (p : Word) : Code Unit := Prog.perform (Op.deref l p)

end Code

end PekOS
