import PekOS.Image
import Mathlib.Logic.Function.Basic

/-! paging.c. The page directory is reached at `0xFFFFF000` and the page table
of directory index `i` at `0xFFC00000 + (i << 12)`, through the directory's own
last entry. The progress messages are left out. -/

namespace PekOS

open OpTree Code

/-- `get_pe_value`. An absent page-table entry is reported but still returned. -/
def getPeValue (virtualaddr : Word) : Code Word := do
  let pdindex := virtualaddr >>> 22
  let ptindex := virtualaddr >>> 12 &&& 0x03FF#32
  let pd := 0xFFFFF000#32
  let pde ← load (pd + 4#32 * pdindex)
  if pde &&& 1#32 = 0#32 then return 0#32 else
  let pt := 0xFFC00000#32 + (pdindex <<< 12)
  let _ ← load (pt + 4#32 * ptindex)
  load (pt + 4#32 * ptindex)

def getPhysaddr (virtualaddr : Word) : Code Word := do
  let pdindex := virtualaddr >>> 22
  let ptindex := virtualaddr >>> 12 &&& 0x03FF#32
  let pd := 0xFFFFF000#32
  let pde ← load (pd + 4#32 * pdindex)
  if pde &&& 1#32 = 0#32 then return 0#32 else
  let pt := 0xFFC00000#32 + (pdindex <<< 12)
  let pte ← load (pt + 4#32 * ptindex)
  if pte &&& 1#32 = 0#32 then return 0#32 else
  let pte ← load (pt + 4#32 * ptindex)
  return (pte &&& ~~~0xFFF#32) + (virtualaddr &&& 0xFFF#32)

/-- The bits of one group of 32 pages, most significant bit first. -/
def groupBits (pt : Word) (group : Nat) : Code Word :=
  Prog.forUp 32 0#32 fun entry cnt => do
    let e ← load (pt + 4#32 * BitVec.ofNat 32 (group * 32 + entry))
    return cnt <<< 1 ||| (e &&& 1#32)

def setMmap (i : Nat) (w : Word) : Code Unit :=
  modify fun g => { g with virtualMmap := Function.update g.virtualMmap i w }

def mapVirtualMemory : Code Unit :=
  Prog.forUp 1024 () fun pdindex _ => do
    let kernelPD := 0xFFFFF000#32
    let pde ← load (kernelPD + 4#32 * BitVec.ofNat 32 pdindex)
    if pde &&& 1#32 = 0#32 then
      Prog.forUp 32 () fun group _ => setMmap (pdindex * 32 + group) 0#32
    else
      Prog.forUp 32 () fun group _ => do
        let pt := 0xFFC00000#32 + (BitVec.ofNat 32 pdindex <<< 12)
        let cnt ← groupBits pt group
        setMmap (pdindex * 32 + group) cnt

def initPageAllocation : Code Unit := mapVirtualMemory

section Image

variable (image : KernelImage)

/-- `allocate_pt`: the next preallocated table, by its physical address. The
index is not compared with the length of the array. -/
def allocatePt : Code Word := do
  let base ← getPhysaddr image.kernelPTs
  let i ← get (·.kernelPTIndex)
  let newPtPhysaddr := base + i * 0x1000#32
  modify fun g => { g with kernelPTIndex := g.kernelPTIndex + 1#32 }
  allocated newPtPhysaddr
  return newPtPhysaddr

/-- The `PD entry not present` branch of `map_page`. -/
def createPt (pdindex : Word) : Code Unit := do
  let pd := 0xFFFFF000#32
  let newPtPhysaddr ← allocatePt image
  let newPtVirtaddr := 0xFFC00000#32 + (pdindex <<< 12)
  store (pd + 4#32 * pdindex) (newPtPhysaddr ||| 3#32)
  Prog.forUp 1024 () fun i _ => store (newPtVirtaddr + 4#32 * BitVec.ofNat 32 i) 0#32

def mapPage (physaddr virtualaddr flags : Word) : Code Unit := do
  let pdindex := virtualaddr >>> 22
  let ptindex := virtualaddr >>> 12 &&& 0x03FF#32
  let pd := 0xFFFFF000#32
  let pde ← load (pd + 4#32 * pdindex)
  (if pde &&& 1#32 = 0#32 then createPt image pdindex else return ())
  let pt := 0xFFC00000#32 + (pdindex <<< 12)
  let pte ← load (pt + 4#32 * ptindex)
  if pte &&& 1#32 = 0#32 then
    store (pt + 4#32 * ptindex) (physaddr ||| (flags &&& 0xFFF#32))
  else
    -- PTE already present: the mapping is dropped
    return ()

end Image

/-- The first clear bit of a bitmap word, counted from the top. -/
def clearBit (w : Word) : Nat → Nat → Option Nat
  | _, 0 => none
  | i, n + 1 => if w >>> (31 - i) &&& 1#32 ≠ 1#32 then some i else clearBit w (i + 1) n

/-- The first word of the bitmap, from `ptr` on, with a clear bit. -/
def clearWord (mmap : Nat → Word) : Nat → Nat → Option (Nat × Nat)
  | _, 0 => none
  | ptr, n + 1 =>
    match clearBit (mmap ptr) 0 32 with
    | some i => some (ptr, i)
    | none => clearWord mmap (ptr + 1) n

def findFreeVirtaddr (g : Globals) : Word × Globals :=
  match clearWord g.virtualMmap g.curVirtaddrIdx (1024 * 32 - g.curVirtaddrIdx) with
  | some (ptr, i) =>
    (BitVec.ofNat 32 (ptr * 32 + i) <<< 12,
      { g with
        virtualMmap := Function.update g.virtualMmap ptr (g.virtualMmap ptr ||| (1#32 <<< (31 - i)))
        curVirtaddrIdx := ptr })
  | none => (0, g)

def findFreePhysaddr (g : Globals) : Word × Globals :=
  (g.curPhysaddr, { g with curPhysaddr := g.curPhysaddr + 0x1000#32 })

end PekOS
