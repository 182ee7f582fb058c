import PekOS.AddressSpace
import PekOS.Kernel

/-! exception_handler.c: the page-fault handler, and the two ways the kernel
uses the paging functions, as the steps of its runs. -/

namespace PekOS

open OpTree Code

def exceptionHandler : Code Unit := halt

section Image

variable (image : KernelImage)

def pageFaultHandler (virtualAddress errorCode : Word) : Code Unit := do
  if errorCode &&& 1#32 ≠ 0#32 then exceptionHandler
  else if errorCode &&& 4#32 ≠ 0#32 then exceptionHandler
  else
    let physaddr ← if virtualAddress >>> 22 = 0x3FF#32 then allocatePt image
      else Code.globals findFreePhysaddr
    mapPage image physaddr virtualAddress 3#32

/-- How drivers map a physical page: `find_free_virtaddr`, then `map_page`. -/
def mapPhysaddr (physaddr : Word) : Code Word := do
  let virtaddr ← Code.globals findFreeVirtaddr
  mapPage image physaddr virtaddr 3#32
  return virtaddr

/-- `mapped p v`: `find_free_virtaddr` returned `v` and `p` was mapped to it.
`faulted v ec`: the page-fault handler ran for `v`. -/
inductive Event
  | mapped (p v : Word)
  | faulted (v ec : Word)

/-- Not-present faults in supervisor mode. -/
def Resumable (errorCode : Word) : Prop := errorCode &&& 1#32 = 0#32 ∧ errorCode &&& 4#32 = 0#32

inductive Step : Machine → Event → Machine → Prop
  | mapped {s t : Machine} {p v : Word} : aligned 4096 p →
      s.run (mapPhysaddr image p) = .ok (v, t) → Step s (.mapped p v) t
  | faulted {s t : Machine} {v ec : Word} : s.walk (dirOf v) (tabOf v) = none → Resumable ec →
      s.run (pageFaultHandler image v ec) = .ok ((), t) → Step s (.faulted v ec) t

theorem Step.det {s t u : Machine} {e : Event} (h : Step image s e t) (h' : Step image s e u) :
    t = u := by
  cases h with
  | mapped _ hr =>
    cases h' with
    | mapped _ hr' => simpa using hr.symm.trans hr'
  | faulted _ _ hr =>
    cases h' with
    | faulted _ _ hr' => simpa using hr.symm.trans hr'

end Image

namespace Machine

variable {s : Machine} {image : KernelImage}

def withGlobals (s : Machine) (g : Globals) : Machine := { s with globals := g }

@[simp] theorem withGlobals_mem (s : Machine) (g : Globals) : (s.withGlobals g).mem = s.mem := rfl
@[simp] theorem withGlobals_cr3 (s : Machine) (g : Globals) : (s.withGlobals g).cr3 = s.cr3 := rfl
@[simp] theorem withGlobals_globals (s : Machine) (g : Globals) : (s.withGlobals g).globals = g := rfl

theorem run_globals (f : Globals → Word × Globals) :
    s.run (Code.globals f) = .ok ((f s.globals).1, s.withGlobals (f s.globals).2) := by
  simp [Code.globals, exec, withGlobals]

/-- The globals after `find_free_virtaddr`, and after `find_free_physaddr`. -/
def takePage (s : Machine) : Machine := s.withGlobals (findFreeVirtaddr s.globals).2

def takeFrame (s : Machine) : Machine := s.withGlobals (findFreePhysaddr s.globals).2

/-- The page `find_free_virtaddr` returns next. -/
def nextPage (s : Machine) : Word := (findFreeVirtaddr s.globals).1

@[simp] theorem takePage_mem (s : Machine) : s.takePage.mem = s.mem := withGlobals_mem _ _
@[simp] theorem takePage_cr3 (s : Machine) : s.takePage.cr3 = s.cr3 := withGlobals_cr3 _ _
@[simp] theorem takeFrame_mem (s : Machine) : s.takeFrame.mem = s.mem := withGlobals_mem _ _
@[simp] theorem takeFrame_cr3 (s : Machine) : s.takeFrame.cr3 = s.cr3 := withGlobals_cr3 _ _

theorem takePage_kernelPTIndex (s : Machine) :
    s.takePage.globals.kernelPTIndex = s.globals.kernelPTIndex := by
  simp only [takePage, withGlobals_globals, findFreeVirtaddr]
  split <;> rfl

theorem takeFrame_kernelPTIndex (s : Machine) :
    s.takeFrame.globals.kernelPTIndex = s.globals.kernelPTIndex := by
  rw [takeFrame, withGlobals_globals, findFreePhysaddr]

/-- A fault on the page of an absent page table: the table itself is entered. -/
def windowFault (image : KernelImage) (s : Machine) (d : Index) : Machine :=
  s.takeTable.put s.cr3 d (s.nextTable image ||| 3#32)

theorem run_pageFaultHandler_halt (image : KernelImage) (s : Machine) (v : Word) {ec : Word}
    (h : ¬ Resumable ec) :
    s.run (pageFaultHandler image v ec) = .error .halt ∧
      s.trace (pageFaultHandler image v ec) = [(.halt, s)] := by
  have hrun : s.run exceptionHandler = .error .halt ∧ s.trace exceptionHandler = [(.halt, s)] := by
    simp [exceptionHandler, Code.halt, exec]
  unfold pageFaultHandler
  by_cases h1 : ec &&& 1#32 = 0#32
  · have h4 : ec &&& 4#32 ≠ 0#32 := fun h4 => h ⟨h1, h4⟩
    simpa only [h1, h4, ne_eq, not_true_eq_false, not_false_eq_true, if_true, if_false] using hrun
  · simpa only [h1, ne_eq, not_false_eq_true, if_true] using hrun

theorem pageFaultHandler_window {v ec : Word} (hec : Resumable ec) (hv : dirOf v = selfDir) :
    pageFaultHandler image v ec = allocatePt image >>= fun p => mapPage image p v 3#32 := by
  have h : v >>> 22 = 0x3FF#32 := by rw [shiftRight_eq_dirOf, hv]; rfl
  simp only [pageFaultHandler, hec.1, hec.2, h, ne_eq, not_true_eq_false, if_true, if_false]

theorem pageFaultHandler_page {v ec : Word} (hec : Resumable ec) (hv : dirOf v ≠ selfDir) :
    pageFaultHandler image v ec = Code.globals findFreePhysaddr >>= fun p => mapPage image p v 3#32 := by
  have h : v >>> 22 ≠ 0x3FF#32 := by
    intro he
    have hd := dirOf_toNat v
    have he' := congrArg BitVec.toNat he
    rw [BitVec.toNat_ushiftRight, Nat.shiftRight_eq_div_pow] at he'
    exact hv (BitVec.eq_of_toNat_eq (hd.trans he'))
  simp only [pageFaultHandler, hec.1, hec.2, h, ne_eq, not_true_eq_false, if_false]

end Machine

end PekOS
