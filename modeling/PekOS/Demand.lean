import PekOS.Apic
import PekOS.PageFault
import PekOS.Library.Loops

/-! The machine as the running kernel sees it: an access to an absent page is
retried after the page-fault handler has run. -/

namespace PekOS

open OpTree

/-- The error code of a not-present fault of the kernel. -/
def faultCode (write : Bool) : Word := if write then 2#32 else 0#32

/-- One operation under demand paging, `n` bounding the faults on the way,
those of the handler included. -/
def Machine.demand (image : KernelImage) : Nat → (o : Op) → Machine → Except Stop (o.Res × Machine)
  | 0, o, s => Machine.exec o s
  | n + 1, o, s =>
    match Machine.exec o s with
    | .error (.notPresent a write) =>
      match Prog.run (Machine.demand image n) (pageFaultHandler image a (faultCode write)) s with
      | .ok (_, t) => Machine.demand image n o t
      | .error e => .error e
    | r => r

theorem Machine.demand_of_exec {image : KernelImage} {n : Nat} {o : Op} {s : Machine}
    {x : o.Res × Machine} (h : Machine.exec o s = .ok x) : Machine.demand image n o s = .ok x := by
  cases n with
  | zero => exact h
  | succ n =>
    rw [Machine.demand]
    split
    · next a write he => simp [he] at h
    · exact h

theorem Machine.demand_of_fuel {image : KernelImage} {n : Nat} {o : Op} {s : Machine}
    (h : Machine.exec o s = .error .fuel) : Machine.demand image n o s = .error .fuel := by
  cases n with
  | zero => exact h
  | succ n => rw [Machine.demand, h]

/-- The results of lookups that are kept in globals are the same. -/
abbrev SameLookups (g g' : Globals) : Prop := g'.rsdp = g.rsdp ∧ g'.madt = g.madt ∧ g'.fadt = g.fadt

/-- An operation that dereferences no result of a lookup and leaves the results
that are kept in globals alone. -/
def Op.Neutral : Op → Prop
  | .globals f => ∀ g, SameLookups g (f g).2
  | .deref _ _ => False
  | _ => True

abbrev Neutral {α : Type} (p : Code α) : Prop := Prog.All Op.Neutral p

/-- An operation that leaves one global alone. -/
def Op.Keeps {γ : Type} (field : Globals → γ) : Op → Prop
  | .globals f => ∀ g, field (f g).2 = field g
  | _ => True

abbrev Keeps {γ α : Type} (field : Globals → γ) (p : Code α) : Prop := Prog.All (Op.Keeps field) p

/-- The globals that hold the results of lookups. -/
inductive LookupGlobal : (Globals → Word) → Prop
  | rsdp : LookupGlobal Globals.rsdp
  | madt : LookupGlobal Globals.madt
  | fadt : LookupGlobal Globals.fadt

theorem Op.Neutral.keeps {o : Op} (h : o.Neutral) {field : Globals → Word} (hf : LookupGlobal field) :
    o.Keeps field := by
  cases o with
  | globals f =>
    intro g
    cases hf with
    | rsdp => exact (h g).1
    | madt => exact (h g).2.1
    | fadt => exact (h g).2.2
  | _ => trivial

theorem Neutral.keeps {α : Type} {p : Code α} (h : Neutral p) {field : Globals → Word}
    (hf : LookupGlobal field) : Keeps field p :=
  h.mono fun _ ho => ho.keeps hf

namespace Neutral

theorem load (a : Word) : Neutral (Code.load a) := Prog.all_perform.mpr trivial

theorem store (a v : Word) : Neutral (Code.store a v) := Prog.all_perform.mpr trivial

theorem loadByte (a : Word) : Neutral (Code.loadByte a) := Prog.all_perform.mpr trivial

theorem outb (port : BitVec 16) (b : Byte) : Neutral (Code.outb port b) := Prog.all_perform.mpr trivial

theorem inb (port : BitVec 16) : Neutral (Code.inb port) := Prog.all_perform.mpr trivial

theorem get (f : Globals → Word) : Neutral (Code.get f) := Prog.all_perform.mpr fun _ => ⟨rfl, rfl, rfl⟩

theorem flag (f : Globals → Bool) : Neutral (Code.flag f) := (get _).bind fun _ => trivial

theorem modify {f : Globals → Globals} (h : ∀ g, SameLookups g (f g)) :
    Neutral (Code.modify f) :=
  (Prog.all_perform.mpr h).bind fun _ => trivial

theorem ret {α : Type} (a : α) : Neutral (return a : Code α) := trivial

theorem outOfFuel {α : Type} : Neutral (Code.outOfFuel : Code α) :=
  (Prog.all_perform.mpr trivial).bind fun e => e.elim

theorem ite {α : Type} {c : Prop} [Decidable c] {p q : Code α} (hp : Neutral p) (hq : Neutral q) :
    Neutral (if c then p else q) := by
  split
  · exact hp
  · exact hq

theorem findFreeVirtaddr : Neutral (Code.globals PekOS.findFreeVirtaddr) := by
  have h (g : Globals) : SameLookups g (PekOS.findFreeVirtaddr g).2 := by
    simp only [PekOS.findFreeVirtaddr]
    split <;> exact ⟨rfl, rfl, rfl⟩
  exact Prog.all_perform.mpr h

theorem findFreePhysaddr : Neutral (Code.globals PekOS.findFreePhysaddr) := by
  have h (g : Globals) : SameLookups g (PekOS.findFreePhysaddr g).2 := by
    simp only [PekOS.findFreePhysaddr]
    exact ⟨rfl, rfl, rfl⟩
  exact Prog.all_perform.mpr h

section Image

variable (image : KernelImage)

theorem of_mapsPage {α : Type} {p : Code α} (h : Prog.All Op.MapsPage p) : Neutral p := by
  refine h.mono fun o ho => ?_
  cases o with
  | globals f =>
    intro g
    obtain ⟨k, hk⟩ := ho g
    rw [hk]
    exact ⟨rfl, rfl, rfl⟩
  | load | store | allocated => trivial
  | _ => exact ho.elim

theorem mapPage (p v flags : Word) : Neutral (PekOS.mapPage image p v flags) :=
  of_mapsPage (mapPage_all image p v flags)

theorem pageFaultHandler (v ec : Word) : Neutral (PekOS.pageFaultHandler image v ec) := by
  have hhalt : Neutral exceptionHandler := Prog.all_perform.mpr trivial
  unfold PekOS.pageFaultHandler
  refine ite hhalt (ite hhalt ?_)
  have hmap (p : Word) : Neutral (PekOS.mapPage image p v 3#32) := mapPage image p v 3#32
  exact ite ((of_mapsPage (allocatePt_all image)).bind hmap) (findFreePhysaddr.bind hmap)

end Image

end Neutral

namespace Machine

variable {image : KernelImage} {s t : Machine}

def SameButMem (s t : Machine) : Prop := ∃ m, t = { s with mem := m }

theorem SameButMem.trans {u : Machine} (h : s.SameButMem t) (h' : t.SameButMem u) : s.SameButMem u := by
  obtain ⟨m, rfl⟩ := h
  obtain ⟨m', rfl⟩ := h'
  exact ⟨m', rfl⟩

theorem putByte_sameButMem {a : Word} {b : Byte} (h : s.putByte a b = .ok t) : s.SameButMem t := by
  unfold putByte at h
  split at h
  · cases h
    exact ⟨_, rfl⟩
  · cases h

theorem putWord_sameButMem {a v : Word} (h : s.putWord a v = .ok t) : s.SameButMem t := by
  simp only [putWord, bind, Except.bind] at h
  split at h
  · cases h
  · next h₀ =>
    split at h
    · cases h
    · next h₁ =>
      split at h
      · cases h
      · next h₂ =>
        exact (putByte_sameButMem h₀).trans
          ((putByte_sameButMem h₁).trans ((putByte_sameButMem h₂).trans (putByte_sameButMem h)))

theorem exec_sameButMem {o : Op} {x : o.Res × Machine} (ho : o.address ≠ none) (h : exec o s = .ok x) :
    s.SameButMem x.2 := by
  cases o with
  | load a =>
    simp only [exec] at h
    split at h
    · split at h
      · cases h
        exact ⟨s.mem, rfl⟩
      · cases h
    · obtain ⟨w, hw⟩ := ok_of_map h
      rw [hw] at h
      cases h
      exact ⟨s.mem, rfl⟩
  | store a v =>
    simp only [exec] at h
    split at h
    · split at h
      · cases h
        exact ⟨_, rfl⟩
      · cases h
    · obtain ⟨t, ht⟩ := ok_of_map h
      rw [ht] at h
      cases h
      exact putWord_sameButMem ht
  | loadByte a =>
    obtain ⟨b, hb⟩ := ok_of_map h
    simp only [exec, hb] at h
    cases h
    exact ⟨s.mem, rfl⟩
  | storeByte a b =>
    obtain ⟨t, ht⟩ := ok_of_map h
    simp only [exec, ht] at h
    cases h
    exact putByte_sameButMem ht
  | _ => exact absurd rfl ho

theorem exec_globals {o : Op} {x : o.Res × Machine} (ho : ∀ f, o ≠ .globals f) (h : exec o s = .ok x) :
    x.2.globals = s.globals := by
  by_cases ha : o.address = none
  · cases o with
    | globals f => exact absurd rfl (ho f)
    | load | store | loadByte | storeByte => cases ha
    | halt | outOfFuel => cases h
    | _ =>
      cases h
      rfl
  · obtain ⟨m, hm⟩ := exec_sameButMem ha h
    rw [hm]

theorem exec_apicBase {o : Op} {x : o.Res × Machine} (ho : ∀ v, o ≠ .wrmsr v) (h : exec o s = .ok x) :
    x.2.apicBase = s.apicBase := by
  by_cases ha : o.address = none
  · cases o with
    | wrmsr v => exact absurd rfl (ho v)
    | load | store | loadByte | storeByte => cases ha
    | halt | outOfFuel => cases h
    | _ =>
      cases h
      rfl
  · obtain ⟨m, hm⟩ := exec_sameButMem ha h
    rw [hm]

theorem exec_cpuidEdx {o : Op} {x : o.Res × Machine} (h : exec o s = .ok x) :
    x.2.cpuidEdx = s.cpuidEdx := by
  by_cases ha : o.address = none
  · cases o with
    | load | store | loadByte | storeByte => cases ha
    | halt | outOfFuel => cases h
    | _ =>
      cases h
      rfl
  · obtain ⟨m, hm⟩ := exec_sameButMem ha h
    rw [hm]

theorem exec_keeps {γ : Type} {field : Globals → γ} {o : Op} {x : o.Res × Machine} (ho : o.Keeps field)
    (h : exec o s = .ok x) : field x.2.globals = field s.globals := by
  by_cases hg : ∃ f, o = .globals f
  · obtain ⟨f, rfl⟩ := hg
    cases h
    exact ho s.globals
  · exact congrArg field (exec_globals (fun f he => hg ⟨f, he⟩) h)

section Keeps

variable {γ : Type} {field : Globals → γ} (hfault : ∀ v ec, Keeps field (pageFaultHandler image v ec))

include hfault

theorem demand_keeps {n : Nat} {o : Op} {x : o.Res × Machine} (ho : o.Keeps field)
    (h : demand image n o s = .ok x) : field x.2.globals = field s.globals := by
  induction n generalizing o s with
  | zero => exact exec_keeps ho h
  | succ n ih =>
    rw [demand] at h
    split at h
    · next a write he =>
      split at h
      · next r t hr =>
        have hhandler : field t.globals = field s.globals :=
          (hfault a (faultCode write)).run_inv (I := fun u => field u.globals = field s.globals)
            (fun _ _ _ ho hy hu => (ih ho hy).trans hu) hr rfl
        exact (ih ho h).trans hhandler
      · cases h
    · exact exec_keeps ho h

theorem run_keeps_of {α : Type} {p : Code α} (hp : Keeps field p) {n : Nat} {a : α}
    (h : Prog.run (demand image n) p s = .ok (a, t)) : field t.globals = field s.globals :=
  hp.run_inv (I := fun u => field u.globals = field s.globals)
    (fun _ _ _ ho hy hu => (demand_keeps hfault ho hy).trans hu) h rfl

end Keeps

theorem run_keeps {α : Type} {field : Globals → Word} (hf : LookupGlobal field) {p : Code α}
    (hp : Keeps field p) {n : Nat} {a : α} (h : Prog.run (demand image n) p s = .ok (a, t)) :
    field t.globals = field s.globals :=
  run_keeps_of (fun v ec => (Neutral.pageFaultHandler image v ec).keeps hf) hp h

end Machine

/-! Runs under demand paging. -/

section Ran

/-- `p` returns under demand paging. -/
abbrev Ran (image : KernelImage) (n : Nat) {α : Type} (p : Code α) (s : Machine) (a : α)
    (t : Machine) : Prop :=
  Prog.run (Machine.demand image n) p s = .ok (a, t)

variable {image : KernelImage} {n : Nat} {s t u : Machine} {α : Type} {p : Code α} {a b : α}

theorem ran_of_run (h : s.run p = .ok (a, t)) : Ran image n p s a t :=
  Prog.run_mono (Machine.demand image n) (fun _ _ _ => Machine.demand_of_exec) h

theorem Ran.unique (h : Ran image n p s a t) (h' : Ran image n p s b u) : a = b ∧ t = u := by
  simpa using h.symm.trans h'

theorem ran_get (f : Globals → Word) : Ran image n (Code.get f) s (f s.globals) s := by
  cases n <;> rfl

theorem ran_deref (l : Lookup) (p : Word) : Ran image n (Code.deref l p) s () s := by
  cases n <;> rfl

theorem ran_modify (f : Globals → Globals) :
    Ran image n (Code.modify f) s () (s.withGlobals (f s.globals)) := by
  cases n <;> rfl

theorem ran_flag (f : Globals → Bool) : Ran image n (Code.flag f) s (f s.globals) s := by
  rw [Ran, Code.flag, Prog.run_bind_ok _ (ran_get _)]
  cases f s.globals <;> rfl

theorem not_ran_outOfFuel (s : Machine) (x : α × Machine) :
    Prog.run (Machine.demand image n) (Code.outOfFuel : Code α) s ≠ .ok x := by
  intro h
  cases n <;> cases h

end Ran

end PekOS
