import PekOS.Ps2
import PekOS.Searches

/-! The bytes `init_ps2` writes to the controller, and the time the controller
takes over them. -/

namespace PekOS

open OpTree Code

def Op.Local : Op → Prop
  | .inb _ | .outb _ _ => False
  | _ => True

/-- What writes nothing to the controller. -/
def Op.Silent : Op → Prop
  | .outb port _ => port ≠ 0x60#16 ∧ port ≠ 0x64#16
  | _ => True

theorem Op.Local.silent {o : Op} (h : o.Local) : o.Silent := by
  cases o with
  | outb => exact h.elim
  | _ => trivial

section Local

theorem Op.Searching.local {o : Op} (h : o.Searching) : o.Local := by
  cases o with
  | globals | load | loadByte => trivial
  | _ => exact h.elim

theorem globals_local (f : Globals → Word × Globals) : Prog.All Op.Local (globals f) :=
  Prog.all_perform.mpr trivial

theorem ps2Available_local : Prog.All Op.Local ps2Available := by
  have hbyte (a : Word) : Prog.All Op.Local (loadByte a) := Prog.all_perform.mpr trivial
  have hderef (l : Lookup) (p : Word) : Prog.All Op.Local (deref l p) := Prog.all_perform.mpr trivial
  refine (globals_local _).bind fun rsdp => (hderef _ _).bind fun _ => (hbyte _).bind fun revision => ?_
  split
  · trivial
  · exact (globals_local _).bind fun fadt => (hderef _ _).bind fun _ => (hbyte _).bind fun _ =>
      (hbyte _).bind fun _ => Prog.all_ret _

end Local

/-- The condition of `init_ps2`, with the lookup before it. -/
def findPs2 : Code Bool := do
  let fadt ← findByHeader [0x46#8, 0x41#8, 0x43#8, 0x50#8]
  modify fun g => { g with fadt := fadt }
  ps2Available

theorem initPs2_eq (fuel : Nat) : initPs2 fuel = findPs2 >>= fun available =>
    if available then startPs2 fuel else return () := by
  simp only [initPs2, findPs2, Prog.bind_assoc]

theorem findPs2_local : Prog.All Op.Local findPs2 :=
  ((Searching.findByHeader _).mono fun _ => Op.Searching.local).bind fun _ =>
    ((globals_local _).bind fun _ => Prog.all_ret _).bind fun _ =>
    ps2Available_local

/-- Every page is the same one and every word 37: the root table has no entry,
and the RSDP is one of ACPI 1.0. -/
def Machine.uniform : Machine where
  mem := fun _ _ => 37#32
  cr3 := 0#20
  globals := initialGlobals
  cpuidEdx := 0#32
  apicBase := 0#64
  answers := fun _ => 0#8
  asked := 0

/-- A machine with a controller that takes its time: its input buffer stays full
for `full` more reads of the status. `holds` is how long the bytes that are still
to be written will stay in it. The devices answer as they like. -/
structure SlowController where
  machine : Machine
  full : Nat
  holds : Nat → Nat

namespace SlowController

def exec : (o : Op) → SlowController → Except Stop (o.Res × SlowController)
  | .inb port, s =>
    let b := s.machine.answers s.machine.asked
    let machine := { s.machine with asked := s.machine.asked + 1 }
    if port = 0x64#16 then
      .ok ((b &&& 0xFD#8) |||
        (if s.full = 0 then 0#8 else 2#8), { s with machine := machine, full := s.full - 1 })
    else .ok (b, { s with machine := machine })
  | .outb port _, s =>
    if port = 0x60#16 ∨ port = 0x64#16 then
      .ok ((), { s with full := s.holds 0, holds := fun i => s.holds (i + 1) })
    else .ok ((), s)
  | o, s => (Machine.exec o s.machine).map fun x => (x.1, { s with machine := x.2 })

/-- A byte is written to an empty input buffer. -/
def Waits : Op × SlowController → Prop
  | (.outb port _, s) => port = 0x60#16 ∨ port = 0x64#16 → s.full = 0
  | _ => True

/-- The command that disables the first port, and the one that announces the
configuration byte, are consumed at once. -/
def Prompt : Op × SlowController → Prop
  | (.outb port b, s) => port = 0x64#16 ∧ (b = 0xAD#8 ∨ b = 0x60#8) → s.holds 0 = 0
  | _ => True

/-- Along a run of `p` bytes wait for their turn if and only if those commands are consumed at
once. -/
def Exact {α : Type} (p : Code α) : Prop := ∀ s, Prog.Along exec Waits p s ↔ Prog.Along exec Prompt p s

namespace Exact

variable {α β : Type}

theorem ret (a : α) : Exact (return a : Code α) := fun s =>
  iff_of_true (Prog.along_ret exec _ a s) (Prog.along_ret exec _ a s)

theorem bind {p : Code α} {f : α → Code β} (hp : Exact p) (hf : ∀ a, Exact (f a)) :
    Exact (p >>= f) := fun s =>
  Prog.along_iff_bind exec (hp s) fun a t _ => hf a t

theorem ite {c : Prop} [Decidable c] {p q : Code α} (hp : Exact p) (hq : Exact q) :
    Exact (if c then p else q) := by
  split
  · exact hp
  · exact hq

theorem of_silent {p : Code α} (h : Prog.All Op.Silent p) : Exact p := by
  intro s
  refine iff_of_true (h.along exec (fun o s ho => ?_) s) (h.along exec (fun o s ho => ?_) s)
  · cases o with
    | outb port b => exact fun hport => (not_or.mpr ho hport).elim
    | _ => trivial
  · cases o with
    | outb port b => exact fun hport => (ho.2 hport.1).elim
    | _ => trivial

variable (fuel : Nat)

theorem inb_silent (port : BitVec 16) : Prog.All Op.Silent (inb port) := Prog.all_perform.mpr trivial

theorem readPs2Data : Exact (PekOS.readPs2Data fuel) := by
  refine of_silent (Prog.All.bind (Prog.All.loop ?_ (fun _ => ?_) fuel ()) fun _ => inb_silent _)
  · exact Prog.All.bind (Prog.all_perform.mpr trivial) nofun
  · exact ((inb_silent _).bind fun _ => Prog.all_ret _).bind fun _ => Prog.all_ret _

theorem waitPs2_silent : Prog.All Op.Silent (PekOS.waitPs2 fuel) := by
  refine Prog.All.loop ?_ (fun _ => ?_) fuel ()
  · exact Prog.All.bind (Prog.all_perform.mpr trivial) nofun
  · exact (inb_silent _).bind fun _ => Prog.all_ret _

theorem flushPs2 : Exact (PekOS.flushPs2 fuel) := by
  refine of_silent (Prog.All.loop ?_ (fun _ => ?_) fuel ())
  · exact Prog.All.bind (Prog.all_perform.mpr trivial) nofun
  · refine (inb_silent _).bind fun status => ?_
    split
    · trivial
    · exact (inb_silent _).bind fun _ => Prog.all_ret _

theorem run_waitPs2 {s t : SlowController}
    (h : Prog.run exec (PekOS.waitPs2 fuel) s = .ok ((), t)) : t.full = 0 := by
  refine Prog.run_loop_last exec (P := fun _ t => t.full = 0) (fun s x hx => ?_) (fun _ s c t hr => ?_) h
  · cases hx
  · obtain ⟨status, u, hu, hr⟩ := Prog.of_run_bind _ hr
    obtain ⟨hstatus, rfl⟩ : _ = status ∧ _ = u := by simpa [inb, exec] using hu
    by_cases hfull : s.full = 0
    · obtain ⟨_, rfl⟩ : _ ∧ _ = t := by simpa using hr
      simp [hfull]
    · have hset : ∀ b : Byte, ((b &&& 0xFD#8) ||| 2#8) &&& 2#8 ≠ 0#8 := by decide
      rw [if_neg hfull] at hstatus
      rw [← hstatus, if_pos (hset _)] at hr
      simp at hr

theorem waits_outb {s : SlowController} {port : BitVec 16} {b : Byte}
    (hport : port = 0x60#16 ∨ port = 0x64#16) :
    Prog.Along exec Waits (outb port b) s ↔ s.full = 0 := by
  rw [outb, Prog.along_perform]
  exact ⟨fun h => h hport, fun h _ => h⟩

theorem prompt_outb {s : SlowController} {port : BitVec 16} {b : Byte} :
    Prog.Along exec Prompt (outb port b) s ↔
    (port = 0x64#16 ∧ (b = 0xAD#8 ∨ b = 0x60#8) → s.holds 0 = 0) := by
  rw [outb, Prog.along_perform]
  exact Iff.rfl

/-- A byte that is written after a wait, and is not followed by one written without. -/
theorem send {port : BitVec 16} {b : Byte} (hport : port = 0x60#16 ∨ port = 0x64#16)
    (hb : ¬ (port = 0x64#16 ∧ (b = 0xAD#8 ∨ b = 0x60#8))) :
    Exact (PekOS.waitPs2 fuel >>= fun _ => outb port b) := by
  intro s
  refine Prog.along_iff_bind exec (of_silent (waitPs2_silent fuel) s) fun _ t ht => ?_
  rw [waits_outb hport, prompt_outb]
  exact iff_of_true (run_waitPs2 fuel ht) fun h => (hb h).elim

theorem sendPs2Command {b : Byte} (hb : ¬ (b = 0xAD#8 ∨ b = 0x60#8)) :
    Exact (PekOS.sendPs2Command fuel b) :=
  send fuel (Or.inr rfl) fun h => hb h.2

theorem sendDeviceData (b : Byte) : Exact (PekOS.sendDeviceData fuel b) :=
  send fuel (Or.inl rfl) fun h => absurd h.1 (by decide)

theorem run_outb {s t : SlowController} {port : BitVec 16} {b : Byte}
    (hport : port = 0x60#16 ∨ port = 0x64#16) (h : Prog.run exec (outb port b) s = .ok ((), t)) :
    t.full = s.holds 0 := by
  obtain rfl : _ = t := by simpa [outb, exec, hport] using h
  rfl

/-- Two bytes are written without a wait in between. -/
theorem pair {α : Type} {s : SlowController} (hs : s.full = 0) {c : Byte} (hc : c = 0xAD#8 ∨ c = 0x60#8)
    {port : BitVec 16} {b : Byte} (hport : port = 0x60#16 ∨ port = 0x64#16)
    (hb : ¬ (port = 0x64#16 ∧ (b = 0xAD#8 ∨ b = 0x60#8))) {f : Unit → Code α} (hf : Exact (f ())) :
    Prog.Along exec Waits (outb 0x64#16 c >>= fun _ => outb port b >>= f) s ↔
      Prog.Along exec Prompt (outb 0x64#16 c >>= fun _ => outb port b >>= f) s := by
  have hfirst : Prog.run exec (outb 0x64#16 c) s = .ok ((), { s with
      full := s.holds 0
      holds := fun i => s.holds (i + 1) }) := rfl
  by_cases hholds : s.holds 0 = 0
  · refine Prog.along_iff_bind exec ?_ fun _ t ht => Prog.along_iff_bind exec ?_ fun _ u _ => hf u
    · rw [waits_outb (Or.inr rfl), prompt_outb]
      exact iff_of_true hs fun _ => hholds
    · rw [waits_outb hport, prompt_outb, run_outb (Or.inr rfl) ht]
      exact iff_of_true hholds fun h => (hb h).elim
  · rw [Prog.along_bind_iff, Prog.along_bind_iff, prompt_outb]
    refine iff_of_false (fun h => hholds ?_) fun h => hholds (h.1 ⟨rfl, hc⟩)
    exact (waits_outb hport).mp ((Prog.along_bind_iff exec Waits).mp (h.2 _ _ hfirst)).1

/-- The configuration byte is written right after the command that announces it. -/
theorem announce {α : Type} (config : Byte) {f : Unit → Code α} (hf : Exact (f ())) :
    Exact (PekOS.sendPs2Command fuel 0x60#8 >>= fun _ => outb 0x60#16 config >>= f) := by
  intro s
  rw [PekOS.sendPs2Command, Prog.bind_assoc]
  refine Prog.along_iff_bind exec (of_silent (waitPs2_silent fuel) s) fun _ t ht => ?_
  exact pair (run_waitPs2 fuel ht) (Or.inr rfl) (Or.inl rfl) (fun h => absurd h.1 (by decide)) hf

theorem announce_last (config : Byte) :
    Exact (PekOS.sendPs2Command fuel 0x60#8 >>= fun _ => outb 0x60#16 config) := by
  have h := announce fuel config (f := .ret) (ret ())
  rwa [Prog.bind_ret] at h

theorem ps2IsDualChannel (config : Byte) : Exact (PekOS.ps2IsDualChannel fuel config) := by
  refine ite (ret _) ?_
  refine (sendPs2Command fuel (by decide)).bind fun _ =>
    (sendPs2Command fuel (by decide)).bind fun _ => ?_
  exact (readPs2Data fuel).bind fun _ => ite ((sendPs2Command fuel (by decide)).bind fun _ => ret _)
    (ret _)

theorem readPs2Reset : Exact (PekOS.readPs2Reset fuel) :=
  (readPs2Data fuel).bind fun _ => ite ((readPs2Data fuel).bind fun _ => ret _) (ret _)

theorem ioWait : Exact PekOS.ioWait :=
  of_silent (Prog.all_perform.mpr ⟨by decide, by decide⟩)

theorem modify (f : Globals → Globals) : Exact (Code.modify f) :=
  of_silent ((Prog.all_perform.mpr trivial).bind fun _ => Prog.all_ret _)

theorem flag (f : Globals → Bool) : Exact (Code.flag f) :=
  of_silent (((Prog.all_perform.mpr trivial).bind fun _ => Prog.all_ret _).bind fun _ => Prog.all_ret _)

theorem detectPs2Device (port : Byte) : Exact (PekOS.detectPs2Device fuel port) := by
  have hdata (b : Byte) := sendDeviceData fuel b
  have hread := readPs2Data fuel
  refine (ite (sendPs2Command fuel (by decide)) (ret _)).bind fun _ => (hdata _).bind fun _ =>
    hread.bind fun _ => ?_
  refine (hdata _).bind fun _ => hread.bind fun _ => hread.bind fun _ => ?_
  exact ioWait.bind fun _ => hread.bind fun _ => ret _

end Exact

theorem along_startPs2_iff (fuel : Nat) {s : SlowController} (hs : s.full = 0) :
    Prog.Along exec Waits (startPs2 fuel) s ↔ Prog.Along exec Prompt (startPs2 fuel) s := by
  have hcmd {b : Byte} (hb : ¬ (b = 0xAD#8 ∨ b = 0x60#8)) := Exact.sendPs2Command fuel hb
  have hdata (b : Byte) := Exact.sendDeviceData fuel b
  have hread := Exact.readPs2Data fuel
  refine Exact.pair hs (Or.inl rfl) (Or.inr rfl) (by decide) ?_
  refine (Exact.flushPs2 fuel).bind fun _ => (hcmd (by decide)).bind fun _ => hread.bind fun config => ?_
  refine Exact.announce fuel _ ?_
  refine (hcmd (by decide)).bind fun _ => hread.bind fun response => ?_
  refine Exact.ite (Exact.ret _) ?_
  refine Exact.announce fuel _ ?_
  refine (Exact.ps2IsDualChannel fuel _).bind fun _ => ?_
  refine (hcmd (by decide)).bind fun _ => hread.bind fun _ => (Exact.modify _).bind fun _ => ?_
  refine (hcmd (by decide)).bind fun _ => hread.bind fun _ => (Exact.modify _).bind fun _ => ?_
  refine (Exact.flag _).bind fun first => (Exact.ite (hcmd (by decide)) (Exact.ret _)).bind fun _ => ?_
  refine (Exact.flag _).bind fun second => (Exact.ite (hcmd (by decide)) (Exact.ret _)).bind fun _ => ?_
  refine (hdata _).bind fun _ => (Exact.readPs2Reset fuel).bind fun _ =>
    (hcmd (by decide)).bind fun _ => ?_
  refine (hdata _).bind fun _ => (Exact.readPs2Reset fuel).bind fun _ => ?_
  refine (Exact.ite ((Exact.detectPs2Device fuel _).bind fun _ => Exact.modify _)
    (Exact.ret _)).bind fun _ => ?_
  refine (Exact.ite ((Exact.detectPs2Device fuel _).bind fun _ => Exact.modify _)
    (Exact.ret _)).bind fun _ => ?_
  refine (hdata _).bind fun _ => hread.bind fun _ => (Exact.modify _).bind fun _ => ?_
  refine (hcmd (by decide)).bind fun _ => hread.bind fun config => ?_
  exact Exact.announce_last fuel _

theorem full_of_local {α : Type} {p : Code α} (h : Prog.All Op.Local p) {s t : SlowController} {a : α}
    (hs : s.full = 0) (hr : Prog.run exec p s = .ok (a, t)) : t.full = 0 := by
  refine h.run_inv (I := fun t => t.full = 0) (fun o s x ho hx hs => ?_) hr hs
  cases o with
  | inb | outb => exact ho.elim
  | _ =>
    simp only [exec, Except.map] at hx
    split at hx
    · cases hx
    · obtain rfl : _ = x := by simpa using hx
      exact hs

/-- No byte is written to a full input buffer if and only if the commands that are
not waited for are consumed at once. -/
theorem initPs2_waits_iff (fuel : Nat) {s : SlowController} (hs : s.full = 0) :
    Prog.Along exec Waits (initPs2 fuel) s ↔ Prog.Along exec Prompt (initPs2 fuel) s := by
  rw [initPs2_eq]
  have hfind : Exact findPs2 := Exact.of_silent (findPs2_local.mono fun _ => Op.Local.silent)
  refine Prog.along_iff_bind exec (hfind s) fun available t ht => ?_
  split
  · exact along_startPs2_iff fuel (full_of_local findPs2_local hs ht)
  · exact Exact.ret () t

instance : DecidablePred Prompt
  | (.outb port b, s) =>
    inferInstanceAs (Decidable (port = 0x64#16 ∧ (b = 0xAD#8 ∨ b = 0x60#8) → s.holds 0 = 0))
  | (.load _, _) | (.store _ _, _) | (.loadByte _, _) | (.storeByte _ _, _) | (.deref _ _,
    _) | (.cpuid, _) | (.rdmsr, _)
  | (.wrmsr _, _) | (.globals _, _) | (.allocated _, _) | (.inb _, _) | (.halt, _) | (.outOfFuel,
    _) => isTrue trivial

/-- A dual-channel controller that passes its tests, with two devices; but for the commands in
question it takes one read of its status to consume a byte. -/
def dualChannel : SlowController where
  machine := { Machine.uniform with
    answers := fun i => if i = 0 ∨ i = 20 ∨ i = 23 then 0#8 else if i = 3 then 0x20#8
    else if i = 8 then 0x55#8 else 1#8 }
  full := 0
  holds := fun i => if i = 0 ∨ i = 3 ∨ i = 6 ∨ i = 25 then 0 else 1

/-- `init_ps2` goes on to its end there, and none of its 27 bytes meets a full buffer. -/
theorem initPs2_waits_iff_dualChannel :
    (∃ t, Prog.run exec (initPs2 4) dualChannel = .ok ((), t) ∧ t.machine.asked = 65) ∧
    Prog.Along exec Prompt (initPs2 4) dualChannel ∧ Prog.Along exec Waits (initPs2 4) dualChannel := by
  have hprompt : Prog.Along exec Prompt (initPs2 4) dualChannel := by
    show ∀ x ∈ Prog.trace exec (initPs2 4) dualChannel, Prompt x
    decide +kernel
  refine ⟨?_, hprompt, (initPs2_waits_iff 4 rfl).mpr hprompt⟩
  exact ⟨_, rfl, rfl⟩

/-- A controller that takes one read of its status to consume a byte. -/
theorem second_byte_not_waited_for :
    ¬ Prog.Along exec Waits (initPs2 0) ⟨Machine.uniform, 0, fun _ => 1⟩ := by
  intro h
  rw [initPs2_eq] at h
  have hstart := ((Prog.along_bind_iff exec Waits).mp h).2 true _ rfl
  have hsecond := ((Prog.along_bind_iff exec Waits).mp hstart).2 () _ rfl
  have hfull := (Exact.waits_outb (Or.inr rfl)).mp ((Prog.along_bind_iff exec Waits).mp hsecond).1
  exact absurd hfull (by decide)

end SlowController

end PekOS
