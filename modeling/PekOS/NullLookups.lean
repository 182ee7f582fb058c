import PekOS.Lookups

/-! Which of the lookups fail, and which of those are dereferenced: the exact
condition under which `init_rsdt`, `init_apic` and `init_ps2` use no `NULL`. -/

namespace PekOS

open OpTree

namespace Neutral

theorem readRegister (off : Word) : Neutral (PekOS.readRegister off) := (get _).bind fun _ => load _

theorem writeRegister (off v : Word) : Neutral (PekOS.writeRegister off v) :=
  (get _).bind fun _ => store _ _

theorem apicStartTimer : Neutral PekOS.apicStartTimer :=
  (writeRegister _ _).bind fun _ => (writeRegister _ _).bind fun _ => writeRegister _ _

theorem cpuid : Neutral Code.cpuid := Prog.all_perform.mpr trivial

theorem cpuHasMsr : Neutral PekOS.cpuHasMsr := cpuid.bind fun _ => ret _

theorem checkApic : Neutral PekOS.checkApic := cpuid.bind fun _ => ret _

theorem cpuGetApicBase : Neutral PekOS.cpuGetApicBase :=
  (Prog.all_perform.mpr trivial : Neutral Code.rdmsr).bind fun _ => ret _

theorem enableApic : Neutral PekOS.enableApic :=
  cpuGetApicBase.bind fun _ => (Prog.all_perform.mpr trivial : Neutral (Code.wrmsr _))

theorem readIoapicRegister (base : Word) (off : Byte) : Neutral (PekOS.readIoapicRegister base off) :=
  (store _ _).bind fun _ => load _

theorem writeIoapicRegister (base : Word) (off : Byte) (v : Word) :
    Neutral (PekOS.writeIoapicRegister base off v) :=
  (store _ _).bind fun _ => store _ _

theorem redirectInterrupts (base : Word) : Neutral (PekOS.redirectInterrupts base) :=
  Prog.All.forUp (fun _ _ => (readIoapicRegister _ _).bind fun _ =>
    (writeIoapicRegister _ _ _).bind fun _ =>
    (readIoapicRegister _ _).bind fun _ => writeIoapicRegister _ _ _) 16 ()

theorem madtRecord (start len type i : Word) : Neutral (PekOS.madtRecord start len type i) := by
  refine ite ?_ (ret _)
  exact (loadByte _).bind fun _ => ite (ret _) ((loadByte _).bind fun _ => ret _)

theorem loop {α β : Type} {body : α → Code (α ⊕ β)} (h : ∀ a, Neutral (body a)) (fuel : Nat) (a : α) :
    Neutral (Prog.loop Code.outOfFuel body fuel a) :=
  Prog.All.loop outOfFuel h fuel a

variable (fuel : Nat)

theorem readPs2Data : Neutral (PekOS.readPs2Data fuel) :=
  (loop (fun _ => ((inb _).bind fun _ => ret _).bind fun _ => ret _) fuel ()).bind fun _ => inb _

theorem waitPs2 : Neutral (PekOS.waitPs2 fuel) := loop (fun _ => (inb _).bind fun _ => ret _) fuel ()

theorem sendPs2Command (c : Byte) : Neutral (PekOS.sendPs2Command fuel c) :=
  (waitPs2 fuel).bind fun _ => outb _ _

theorem sendDeviceData (c : Byte) : Neutral (PekOS.sendDeviceData fuel c) :=
  (waitPs2 fuel).bind fun _ => outb _ _

theorem detectPs2Device (port : Byte) : Neutral (PekOS.detectPs2Device fuel port) := by
  refine (ite (sendPs2Command fuel _) (ret _)).bind fun _ => ?_
  refine (sendDeviceData fuel _).bind fun _ => (readPs2Data fuel).bind fun _ => ?_
  refine (sendDeviceData fuel _).bind fun _ => (readPs2Data fuel).bind fun _ => ?_
  exact (readPs2Data fuel).bind fun _ => (outb _ _).bind fun _ => (readPs2Data fuel).bind fun _ => ret _

theorem flushPs2 : Neutral (PekOS.flushPs2 fuel) :=
  loop (fun _ => (inb _).bind fun _ => ite (ret _) ((inb _).bind fun _ => ret _)) fuel ()

theorem ps2IsDualChannel (c : Byte) : Neutral (PekOS.ps2IsDualChannel fuel c) := by
  refine ite (ret _) ?_
  refine (sendPs2Command fuel _).bind fun _ => (sendPs2Command fuel _).bind fun _ => ?_
  exact (readPs2Data fuel).bind fun _ => ite ((sendPs2Command fuel _).bind fun _ => ret _) (ret _)

theorem readPs2Reset : Neutral (PekOS.readPs2Reset fuel) :=
  (readPs2Data fuel).bind fun _ => ite ((readPs2Data fuel).bind fun _ => ret _) (ret _)

theorem startPs2 : Neutral (PekOS.startPs2 fuel) := by
  have hcmd (c : Byte) := sendPs2Command fuel c
  have hread := readPs2Data fuel
  refine (outb _ _).bind fun _ => (outb _ _).bind fun _ => (flushPs2 fuel).bind fun _ => ?_
  refine (hcmd _).bind fun _ => hread.bind fun _ => (hcmd _).bind fun _ => (outb _ _).bind fun _ => ?_
  refine (hcmd _).bind fun _ => hread.bind fun response => ?_
  refine ite (c := response ≠ 0x55#8) (ret _) ?_
  refine (hcmd _).bind fun _ => (outb _ _).bind fun _ => (ps2IsDualChannel fuel _).bind fun _ => ?_
  refine (hcmd _).bind fun _ => hread.bind fun _ => (modify fun _ => ⟨rfl, rfl, rfl⟩).bind fun _ => ?_
  refine (hcmd _).bind fun _ => hread.bind fun _ => (modify fun _ => ⟨rfl, rfl, rfl⟩).bind fun _ => ?_
  refine (flag _).bind fun first => (ite (hcmd _) (ret _)).bind fun _ => ?_
  refine (flag _).bind fun second => (ite (hcmd _) (ret _)).bind fun _ => ?_
  refine (sendDeviceData fuel _).bind fun _ => (readPs2Reset fuel).bind fun _ => (hcmd _).bind fun _ => ?_
  refine (sendDeviceData fuel _).bind fun _ => (readPs2Reset fuel).bind fun _ => ?_
  have hdetect (works : Bool) (port : Byte) (f : Byte → Globals → Globals)
      (hf : ∀ d g, SameLookups g (f d g)) :
      Neutral (if works = true then PekOS.detectPs2Device fuel port >>= fun d => Code.modify (f d)
        else pure ()) :=
    ite ((detectPs2Device fuel port).bind fun d => modify (hf d)) (ret _)
  refine (hdetect first 1#8 (fun d g => { g with device1 := d }) fun _ _ => ⟨rfl, rfl,
    rfl⟩).bind fun _ => ?_
  refine (hdetect second 2#8 (fun d g => { g with device2 := d }) fun _ _ => ⟨rfl, rfl,
    rfl⟩).bind fun _ => ?_
  refine (sendDeviceData fuel _).bind fun _ => hread.bind fun _ =>
    (modify fun _ => ⟨rfl, rfl, rfl⟩).bind fun _ => ?_
  exact (hcmd _).bind fun _ => hread.bind fun _ => (hcmd _).bind fun _ => outb _ _

end Neutral

section Conditions

variable (image : KernelImage) (n : Nat)

/-- The record at offset `i` is of another type, and `i'` is the offset of the one after it. -/
def OtherRecord (start len type : Word) (x y : Word × Machine) : Prop :=
  x.1 < len ∧ ∃ b u l, Ran image n (Code.loadByte (start + x.1)) x.2 b u ∧ b.setWidth 32 ≠ type ∧
    Ran image n (Code.loadByte (start + x.1 + 1#32)) u l y.2 ∧ y.1 = x.1 + l.setWidth 32

/-- A walk over records of other types ends at offset `i`. -/
def Skipped (madt type length i : Word) (s t : Machine) : Prop :=
  Relation.ReflTransGen (OtherRecord image n (madt + 44#32) (length - 44#32) type) (0#32, s) (i, t)

/-- The record at offset `i` is of the type that is asked for. -/
def RecordAt (madt type length i : Word) (s t : Machine) : Prop :=
  i < length - 44#32 ∧ ∃ b, Ran image n (Code.loadByte (madt + 44#32 + i)) s b t ∧ b.setWidth 32 = type

/-- The walk from the head of the table meets a record of the type, at address `a`. -/
def HasRecord (type : Word) (s : Machine) (a : Word) (t : Machine) : Prop :=
  ∃ length u i v, Ran image n (Code.load (s.globals.madt + 4#32)) s length u ∧
    Skipped image n s.globals.madt type length i u v ∧ RecordAt image n s.globals.madt type length i v t ∧
      a = s.globals.madt + 44#32 + i ∧ a ≠ 0#32

/-- The walk leaves the table, or the record it meets stands at address 0. -/
def NoRecord (type : Word) (s t : Machine) : Prop :=
  ∃ length u i v, Ran image n (Code.load (s.globals.madt + 4#32)) s length u ∧
    Skipped image n s.globals.madt type length i u v ∧
      (¬ i < length - 44#32 ∧ v = t ∨
        RecordAt image n s.globals.madt type length i v t ∧ s.globals.madt + 44#32 + i = 0#32)

variable {image : KernelImage} {n : Nat} {s t : Machine}

theorem ran_madtRecord_inl {start len type i i' : Word} :
    Ran image n (madtRecord start len type i) s (.inl i') t ↔
      OtherRecord image n start len type (i, s) (i', t) := by
  rw [Ran, madtRecord]
  constructor
  · intro h
    by_cases hi : i < len
    · rw [if_pos hi, Prog.run_bind_ok_iff] at h
      obtain ⟨b, u, hb, h⟩ := h
      by_cases htype : b.setWidth 32 = type
      · simp [htype] at h
      · rw [if_neg htype, Prog.run_bind_ok_iff] at h
        obtain ⟨l, v, hl, h⟩ := h
        simp only [Prog.pure_eq, Prog.run_ret, Except.ok.injEq, Prod.mk.injEq, Sum.inl.injEq] at h
        obtain ⟨rfl, rfl⟩ := h
        exact ⟨hi, b, u, l, hb, htype, hl, rfl⟩
    · simp [hi] at h
  · intro h
    obtain ⟨hi, b, u, l, hb, htype, hl, he⟩ := h
    obtain rfl : i' = i + l.setWidth 32 := he
    rw [if_pos hi, Prog.run_bind_ok _ hb, if_neg htype, Prog.run_bind_ok _ hl]
    rfl

theorem ran_madtRecord_inr {start len type i a : Word} :
    Ran image n (madtRecord start len type i) s (.inr a) t ↔
      (i < len ∧ ∃ b, Ran image n (Code.loadByte (start + i)) s b t ∧ b.setWidth 32 = type ∧
        a = start + i) ∨ ¬ i < len ∧ s = t ∧ a = 0#32 := by
  rw [Ran, madtRecord]
  constructor
  · intro h
    by_cases hi : i < len
    · rw [if_pos hi, Prog.run_bind_ok_iff] at h
      obtain ⟨b, u, hb, h⟩ := h
      by_cases htype : b.setWidth 32 = type
      · rw [if_pos htype] at h
        simp only [Prog.pure_eq, Prog.run_ret, Except.ok.injEq, Prod.mk.injEq, Sum.inr.injEq] at h
        obtain ⟨rfl, rfl⟩ := h
        exact Or.inl ⟨hi, b, hb, htype, rfl⟩
      · rw [if_neg htype, Prog.run_bind_ok_iff] at h
        obtain ⟨l, v, -, h⟩ := h
        simp at h
    · simp only [if_neg hi, Prog.pure_eq, Prog.run_ret, Except.ok.injEq, Prod.mk.injEq,
        Sum.inr.injEq] at h
      exact Or.inr ⟨hi, h.2, h.1.symm⟩
  · intro h
    rcases h with ⟨hi, b, hb, htype, rfl⟩ | ⟨hi, rfl, rfl⟩
    · rw [if_pos hi, Prog.run_bind_ok _ hb, if_pos htype]
      rfl
    · rw [if_neg hi]
      rfl

theorem iterates_madtRecord {start len type i i' : Word} :
    Prog.Iterates (Machine.demand image n) (madtRecord start len type) i s i' t ↔
      Relation.ReflTransGen (OtherRecord image n start len type) (i, s) (i', t) := by
  constructor
  · intro h
    induction h with
    | refl i s => exact .refl
    | head hr _ ih => exact .head (ran_madtRecord_inl.mp hr) ih
  · intro h
    generalize hx : (i, s) = x at h
    induction h using Relation.ReflTransGen.head_induction_on generalizing i s with
    | refl =>
      obtain ⟨rfl, rfl⟩ := Prod.mk.inj hx
      exact .refl i s
    | head hstep _ ih =>
      subst hx
      exact .head (ran_madtRecord_inl.mpr hstep) (ih rfl)

theorem ran_findMADTEntryByType_mono {type a : Word} {fuel fuel' : Nat} (hle : fuel ≤ fuel')
    (h : Ran image n (findMADTEntryByType fuel type) s a t) :
    Ran image n (findMADTEntryByType fuel' type) s a t := by
  rw [Ran, findMADTEntryByType, Prog.run_bind_ok _ (ran_get _), Prog.run_bind_ok _ (ran_deref _ _)] at h ⊢
  obtain ⟨length, u, hlength, hloop⟩ := Prog.of_run_bind _ h
  rw [Prog.run_bind_ok _ hlength]
  exact Prog.run_loop_mono _ not_ran_outOfFuel hle hloop

/-- With a large enough bound, the lookup of a MADT record returns what the walk finds. -/
theorem ran_findMADTEntryByType {type a : Word} :
    (∃ fuel, Ran image n (findMADTEntryByType fuel type) s a t) ↔
      HasRecord image n type s a t ∨ a = 0#32 ∧ NoRecord image n type s t := by
  have hhead (fuel : Nat) : Ran image n (findMADTEntryByType fuel type) s a t ↔
      ∃ length u, Ran image n (Code.load (s.globals.madt + 4#32)) s length u ∧
        Ran image n (Prog.loop Code.outOfFuel
          (madtRecord (s.globals.madt + 44#32) (length - 44#32) type) fuel 0#32) u a t := by
    rw [Ran, findMADTEntryByType, Prog.run_bind_ok _ (ran_get _), Prog.run_bind_ok _ (ran_deref _ _),
      Prog.run_bind_ok_iff]
  constructor
  · intro h
    obtain ⟨fuel, h⟩ := h
    obtain ⟨length, u, hlength, hloop⟩ := (hhead fuel).mp h
    obtain ⟨i, v, hskip, hlast⟩ := (Prog.exists_run_loop_iff _ not_ran_outOfFuel).mp ⟨fuel, hloop⟩
    have hskip := iterates_madtRecord.mp hskip
    rcases ran_madtRecord_inr.mp hlast with ⟨hi, b, hb, htype, ha⟩ | ⟨hi, rfl, ha⟩
    · by_cases h0 : a = 0#32
      · exact Or.inr ⟨h0, length, u, i, v, hlength, hskip, Or.inr ⟨⟨hi, b, hb, htype⟩, ha ▸ h0⟩⟩
      · exact Or.inl ⟨length, u, i, v, hlength, hskip, ⟨hi, b, hb, htype⟩, ha, h0⟩
    · exact Or.inr ⟨ha, length, u, i, v, hlength, hskip, Or.inl ⟨hi, rfl⟩⟩
  · intro h
    have hfound {length i : Word} {u v : Machine}
        (hlength : Ran image n (Code.load (s.globals.madt + 4#32)) s length u)
        (hskip : Skipped image n s.globals.madt type length i u v)
        (hlast : Ran image n (madtRecord (s.globals.madt + 44#32) (length - 44#32) type i) v (.inr a) t) :
        ∃ fuel, Ran image n (findMADTEntryByType fuel type) s a t := by
      obtain ⟨fuel, hloop⟩ := (Prog.exists_run_loop_iff _ not_ran_outOfFuel).mpr
        ⟨i, v, iterates_madtRecord.mpr hskip, hlast⟩
      exact ⟨fuel, (hhead fuel).mpr ⟨length, u, hlength, hloop⟩⟩
    rcases h with ⟨length, u, i, v, hlength, hskip, ⟨hi, b, hb, htype⟩, rfl, -⟩ |
      ⟨rfl, length, u, i, v, hlength, hskip, ⟨hi, rfl⟩ | ⟨⟨hi, b, hb, htype⟩, h0⟩⟩
    · exact hfound hlength hskip (ran_madtRecord_inr.mpr (Or.inl ⟨hi, b, hb, htype, rfl⟩))
    · exact hfound hlength hskip (ran_madtRecord_inr.mpr (Or.inr ⟨hi, rfl, rfl⟩))
    · exact hfound hlength hskip (ran_madtRecord_inr.mpr (Or.inl ⟨hi, b, hb, htype, h0.symm⟩))

end Conditions

end PekOS
