import PekOS.NullLookups
import PekOS.Kernel

/-! Which of the results the device start uses unchecked can be `NULL`: the
RSDP, the second MADT record, and the FADT in ACPI 2.0 mode. -/

namespace PekOS

open OpTree

section Conditions

variable (image : KernelImage) (n : Nat)

/-- Entry `i` of the RSDT points to `h`; `c` is how the signature there compares. -/
def Compared (rsdt : Word) (head : List Byte) (i : Nat) (h : Word) (c : Int) (s t : Machine) : Prop :=
  ∃ u, Ran image n (Code.load (rsdt + 36#32 + 4#32 * BitVec.ofNat 32 i)) s h u ∧
    Ran image n (memcmp (bytesAt h) (literal head) 0 4) u c t

/-- Entry `i` of the RSDT has another signature. -/
def OtherTable (rsdt : Word) (head : List Byte) (i : Nat) (s t : Machine) : Prop :=
  ∃ h c, c ≠ 0 ∧ Compared image n rsdt head i h c s t

/-- No table is listed under the signature, or the one that is stands at
address 0; in ACPI 2.0 mode none is looked for. -/
def NoTable (head : List Byte) (s t : Machine) : Prop :=
  s.globals.acpiVersion = true ∧ s = t ∨
    s.globals.acpiVersion = false ∧ ∃ length u,
      Ran image n (Code.load (s.globals.rsdt + 4#32)) s length u ∧
      ∃ k ≤ ((length - 36#32) / 4#32).toNat, ∃ v,
        Prog.Chain (OtherTable image n s.globals.rsdt head) 0 k
          (u.withGlobals { u.globals with entries := (length - 36#32) / 4#32 }) v ∧
        (k = ((length - 36#32) / 4#32).toNat ∧ v = t ∨
          k < ((length - 36#32) / 4#32).toNat ∧ Compared image n s.globals.rsdt head k 0#32 0 v t)

variable {image : KernelImage} {n : Nat} {s t : Machine}

theorem ran_tableEntry {rsdt : Word} {head : List Byte} {i : Nat} {r : Option Word} :
    Ran image n (tableEntry rsdt head i) s r t ↔
      ∃ h c, Compared image n rsdt head i h c s t ∧ r = if c = 0 then some h else none := by
  rw [Ran, tableEntry, Prog.run_bind_ok_iff]
  constructor
  · intro h
    obtain ⟨h, u, hh, hr⟩ := h
    obtain ⟨c, v, hc, hr⟩ := Prog.of_run_bind _ hr
    obtain ⟨rfl, rfl⟩ : (if c = 0 then some h else none) = r ∧ v = t := by simpa using hr
    exact ⟨h, c, ⟨u, hh, hc⟩, rfl⟩
  · intro h
    obtain ⟨h, c, ⟨u, hh, hc⟩, rfl⟩ := h
    exact ⟨h, u, hh, by rw [Prog.run_bind_ok _ hc]; rfl⟩

theorem ran_tableEntry_none {rsdt : Word} {head : List Byte} {i : Nat} :
    Ran image n (tableEntry rsdt head i) s none t ↔ OtherTable image n rsdt head i s t := by
  rw [ran_tableEntry]
  constructor
  · intro h
    obtain ⟨h, c, hc, he⟩ := h
    by_cases h0 : c = 0
    · simp [h0] at he
    · exact ⟨h, c, h0, hc⟩
  · intro h
    obtain ⟨h, c, h0, hc⟩ := h
    exact ⟨h, c, hc, (if_neg h0).symm⟩

theorem ran_tableEntry_some {rsdt : Word} {head : List Byte} {i : Nat} {h : Word} :
    Ran image n (tableEntry rsdt head i) s (some h) t ↔ Compared image n rsdt head i h 0 s t := by
  rw [ran_tableEntry]
  constructor
  · intro hr
    obtain ⟨h', c, hc, he⟩ := hr
    by_cases h0 : c = 0
    · subst h0
      obtain rfl : h = h' := by simpa using he
      exact hc
    · simp [h0] at he
  · intro hc
    exact ⟨h, 0, hc, rfl⟩

theorem ran_searchTables {rsdt : Word} {head : List Byte} {m : Nat} :
    Ran image n (Prog.search (tableEntry rsdt head) 0 m >>=
      fun found => return found.getD 0#32) s 0#32 t ↔
      ∃ k ≤ m, ∃ v, Prog.Chain (OtherTable image n rsdt head) 0 k s v ∧
        (k = m ∧ v = t ∨ k < m ∧ Compared image n rsdt head k 0#32 0 v t) := by
  have hpassed {k : Nat} {v : Machine} :
      Prog.Passed (Machine.demand image n) (tableEntry rsdt head) 0 k s v ↔
      Prog.Chain (OtherTable image n rsdt head) 0 k s v := Prog.chain_congr fun i s t =>
      ran_tableEntry_none
  rw [Ran, Prog.run_bind_ok_iff]
  constructor
  · intro h
    obtain ⟨found, v, hfound, hret⟩ := h
    obtain ⟨h0, rfl⟩ : found.getD 0#32 = 0#32 ∧ v = t := by simpa using hret
    cases found with
    | none => exact ⟨m, Nat.le_refl m, v, hpassed.mp ((Prog.run_search_none _).mp hfound), Or.inl
      ⟨rfl, rfl⟩⟩
    | some h =>
      obtain rfl : h = 0#32 := h0
      obtain ⟨k, hk, u, hp, hlast⟩ := (Prog.run_search_some _).mp hfound
      rw [Nat.zero_add] at hlast
      exact ⟨k, hk.le, u, hpassed.mp hp, Or.inr ⟨hk, ran_tableEntry_some.mp hlast⟩⟩
  · intro h
    obtain ⟨k, -, v, hp, ⟨rfl, rfl⟩ | ⟨hk, hlast⟩⟩ := h
    · exact ⟨none, v, (Prog.run_search_none _).mpr (hpassed.mpr hp), rfl⟩
    · refine ⟨some 0#32, t, (Prog.run_search_some _).mpr ⟨k, hk, v, hpassed.mpr hp, ?_⟩, rfl⟩
      rw [Nat.zero_add]
      exact ran_tableEntry_some.mpr hlast

theorem ran_findByHeader_null {head : List Byte} :
    Ran image n (findByHeader head) s 0#32 t ↔ NoTable image n head s t := by
  rw [Ran, findByHeader, Prog.run_bind_ok _ (ran_flag _)]
  cases hversion : s.globals.acpiVersion with
  | true => simp [NoTable, hversion]
  | false =>
    simp only [Bool.false_eq_true, if_false]
    rw [Prog.run_bind_ok _ (ran_get _), Prog.run_bind_ok_iff]
    constructor
    · intro h
      obtain ⟨length, u, hlength, h⟩ := h
      rw [Prog.run_bind_ok _ (ran_modify _)] at h
      exact Or.inr ⟨hversion, length, u, hlength, ran_searchTables.mp h⟩
    · intro h
      rcases h with ⟨h, -⟩ | ⟨-, length, u, hlength, h⟩
      · simp [hversion] at h
      · refine ⟨length, u, hlength, ?_⟩
        rw [Prog.run_bind_ok _ (ran_modify _)]
        exact ran_searchTables.mpr h

/-! `init_apic`. -/

theorem programLocalApic_all {P : Op → Prop} (hP : ∀ o : Op, o.Neutral → P o) (msrAvailable : Bool)
    {madt : Word} (h : P (.deref .findByHeader madt)) :
    Prog.All P (programLocalApic image msrAvailable madt) := by
  have hrest (physAddr : Word) {enable : Code Unit} (h : Neutral enable) : Neutral (do
      Code.modify fun g => { g with localApic1PhysAddr := physAddr }
      let virtAddr ← Code.globals findFreeVirtaddr
      Code.modify fun g => { g with localApic1VirtAddr := virtAddr }
      mapPage image physAddr virtAddr 3#32
      enable
      let spurious ← readRegister 0xF0#32
      writeRegister 0xF0#32 (spurious ||| 0x100#32)
      let _ ← Code.loadByte (virtAddr + 3#32)
      writeRegister 0x80#32 3#32
      apicStartTimer) := by
    refine (Neutral.modify fun _ => ⟨rfl, rfl, rfl⟩).bind fun _ =>
      Neutral.findFreeVirtaddr.bind fun _ => ?_
    refine (Neutral.modify fun _ => ⟨rfl, rfl, rfl⟩).bind fun _ =>
      (Neutral.mapPage image _ _ _).bind fun _ => ?_
    refine h.bind fun _ => (Neutral.readRegister _).bind fun _ =>
      (Neutral.writeRegister _ _).bind fun _ => ?_
    exact (Neutral.loadByte _).bind fun _ => (Neutral.writeRegister _ _).bind fun _ =>
      Neutral.apicStartTimer
  unfold programLocalApic
  split
  · exact (Neutral.cpuGetApicBase.mono hP).bind fun physAddr =>
      (hrest physAddr Neutral.enableApic).mono hP
  · refine (Prog.all_perform.mpr h : Prog.All P (Code.deref _ _)).bind fun _ => ?_
    exact ((Neutral.load _).mono hP).bind fun physAddr => (hrest physAddr (Neutral.ret _)).mono hP

/-- The MADT that was found is kept, and dereferenced only if it was found. -/
theorem startLocalApic_all {P : Op → Prop} (hP : ∀ o : Op, o.Neutral → P o)
    (hkeep : ∀ madt, P (.globals fun g => (0, { g with madt := madt })))
    (hderef : ∀ madt, madt ≠ 0#32 → P (.deref .findByHeader madt)) :
    Prog.All P (startLocalApic image) := by
  unfold startLocalApic
  refine (Neutral.cpuHasMsr.mono hP).bind fun msrAvailable => ?_
  have hmsr : Neutral (Code.modify fun g => { g with msrAvailable := msrAvailable }) :=
    Neutral.modify fun _ => ⟨rfl, rfl, rfl⟩
  refine (hmsr.mono hP).bind fun _ => ?_
  refine ((Searching.findByHeader _).neutral.mono hP).bind fun madt => ?_
  refine ((Prog.all_perform.mpr (hkeep madt)).bind fun _ =>
    trivial : Prog.All P (Code.modify _)).bind fun _ => ?_
  have hstart (hmadt : madt ≠ 0#32) (usable : Bool) : Prog.All P (if usable = true then
      programLocalApic image msrAvailable madt >>= fun _ => pure true else pure false) := by
    cases usable with
    | true => exact (programLocalApic_all hP msrAvailable (hderef madt hmadt)).bind fun _ => trivial
    | false => trivial
  split
  · trivial
  · next hmadt =>
    split
    · exact (Neutral.checkApic.mono hP).bind (hstart hmadt)
    · exact hstart hmadt true

theorem startLocalApic_notNull : Prog.All Op.NotNull (startLocalApic image) :=
  startLocalApic_all (fun _ => Op.Neutral.notNull) (fun _ => trivial) fun _ h => h

theorem startLocalApic_keeps : Keeps Globals.rsdp (startLocalApic image) :=
  startLocalApic_all (fun _ h => h.keeps .rsdp) (fun _ _ => rfl) fun _ _ => trivial

theorem ran_startLocalApic_true (h : Ran image n (startLocalApic image) s true t) :
    t.globals.madt ≠ 0#32 := by
  rw [Ran, startLocalApic, Prog.run_bind_ok_iff] at h
  obtain ⟨msrAvailable, u₁, -, h⟩ := h
  obtain ⟨_, u₂, -, h⟩ := Prog.of_run_bind _ h
  obtain ⟨madt, u₃, -, h⟩ := Prog.of_run_bind _ h
  rw [Prog.run_bind_ok _ (ran_modify _)] at h
  have hstart (usable : Bool) {u : Machine} (hu : u.globals.madt = madt)
      (h : Ran image n (if usable = true then programLocalApic image msrAvailable madt >>=
        fun _ => pure true
        else pure false) u true t) : t.globals.madt = madt := by
    cases usable with
    | true =>
      obtain ⟨_, v, hp, hret⟩ := Prog.of_run_bind _ h
      obtain rfl : v = t := by simpa using hret
      have hkeeps : Keeps Globals.madt (programLocalApic image msrAvailable madt) :=
        programLocalApic_all (fun _ h => h.keeps .madt) msrAvailable trivial
      rw [Machine.run_keeps .madt hkeeps hp, hu]
    | false => simp [Ran] at h
  by_cases hmadt : madt = 0#32
  · simp [hmadt] at h
  · rw [if_neg hmadt] at h
    split at h
    · obtain ⟨usable, v, hc, h⟩ := Prog.of_run_bind _ h
      rw [hstart usable (Machine.run_keeps .madt (Neutral.checkApic.keeps .madt) hc) h]
      exact hmadt
    · rw [hstart true rfl h]
      exact hmadt

theorem performs_findMADTEntryByType (h : s.globals.madt ≠ 0#32) (fuel : Nat) (type : Word) :
    Prog.Performs (Machine.demand image n) Op.NotNull (findMADTEntryByType fuel type) s := by
  unfold findMADTEntryByType
  rw [Prog.performs_bind_of_run _ (Neutral.get _).notNull (ran_get _)]
  refine Prog.All.performs _ ?_ s
  refine (Prog.all_perform.mpr h : Prog.All Op.NotNull (Code.deref _ _)).bind fun _ => ?_
  exact (Neutral.load _).notNull.bind fun length =>
    (Neutral.loop (Neutral.madtRecord _ _ _) fuel _).notNull

theorem findMADTEntryByType_keeps {field : Globals → Word} (hf : LookupGlobal field) (fuel : Nat)
    (type : Word) : Keeps field (findMADTEntryByType fuel type) := by
  refine ((Neutral.get _).keeps hf).bind fun madt => ?_
  refine (Prog.all_perform.mpr trivial : Keeps field (Code.deref .findByHeader madt)).bind fun _ => ?_
  exact ((Neutral.load _).keeps hf).bind fun length =>
    (Neutral.loop (Neutral.madtRecord _ _ _) fuel _).keeps hf

theorem programIoapic_all {P : Op → Prop} (hP : ∀ o : Op, o.Neutral → P o) {ioApic1Head ioapicIso : Word}
    (hiso : P (.deref .findMADTEntryByType ioapicIso))
    (hhead : P (.deref .findMADTEntryByType ioApic1Head)) :
    Prog.All P (programIoapic image ioApic1Head ioapicIso) := by
  have hbyte (a : Word) : Prog.All P (Code.loadByte a) := (Neutral.loadByte a).mono hP
  have hreg (base : Word) (off : Byte) : Prog.All P (readIoapicRegister base off) :=
    (Neutral.readIoapicRegister base off).mono hP
  refine (Prog.all_perform.mpr hiso : Prog.All P (Code.deref _ _)).bind fun _ => ?_
  refine (hbyte _).bind fun _ => (hbyte _).bind fun _ => ((Neutral.load _).mono hP).bind fun _ => ?_
  refine (hbyte _).bind fun _ => (hbyte _).bind fun _ => ?_
  refine (Prog.all_perform.mpr hhead : Prog.All P (Code.deref _ _)).bind fun _ => ?_
  refine ((Neutral.load _).mono hP).bind fun _ => (Neutral.findFreeVirtaddr.mono hP).bind fun _ => ?_
  refine ((Neutral.mapPage image _ _ _).mono hP).bind fun _ => ?_
  refine ((Neutral.redirectInterrupts _).mono hP).bind fun _ => ?_
  exact (hreg _ _).bind fun _ => (hreg _ _).bind fun _ => (hreg _ _).bind fun _ =>
    (hreg _ _).bind fun _ => trivial

theorem startIoapic_keeps {field : Globals → Word} (hf : LookupGlobal field) (fuel : Nat) :
    Keeps field (startIoapic image fuel) := by
  refine (findMADTEntryByType_keeps hf fuel _).bind fun ioApic1Head => ?_
  split
  · trivial
  · refine (findMADTEntryByType_keeps hf fuel _).bind fun ioapicIso => ?_
    exact programIoapic_all (fun _ h => h.keeps hf) trivial trivial

/-- A type 2 record is looked for, and dereferenced, once a type 1 record is found. -/
theorem performs_startIoapic (h : s.globals.madt ≠ 0#32) :
    (∀ fuel, Prog.Performs (Machine.demand image n) Op.NotNull (startIoapic image fuel) s) ↔
      ∀ a t, HasRecord image n 1#32 s a t → ∀ u, ¬ NoRecord image n 2#32 t u := by
  have hmadt {a : Word} {t : Machine} {fuel : Nat}
      (hr : Ran image n (findMADTEntryByType fuel 1#32) s a t) : t.globals.madt ≠ 0#32 := by
    rw [Machine.run_keeps .madt (findMADTEntryByType_keeps .madt fuel _) hr]
    exact h
  have hfind (fuel : Nat) {a : Word} (ha : a ≠ 0#32) {t : Machine} (ht : t.globals.madt ≠ 0#32) :
      Prog.Performs (Machine.demand image n) Op.NotNull (if a = 0#32 then return () else
        findMADTEntryByType fuel 2#32 >>= programIoapic image a) t ↔
        ∀ u, ¬ Ran image n (findMADTEntryByType fuel 2#32) t 0#32 u := by
    rw [if_neg ha, Prog.performs_bind_iff]
    constructor
    · intro hp u hu
      have hderef := ((Prog.performs_bind_iff _ _).mp (hp.2 _ _ hu)).1
      simp [Prog.Performs, Code.deref, Op.NotNull] at hderef
    · intro hu
      refine ⟨performs_findMADTEntryByType ht fuel _, fun iso v hv => ?_⟩
      refine Prog.All.performs _ (programIoapic_all (fun _ => Op.Neutral.notNull) ?_ ha) v
      rintro rfl
      exact hu v hv
  constructor
  · intro hp a t hhas u hno
    obtain ⟨fuel, hone⟩ := ran_findMADTEntryByType.mpr (Or.inl hhas)
    obtain ⟨fuel', htwo⟩ := ran_findMADTEntryByType.mpr (Or.inr ⟨rfl, hno⟩)
    have ha : a ≠ 0#32 := hhas.choose_spec.choose_spec.choose_spec.choose_spec.2.2.2.2
    have hone' := ran_findMADTEntryByType_mono (Nat.le_max_left fuel fuel') hone
    have htwo' := ran_findMADTEntryByType_mono (Nat.le_max_right fuel fuel') htwo
    have hrest := ((Prog.performs_bind_iff _ _).mp (hp (max fuel fuel'))).2 a t hone'
    exact (hfind _ ha (hmadt hone')).mp hrest u htwo'
  · intro hp fuel
    unfold startIoapic
    rw [Prog.performs_bind_iff]
    refine ⟨performs_findMADTEntryByType h fuel _, fun a t hone => ?_⟩
    by_cases ha : a = 0#32
    · rw [if_pos ha]
      exact Prog.performs_ret _ _ _ _
    · refine (hfind fuel ha (hmadt hone)).mpr fun u htwo => ?_
      rcases ran_findMADTEntryByType.mp ⟨fuel, hone⟩ with hhas | ⟨h0, -⟩
      · rcases ran_findMADTEntryByType.mp ⟨fuel, htwo⟩ with ⟨_, _, _, _, _, _, _, _, h0⟩ | ⟨-, hno⟩
        · exact h0 rfl
        · exact hp a t hhas u hno
      · exact ha h0

theorem performs_initApic :
    (∀ fuel, Prog.Performs (Machine.demand image n) Op.NotNull (initApic image fuel) s) ↔
    ∀ t, Ran image n (startLocalApic image) s true t →
      ∀ a u, HasRecord image n 1#32 t a u → ∀ v, ¬ NoRecord image n 2#32 u v := by
  have hhead (fuel : Nat) : Prog.Performs (Machine.demand image n) Op.NotNull (initApic image fuel) s ↔
      ∀ t, Ran image n (startLocalApic image) s true t →
        Prog.Performs (Machine.demand image n) Op.NotNull (startIoapic image fuel) t := by
    unfold initApic
    rw [Prog.performs_bind_right _ startLocalApic_notNull]
    constructor
    · intro h t ht
      exact h true t ht
    · intro h started t ht
      cases started with
      | true => exact h t ht
      | false => exact Prog.performs_ret _ _ _ _
  constructor
  · intro h t ht
    exact (performs_startIoapic (ran_startLocalApic_true ht)).mp fun fuel => (hhead fuel).mp (h fuel) t ht
  · intro h fuel
    exact (hhead fuel).mpr fun t ht =>
      (performs_startIoapic (ran_startLocalApic_true ht)).mpr (h t ht) fuel

theorem initApic_keeps (fuel : Nat) : Keeps Globals.rsdp (initApic image fuel) := by
  refine startLocalApic_keeps.bind fun started => ?_
  split
  · exact startIoapic_keeps .rsdp fuel
  · trivial

/-! `init_ps2`. -/

/-- The FADT is dereferenced, whether it was found or not, once the revision of the RSDP is not 0.
-/
theorem performs_ps2Available (h : s.globals.rsdp ≠ 0#32) :
    Prog.Performs (Machine.demand image n) Op.NotNull ps2Available s ↔
      ∀ revision t, Ran image n (Code.loadByte (s.globals.rsdp + 15#32)) s revision t →
        revision = 0#8 ∨ s.globals.fadt ≠ 0#32 := by
  have hderef : Prog.All Op.NotNull (Code.deref .findRSDP s.globals.rsdp) := Prog.all_perform.mpr h
  unfold ps2Available
  rw [Prog.performs_bind_of_run _ (Neutral.get _).notNull (ran_get _),
    Prog.performs_bind_of_run _ hderef (ran_deref _ _),
    Prog.performs_bind_right _ (Neutral.loadByte _).notNull]
  refine forall_congr' fun revision => forall_congr' fun t => forall_congr' fun hrevision => ?_
  by_cases h0 : revision = 0#8
  · simp only [h0, if_true, true_or, iff_true]
    exact Prog.performs_ret _ _ _ _
  · have hkept : t.globals.fadt = s.globals.fadt :=
      Machine.run_keeps .fadt ((Neutral.loadByte _).keeps .fadt) hrevision
    rw [if_neg h0, Prog.performs_bind_of_run _ (Neutral.get _).notNull (ran_get _), hkept]
    constructor
    · intro hp
      have hfadt := ((Prog.performs_bind_iff _ _).mp hp).1
      exact Or.inr (by simpa [Prog.Performs, Code.deref, Op.NotNull] using hfadt)
    · intro hp
      have hfadt : Prog.All Op.NotNull (Code.deref .findByHeader s.globals.fadt) :=
        Prog.all_perform.mpr (hp.resolve_left h0)
      refine Prog.All.performs _ (hfadt.bind fun _ => ?_) t
      exact (Neutral.loadByte _).notNull.bind fun _ => (Neutral.loadByte _).notNull.bind fun _ => trivial

theorem performs_initPs2 (h : s.globals.rsdp ≠ 0#32) (fuel : Nat) :
    Prog.Performs (Machine.demand image n) Op.NotNull (initPs2 fuel) s ↔
      ∀ t, NoTable image n facp s t → ∀ revision u, Ran image n (Code.loadByte (s.globals.rsdp + 15#32))
        (t.withGlobals { t.globals with fadt := 0#32 }) revision u → revision = 0#8 := by
  have hmodify (fadt : Word) : Prog.All Op.NotNull (Code.modify fun g => { g with fadt := fadt }) :=
    (Prog.all_perform.mpr trivial : Prog.All Op.NotNull (Code.globals _)).bind fun _ => trivial
  have hrsdp {fadt : Word} {t : Machine} (ht : Ran image n (findByHeader facp) s fadt t) :
      t.globals.rsdp = s.globals.rsdp :=
    Machine.run_keeps .rsdp ((Searching.findByHeader _).neutral.keeps .rsdp) ht
  have hrest (fadt : Word) {t : Machine} (ht : t.globals.rsdp = s.globals.rsdp) :
      Prog.Performs (Machine.demand image n) Op.NotNull
      (Code.modify (fun g => { g with fadt := fadt }) >>=
        fun _ => ps2Available >>= fun available => if available = true then startPs2 fuel
        else return ()) t ↔
      ∀ revision u, Ran image n (Code.loadByte (s.globals.rsdp + 15#32))
        (t.withGlobals { t.globals with fadt := fadt }) revision u → revision = 0#8 ∨ fadt ≠ 0#32 := by
    have hps2 : Prog.Performs (Machine.demand image n) Op.NotNull ps2Available
        (t.withGlobals { t.globals with fadt := fadt }) ↔ _ :=
      performs_ps2Available (show t.globals.rsdp ≠ 0#32 from ht ▸ h)
    rw [← ht, Prog.performs_bind_of_run _ (hmodify fadt) (ran_modify _), Prog.performs_bind_iff]
    refine (and_iff_left fun available u _ => ?_).trans hps2
    split
    · exact (Neutral.startPs2 fuel).notNull.performs _ u
    · exact Prog.performs_ret _ _ _ _
  unfold initPs2
  rw [Prog.performs_bind_right _ (Searching.findByHeader _).neutral.notNull]
  constructor
  · intro hp t ht revision u hrevision
    have ht := ran_findByHeader_null.mpr ht
    exact ((hrest 0#32 (hrsdp ht)).mp (hp 0#32 t ht) revision u hrevision).resolve_right fun h0 => h0 rfl
  · intro hp fadt t ht
    refine (hrest fadt (hrsdp ht)).mpr fun revision u hrevision => ?_
    by_cases h0 : fadt = 0#32
    · subst h0
      exact Or.inl (hp t (ran_findByHeader_null.mp ht) revision u hrevision)
    · exact Or.inr h0

/-! The whole start. -/

theorem ran_initRsdt_rsdp (h : ∀ t, ¬ NoRsdp image n s t) (hr : Ran image n (initRsdt image) s () t) :
    t.globals.rsdp ≠ 0#32 := by
  obtain ⟨rsdp, u, hrsdp, hr⟩ := Prog.of_run_bind _ hr
  rw [Prog.run_bind_ok _ (ran_modify _)] at hr
  have hderef : Keeps Globals.rsdp (Code.deref .findRSDP rsdp) := Prog.all_perform.mpr trivial
  have hkeep (f : Globals → Globals) (hf : ∀ g, SameLookups g (f g)) :
      Keeps Globals.rsdp (Code.modify f) :=
    (Neutral.modify hf).keeps .rsdp
  have hfind : Keeps Globals.rsdp findRSDT := by
    refine ((Neutral.get _).keeps .rsdp).bind fun rsdp => ?_
    have hderef : Keeps Globals.rsdp (Code.deref .findRSDP rsdp) := Prog.all_perform.mpr trivial
    refine hderef.bind fun _ => ((Neutral.loadByte _).keeps .rsdp).bind fun revision => ?_
    split
    · exact hderef.bind fun _ => (Neutral.load _).keeps .rsdp
    · exact hderef.bind fun _ => (Neutral.load _).keeps .rsdp
  have hrest : Keeps Globals.rsdp (findRSDT >>= fun rsdtPhysaddr =>
      Code.modify (fun g => { g with rsdtPhysaddr := rsdtPhysaddr }) >>= fun _ =>
        mapRootTable image rsdtPhysaddr) :=
    hfind.bind fun _ => (hkeep _ fun _ => ⟨rfl, rfl, rfl⟩).bind fun _ =>
      (Neutral.mapRootTable image _).keeps .rsdp
  rw [Machine.run_keeps .rsdp hrest hr]
  rintro h0
  obtain rfl : rsdp = 0#32 := h0
  exact h u (ran_findRSDP_null.mp hrsdp)

end Conditions

/-- What the memory must hold, at the points where the start of the devices looks things up. -/
structure LookupsSucceed (image : KernelImage) (n : Nat) (s : Machine) : Prop where
  rsdp : ∀ t, ¬ NoRsdp image n s t
  interruptOverride : ∀ t, Ran image n (initRsdt image) s () t →
    ∀ u, Ran image n (startLocalApic image) t true u →
      ∀ a v, HasRecord image n 1#32 u a v → ∀ w, ¬ NoRecord image n 2#32 v w
  fadt : ∀ t, Ran image n (initRsdt image) s () t → ∀ fuel u, Ran image n (initApic image fuel) t () u →
    ∀ v, NoTable image n facp u v → ∀ revision w, Ran image n (Code.loadByte (u.globals.rsdp + 15#32))
      (v.withGlobals { v.globals with fadt := 0#32 }) revision w → revision = 0#8

theorem performs_initDevices_iff (image : KernelImage) (n : Nat) (s : Machine) :
    (∀ fuel, Prog.Performs (Machine.demand image n) Op.NotNull (initDevices image fuel) s) ↔
      LookupsSucceed image n s := by
  have hparts (fuel : Nat) :
      Prog.Performs (Machine.demand image n) Op.NotNull (initDevices image fuel) s ↔
      (∀ t, ¬ NoRsdp image n s t) ∧ ∀ t, Ran image n (initRsdt image) s () t →
        Prog.Performs (Machine.demand image n) Op.NotNull (initApic image fuel) t ∧
          ∀ u, Ran image n (initApic image fuel) t () u →
            Prog.Performs (Machine.demand image n) Op.NotNull (initPs2 fuel) u := by
    rw [initDevices, Prog.performs_bind_iff, performs_initRsdt]
    simp only [Prog.performs_bind_iff]
    constructor
    · intro h
      exact ⟨h.1, fun t ht => ⟨(h.2 () t ht).1, (h.2 () t ht).2 ()⟩⟩
    · intro h
      exact ⟨h.1, fun _ t ht => ⟨(h.2 t ht).1, fun _ => (h.2 t ht).2⟩⟩
  have hrsdp {fuel : Nat} {t u : Machine} (h : ∀ t, ¬ NoRsdp image n s t)
      (ht : Ran image n (initRsdt image) s () t) (hu : Ran image n (initApic image fuel) t () u) :
      u.globals.rsdp ≠ 0#32 := by
    rw [Machine.run_keeps .rsdp (initApic_keeps fuel) hu]
    exact ran_initRsdt_rsdp h ht
  constructor
  · intro h
    have hno := ((hparts 0).mp (h 0)).1
    refine ⟨hno, fun t ht => ?_, fun t ht fuel u hu => ?_⟩
    · exact performs_initApic.mp fun fuel => (((hparts fuel).mp (h fuel)).2 t ht).1
    · exact (performs_initPs2 (hrsdp hno ht hu) fuel).mp ((((hparts fuel).mp (h fuel)).2 t ht).2 u hu)
  · intro h fuel
    refine (hparts fuel).mpr
      ⟨h.rsdp, fun t ht => ⟨performs_initApic.mpr (h.interruptOverride t ht) fuel, ?_⟩⟩
    intro u hu
    exact (performs_initPs2 (hrsdp h.rsdp ht hu) fuel).mpr (h.fadt t ht fuel u hu)

/-! A firmware that leaves no RSDP. -/

section NoFirmware

variable {image : KernelImage} {n : Nat} {s : Machine}

theorem KernelMapped.byteAt_image (h : KernelMapped image s) {a : Word} (hge : 0xC0000000 ≤ a.toNat)
    (hlt : a.toNat < image.kernelEnd.toNat) :
    s.byteAt a = .ok (byteOf a (s.mem (frameOf (a - kernelMapStart)) (wordOf a))) := by
  rw [Machine.byteAt, Machine.access, h.walk_image hge hlt]
  rfl

theorem ran_loadByte {a : Word} {b : Byte} (h : s.byteAt a = .ok b) :
    Ran image n (Code.loadByte a) s b s := by
  rw [Ran, Code.loadByte, Prog.run_perform]
  exact Machine.demand_of_exec (by rw [Machine.exec, h]; rfl)

theorem refused_of_empty {a : Word} (h : s.byteAt a = .ok 0#8) : Refused image n a s s := by
  have hread : Ran image n (bytesAt a 0) s 0#8 s := ran_loadByte (by rwa [BitVec.add_zero])
  refine Or.inl ⟨-0x52, by decide, ?_⟩
  rw [Ran, strncmp, Prog.run_bind_ok _ hread]
  simp only [if_true, Prog.pure_eq, Prog.ret_bind, Bool.false_eq_true, if_false]
  rw [Prog.run_bind_ok _ hread]
  rfl

theorem chain_self {σ : Type} {R : Nat → σ → σ → Prop} {i n : Nat} {s : σ} (h : ∀ j < n, R (i + j) s s) :
    Prog.Chain R i n s s := by
  induction n generalizing i with
  | zero => rfl
  | succ n ih =>
    refine ⟨s, h 0 (by omega), ih fun j hj => ?_⟩
    rw [show i + 1 + j = i + (j + 1) by omega]
    exact h (j + 1) (by omega)

/-- With the first megabyte mapped and empty, no location is taken for the RSDP. -/
theorem noRsdp_of_empty (hmap : KernelMapped image s) (hend : 0xC0100000 ≤ image.kernelEnd.toNat)
    (h : ∀ f : Frame, f.toNat < 0x100 → ∀ i, s.mem f i = 0#32) : NoRsdp image n s s := by
  have hbyte {a : Word} (hge : 0xC0000000 ≤ a.toNat) (hlt : a.toNat < 0xC0100000) :
      s.byteAt a = .ok 0#8 := by
    have hf : (frameOf (a - kernelMapStart)).toNat < 0x100 := by
      rw [frameOf_toNat, kernelMapStart, BitVec.toNat_sub]
      simp only [BitVec.toNat_ofNat]
      omega
    rw [hmap.byteAt_image hge (by omega), h _ hf, byteOf, BitVec.extractLsb'_zero]
  have hload : Ran image n (Code.load (kernelMapStart + 0x413#32)) s 0#32 s := by
    rw [Ran, Code.load, Prog.run_perform]
    refine Machine.demand_of_exec ?_
    rw [Machine.exec, if_neg (by decide), Machine.wordAt, hbyte (by decide) (by decide),
      hbyte (by decide) (by decide), hbyte (by decide) (by decide), hbyte (by decide) (by decide)]
    rfl
  have hw : Ran image n (readWordAtAddress (kernelMapStart + 0x413#32)) s 0#16 s := by
    rw [Ran, readWordAtAddress, Prog.run_bind_ok _ hload]
    rfl
  refine ⟨0#16, s, s, hw, chain_self fun j hj => ?_, chain_self fun j hj => ?_⟩
  · refine refused_of_empty (hbyte ?_ ?_)
    all_goals
      simp only [ebdaLocation, kernelMapStart, BitVec.setWidth_zero, BitVec.zero_shiftLeft,
        BitVec.toNat_add, BitVec.toNat_ofNat]
      omega
  · refine refused_of_empty (hbyte ?_ ?_)
    all_goals
      simp only [biosLocation, kernelMapStart, BitVec.toNat_add, BitVec.toNat_ofNat]
      omega

end NoFirmware

end PekOS
