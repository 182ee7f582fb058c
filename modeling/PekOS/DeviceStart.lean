import PekOS.ApicRegisters
import PekOS.FindByHeader
import PekOS.FindRsdp
import PekOS.MadtRecords
import PekOS.MappedTables
import PekOS.NullChecks

/-! With which firmware the start of the devices uses a `NULL`: the RSDP, the
tables it leads to and the records of the MADT, as they lie in memory at boot. -/

namespace PekOS

open OpTree FirstFit

def apicSignature : List Byte := [0x41#8, 0x50#8, 0x49#8, 0x43#8]

namespace Machine

variable (image : KernelImage) (s : Machine) (root : Word) (F : Set Frame)

/-- What lies at `x` is not written while the devices are started: it is no part of the kernel,
of the registers in the frames `F`, or of the pointers of the root table. -/
def Stays (x : Word) : Prop :=
  image.Apart (frameOf x) ∧ frameOf x ∉ F ∧
    (36 ≤ (x - root).toNat → 36 + 4 * s.rootCount root ≤ (x - root).toNat)

/-- The first listed table with the signature. -/
def FirstListed (head : List Byte) (i : Nat) : Prop :=
  i < s.rootCount root ∧ s.HasSignature (s.rootEntry root i) head ∧
    ∀ j < i, ¬ s.HasSignature (s.rootEntry root j) head

/-- The byte at an offset of the table at `p`. -/
def byteFrom (p : Word) (o : Nat) : Byte := s.byte (p + BitVec.ofNat 32 o)

def HasMsr : Prop := s.cpuidEdx &&& 0x20#32 ≠ 0#32

/-- A processor with the MSR says that its local APIC can be used. -/
def ApicUsable : Prop := s.HasMsr → s.cpuidEdx &&& 0x200#32 ≠ 0#32

instance : Decidable s.HasMsr := inferInstanceAs (Decidable (_ ≠ _))

/-- Where the registers of the local APIC are: by the MSR, or by the MADT at `p`. -/
def localApicAddress (p : Word) : Word :=
  if s.HasMsr then s.apicBase.setWidth 32 &&& 0xFFFFF000#32 else s.word (p + 36#32)

/-- Where those of the IOAPIC are, by its record at offset `o`. -/
def ioapicAddress (p : Word) (o : Nat) : Word := s.word (p + BitVec.ofNat 32 (o + 4))

end Machine

/-- The `i`-th listed table is a MADT filled by its records; the pages after its first one
show what follows there, and what the records name are registers. -/
structure MadtLayout (image : KernelImage) (s : Machine) (root : Word) (F : Set Frame) (i : Nat)
    (offsets : List Nat) : Prop where
  tiled : Tiled (s.byteFrom (s.rootEntry root i)) (s.tableLength (s.rootEntry root i)) 44 offsets
  pages : ∀ m, 0 < m → 4096 * m < (s.rootEntry root i).toNat % 4096 + s.tableLength (s.rootEntry root i) →
    s.servedPage (i + 1) + m < 0xC07F8 ∧ s.LeavesBehind root (BitVec.ofNat 20 (s.servedPage (i + 1) + m))
      (frameOf (s.rootEntry root i) + BitVec.ofNat 20 m)
  bytes : ∀ o < s.tableLength (s.rootEntry root i), s.Stays image root F
    (s.rootEntry root i + BitVec.ofNat 32 o)
  localApic : aligned 4096 (s.localApicAddress (s.rootEntry root i)) ∧
    frameOf (s.localApicAddress (s.rootEntry root i)) ∈ F
  ioapics : ∀ o ∈ offsets, s.byteFrom (s.rootEntry root i) o = 1#8 →
    o + 8 ≤ s.tableLength (s.rootEntry root i) ∧
    (s.ioapicAddress (s.rootEntry root i) o).toNat % 4096 + 0x14 ≤ 4096 ∧
      frameOf (s.ioapicAddress (s.rootEntry root i) o) ∈ F
  overrides : ∀ o ∈ offsets, s.byteFrom (s.rootEntry root i) o = 2#8 →
    o + 10 ≤ s.tableLength (s.rootEntry root i)

/-- What the firmware leaves lies apart: the RSDP, the root table, the signatures of the listed
tables and the MADT, from the kernel, from one another and from the registers in the frames `F`. -/
structure Layout (image : KernelImage) (s : Machine) (root : Word) (F : Set Frame) : Prop
    extends Placed image s root where
  registers : ∀ f ∈ F, image.Apart f
  rootFrame : frameOf root ∉ F
  rsdp : s.Stays image root F (s.globals.rsdp - kernelMapStart + 15#32)
  signatures_stay : ∀ i < s.rootCount root, ∀ k < 4, s.Stays image root F
    (s.rootEntry root i + BitVec.ofNat 32 k)
  madt : s.globals.acpiVersion = false → ∀ i, s.FirstListed root apicSignature i →
    ∃ offsets, MadtLayout image s root F i offsets

/-- A MADT that `init_apic` uses and that has a record of type 1 has one of type 2. -/
def Machine.OverrideListed (s : Machine) (root : Word) : Prop :=
  s.ApicUsable → ∀ i, s.FirstListed root apicSignature i → ∀ offsets,
    Tiled (s.byteFrom (s.rootEntry root i)) (s.tableLength (s.rootEntry root i)) 44 offsets →
      (∃ o ∈ offsets, s.byteFrom (s.rootEntry root i) o = 1#8) →
      ∃ o ∈ offsets, s.byteFrom (s.rootEntry root i) o = 2#8

theorem Tiled.unique {byte : Nat → Byte} {stop o : Nat} {offsets offsets' : List Nat}
    (h : Tiled byte stop o offsets) (h' : Tiled byte stop o offsets') : offsets = offsets' := by
  induction h generalizing offsets' with
  | nil =>
    cases h' with
    | nil => rfl
    | cons hlen hrest =>
      have := hrest.le
      omega
  | cons hlen hrest ih =>
    cases h' with
    | nil =>
      have := hrest.le
      omega
    | cons hlen' hrest' => rw [ih hrest']

section Started

variable {image : KernelImage} {s₀ s t u : Machine} {root : Word} {F : Set Frame} {head : List Byte}
    {i : Nat}
  {offsets : List Nat}

/-- `u` is reached from the end of `init_rsdt`, with what the lookups need still standing. -/
structure Standing (image : KernelImage) (s : Machine) (root : Word) (F : Set Frame)
    (t u : Machine) : Prop where
  rewritten : Rewritten image s root (s.rootCount root) t
  driven : Driven image F t u

namespace Standing

variable (h : Standing image s root F t u)

include h

theorem byte {x : Word} (hx : s.Stays image root F x) : u.byte x = s.byte x := by
  rw [h.driven.memory x hx.1 hx.2.1, h.rewritten.memory x hx.1 hx.2.2]

theorem hasSignature_iff (hl : Layout image s root F) (hi : i < s.rootCount root) :
    u.HasSignature (s.rootEntry root i) head ↔ s.HasSignature (s.rootEntry root i) head := by
  refine forall_congr' fun k => forall_congr' fun hk => ?_
  rw [h.byte (hl.signatures_stay i hi k hk)]

theorem lists (hl : Layout image s root F) (hversion : s.globals.acpiVersion = false) :
    Lists s root u := by
  have ht := h.rewritten.lists hl.toPlaced hversion
  have hlen := hl.length
  have hin := hl.inPage
  have hword {k : Nat} (hk : root.toNat % 4096 + k + 4 ≤ 4096) :
      u.word (root + BitVec.ofNat 32 k) = t.word (root + BitVec.ofNat 32 k) := by
    refine h.driven.word fun j hj => ?_
    rw [BitVec.add_assoc, ← BitVec.ofNat_add, Machine.frameOf_add (by omega)]
    exact ⟨hl.apart, hl.rootFrame⟩
  have hreads {a p : Word} (hr : t.Reads a p) : u.Reads a p :=
    ⟨h.driven.translate hr.1, fun k hk => h.driven.translate (hr.2 k hk)⟩
  refine ⟨h.driven.version.trans ht.version, h.driven.rsdt.trans ht.rsdt, hreads ht.header,
    (hword (k := 4) (by omega)).trans ht.length, fun i hi => hreads (ht.pointers i hi), fun i hi => ?_,
    fun i hi k hk => h.driven.translate (ht.tables i hi k hk)⟩
  have hentry := hl.entry_le hi
  have hle := RootTable.le_stride s.globals i
  exact (hword (k := 36 + 4 * i) (by omega)).trans (ht.slots i hi)

/-- `find_by_header` finds the first listed table with the signature,
and `NULL` only if none is listed. -/
theorem run_findByHeader (hb : Booted image s₀) (ha : s₀.Alike s) (hl : Layout image s root F)
    (hversion : s.globals.acpiVersion = false) (head : List Byte) :
    ∃ r w, u.run (findByHeader head) = .ok (r, u.withGlobals { u.globals with entries := w }) ∧
      (r = 0#32 ∧ (∀ i, ¬ s.FirstListed root head i) ∨
        ∃ i, s.FirstListed root head i ∧ r = s.entryTable root i ∧ r ≠ 0#32) := by
  classical
  have hne (i : Nat) (hi : i < s.rootCount root) := hb.entryTable_ne_zero ha hl.toRootTable hi
  obtain ⟨r, w, hr, hnull, hfirst⟩ := (h.lists hl hversion).run_findByHeader hversion hne head
  refine ⟨r, w, hr, ?_⟩
  by_cases hsome : ∃ i, i < s.rootCount root ∧ s.HasSignature (s.rootEntry root i) head
  · obtain ⟨hi, hhas⟩ := Nat.find_spec hsome
    have hbefore (j : Nat) (hj : j < Nat.find hsome) : ¬ s.HasSignature (s.rootEntry root j) head :=
      fun hj' => Nat.find_min hsome hj ⟨by omega, hj'⟩
    have heq : r = s.entryTable root (Nat.find hsome) := by
      refine hfirst _ hi ((h.hasSignature_iff hl hi).mpr hhas) fun j hj hj' => ?_
      exact hbefore j hj ((h.hasSignature_iff hl (by omega)).mp hj')
    exact Or.inr ⟨_, ⟨hi, hhas, hbefore⟩, heq, heq ▸ hne _ hi⟩
  · refine Or.inl ⟨hnull.mpr fun i hi hhas => hsome ⟨i, hi, (h.hasSignature_iff hl hi).mp hhas⟩, ?_⟩
    exact fun i hi => hsome ⟨i, hi.1, hi.2.1⟩

/-- The MADT is read as the firmware has left it. -/
theorem madt (hb : Booted image s₀) (ha : s₀.Alike s) (hl : Layout image s root F)
    (hi : i < s.rootCount root) (hm : MadtLayout image s root F i offsets)
    (hmadt : u.globals.madt = s.entryTable root i) :
    u.Madt (s.byteFrom (s.rootEntry root i)) (s.word (s.rootEntry root i + 4#32)) ∧
      ∀ k, k + 4 ≤ s.tableLength (s.rootEntry root i) →
        u.ReadsWord (u.globals.madt + BitVec.ofNat 32 k)
        (s.word (s.rootEntry root i + BitVec.ofNat 32 k)) := by
  have hge := hm.tiled.le
  have htranslate (o : Nat) (ho : o < s.tableLength (s.rootEntry root i)) :
      u.translate (s.entryTable root i + BitVec.ofNat 32 o) =
        some (s.rootEntry root i + BitVec.ofNat 32 o) :=
    h.driven.translate ((h.rewritten.shows_table_iff hb ha hl.toRootTable hi).mpr hm.pages o ho)
  have hword (k : Nat) (hk : k + 4 ≤ s.tableLength (s.rootEntry root i)) :
      u.ReadsWord (u.globals.madt + BitVec.ofNat 32 k)
      (s.word (s.rootEntry root i + BitVec.ofNat 32 k)) := by
    have hreads : u.Reads (s.entryTable root i + BitVec.ofNat 32 k)
        (s.rootEntry root i + BitVec.ofNat 32 k) := by
      refine ⟨htranslate k (by omega), fun j hj => ?_⟩
      rw [BitVec.add_assoc, BitVec.add_assoc, ← BitVec.ofNat_add]
      exact htranslate (k + j) (by omega)
    have hsame : u.word (s.rootEntry root i + BitVec.ofNat 32 k) =
        s.word (s.rootEntry root i + BitVec.ofNat 32 k) := by
      refine LittleEndian.word_congr (h.byte (hm.bytes k (by omega))) fun j hj => ?_
      rw [BitVec.add_assoc, ← BitVec.ofNat_add]
      exact h.byte (hm.bytes (k + j) (by omega))
    rw [hmadt, ← hsame]
    exact Machine.readsWord hreads
  refine ⟨⟨⟨hword 4 (by omega), fun o _ ho => ?_⟩, ?_⟩, hword⟩
  · rw [hmadt, Machine.byteFrom, ← h.byte (hm.bytes o ho)]
    exact Machine.byteAt_eq (htranslate o ho)
  · -- the last of its pages is below the window
    have hn := hl.rootCount_le
    have hserved := (hb.servedPage_le (k := i + 1) (by omega)).2
    rw [← ha.servedPage] at hserved
    obtain ⟨hframe, hoffset⟩ :=
      pageAddr_add_low (show s.servedPage (i + 1) < 1024 * 1024 by omega) (s.rootEntry root i)
    have hframe := congrArg BitVec.toNat hframe
    have hoffset := congrArg BitVec.toNat hoffset
    rw [frameOf_toNat, frameOf_toNat, pageAddr_toNat (by omega)] at hframe
    rw [offsetOf_toNat, offsetOf_toNat] at hoffset
    have hlast := hm.pages
      (((s.rootEntry root i).toNat % 4096 + s.tableLength (s.rootEntry root i) - 1) / 4096)
    rw [hmadt, Machine.entryTable]
    show _ + s.tableLength (s.rootEntry root i) ≤ _
    by_cases hone : (s.rootEntry root i).toNat % 4096 + s.tableLength (s.rootEntry root i) ≤ 4096
    · omega
    · have hbelow := (hlast (by omega) (by omega)).1
      omega

end Standing

theorem Standing.withGlobals (h : Standing image s root F t u) {g : Globals} (hg : SamePaging u.globals g)
    (hrsdp : g.rsdp = u.globals.rsdp) (hrsdt : g.rsdt = u.globals.rsdt)
    (hversion : g.acpiVersion = u.globals.acpiVersion) : Standing image s root F t (u.withGlobals g) :=
  ⟨h.rewritten, h.driven.withGlobals hg hrsdp hrsdt hversion⟩

/-- `init_apic` goes on from the local APIC exactly if a MADT is listed and the APIC can be used. -/
theorem run_startLocalApic (hb : Booted image s₀) (ha : s₀.Alike s) (hl : Layout image s root F)
    (hversion : s.globals.acpiVersion = false) (h : Rewritten image s root (s.rootCount root) t)
    (hcpu : t.cpuidEdx = s.cpuidEdx ∧ t.apicBase = s.apicBase) :
    ∃ started u, t.run (startLocalApic image) = .ok (started, u) ∧ Standing image s root F t u ∧
      (started = false ∧ ¬ (s.ApicUsable ∧ ∃ i, s.FirstListed root apicSignature i) ∨
        started = true ∧ s.ApicUsable ∧ ∃ i, s.FirstListed root apicSignature i ∧
          u.globals.madt = s.entryTable root i ∧
          u.globals.freePages = s.globals.freePages.drop (s.rootCount root + 1 + 1)) := by
  have hstart : Standing image s root F t t := ⟨h, .refl h.paged⟩
  have hmsr : t.run cpuHasMsr = .ok (decide s.HasMsr, t) := by
    show t.run cpuHasMsr = .ok (decide (s.cpuidEdx &&& 0x20#32 ≠ 0#32), t)
    rw [← hcpu.1]
    rfl
  -- the MADT is looked for
  let g : Globals := { t.globals with msrAvailable := decide s.HasMsr }
  have h₁ : Standing image s root F t (t.withGlobals g) :=
    hstart.withGlobals ⟨rfl, rfl, rfl, rfl⟩ rfl rfl rfl
  obtain ⟨r, w, hfind, hcases⟩ := h₁.run_findByHeader hb ha hl hversion apicSignature
  let v : Machine := t.withGlobals { g with entries := w, madt := r }
  have hv : Standing image s root F t v := hstart.withGlobals ⟨rfl, rfl, rfl, rfl⟩ rfl rfl rfl
  have hlookup {k : Bool → Word → Code Bool} : t.run (do
      let msrAvailable ← cpuHasMsr
      Code.modify fun g => { g with msrAvailable := msrAvailable }
      let madt ← findByHeader apicSignature
      Code.modify fun g => { g with madt := madt }
      k msrAvailable madt) = v.run (k (decide s.HasMsr) r) :=
    (Prog.run_bind_ok _ hmsr).trans ((Prog.run_bind_ok _ (Machine.run_modify _)).trans
      ((Prog.run_bind_ok _ hfind).trans (Prog.run_bind_ok _ (Machine.run_modify _))))
  have hcheck : v.run checkApic = .ok (decide (s.cpuidEdx &&& 0x200#32 ≠ 0#32), v) := by
    rw [← hcpu.1]
    rfl
  rcases hcases with ⟨rfl, hnone⟩ | ⟨i, hi, hr, hne⟩
  · exact ⟨false, v, hlookup.trans (by rw [if_pos rfl]; rfl), hv, Or.inl ⟨rfl, fun hu => hu.2.elim hnone⟩⟩
  · -- the local APIC is programmed through the next page
    obtain ⟨offsets, hm⟩ := hl.madt hversion i hi
    have henough := hb.enough_of_le ha (n := s.rootCount root + 1) (by have := hl.rootCount_le; omega)
    have hhead := h.head henough
    have hge := hm.tiled.le
    have hword := (hv.madt hb ha hl hi.1 hm hr).2 36 (by omega)
    have hprogram (hread : v.run (if decide s.HasMsr = true then cpuGetApicBase else do
        Code.deref .findByHeader r
        Code.load (r + 36#32)) = .ok (s.localApicAddress (s.rootEntry root i), v)) :=
      hv.driven.run_programLocalApic hhead (henough _ (Nat.le_refl _)).2 hm.localApic.1 hm.localApic.2
        (hl.registers _ hm.localApic.2) hread
    by_cases husable : s.ApicUsable
    · obtain ⟨u, hrun, hu, hfree, hmadt⟩ := hprogram (by
        by_cases hhas : s.HasMsr
        · rw [decide_eq_true hhas, if_pos rfl, Machine.localApicAddress, if_pos hhas, ← hcpu.2]
          rfl
        · rw [decide_eq_false hhas, if_neg Bool.false_ne_true, Machine.localApicAddress, if_neg hhas]
          exact Machine.run_load_iff.mpr ⟨rfl, hword⟩)
      refine ⟨true, u, hlookup.trans ?_, ⟨h, hu⟩, Or.inr ⟨rfl, husable, i, hi, hmadt.trans hr, hfree⟩⟩
      rw [if_neg hne]
      by_cases hhas : s.HasMsr
      · rw [decide_eq_true hhas] at hrun ⊢
        rw [if_pos rfl, Machine.run, Prog.run_bind_ok _ hcheck, decide_eq_true (husable hhas)]
        exact (Prog.run_bind_ok _ hrun).trans rfl
      · rw [decide_eq_false hhas] at hrun ⊢
        exact (Prog.run_bind_ok _ hrun).trans rfl
    · have hhas : s.HasMsr := by
        by_contra hno
        exact husable fun h => absurd h hno
      have hnot : ¬ s.cpuidEdx &&& 0x200#32 ≠ 0#32 := fun h => husable fun _ => h
      refine ⟨false, v, hlookup.trans ?_, hv, Or.inl ⟨rfl, fun hu => husable hu.1⟩⟩
      rw [if_neg hne, decide_eq_true hhas, if_pos rfl, Machine.run, Prog.run_bind_ok _ hcheck,
        decide_eq_false hnot]
      rfl

/-! The records. -/

section Records

variable {n fuel : Nat} {byte : Nat → Byte} {length type a : Word} {v w : Machine}

theorem Machine.Madt.of_ran_find (h : u.Madt byte length) (ht : Tiled byte length.toNat 44 offsets)
    (hr : Ran image n (findMADTEntryByType fuel type) u a v) :
    u.recordOfType byte type offsets = a ∧ u = v := by
  have hfind : u.run (findMADTEntryByType (max fuel (offsets.length + 1)) type) =
      .ok (u.recordOfType byte type offsets, u) := h.run_find ht type (by omega)
  exact (ran_of_run hfind).unique (ran_findMADTEntryByType_mono (Nat.le_max_left _ _) hr)

theorem setWidth_eq_iff (b c : Byte) : b.setWidth 32 = c.setWidth 32 ↔ b = c := by
  rw [← BitVec.toNat_inj, ← BitVec.toNat_inj, BitVec.toNat_setWidth, BitVec.toNat_setWidth]
  omega

theorem Machine.Madt.recordOfType_eq_zero_iff (h : u.Madt byte length)
    (ht : Tiled byte length.toNat 44 offsets) (b : Byte) :
    u.recordOfType byte (b.setWidth 32) offsets = 0#32 ↔ ¬ ∃ o ∈ offsets, byte o = b := by
  rcases h.recordOfType_cases ht (b.setWidth 32) with ⟨o, ho, -, htype, -, ha⟩ | ⟨-, hnone, ha⟩
  · have hge := ht.mem_ge ho
    refine iff_of_false (fun hz => ?_) fun hno => hno ⟨o, ho, (setWidth_eq_iff _ _).mp htype⟩
    rw [hz, BitVec.toNat_ofNat] at ha
    omega
  · exact iff_of_true ha fun ⟨o, ho, hb⟩ => hnone o ho (hb ▸ rfl)

/-- What the start of the IOAPIC needs, on a MADT filled by its records. -/
theorem Machine.Madt.override_iff (h : u.Madt byte length) (ht : Tiled byte length.toNat 44 offsets)
    (n : Nat) :
    (∀ a v, HasRecord image n 1#32 u a v → ∀ w, ¬ NoRecord image n 2#32 v w) ↔
      ((∃ o ∈ offsets, byte o = 1#8) → ∃ o ∈ offsets, byte o = 2#8) := by
  have hone := h.recordOfType_eq_zero_iff ht 1#8
  have htwo := h.recordOfType_eq_zero_iff ht 2#8
  have hran (type : Word) : Ran image n (findMADTEntryByType (offsets.length + 1) type) u
      (u.recordOfType byte type offsets) u := ran_of_run (h.run_find ht type (Nat.lt_succ_self _))
  constructor
  · intro hall hsome
    by_contra hno
    have hnull : NoRecord image n 2#32 u u := by
      rcases ran_findMADTEntryByType.mp ⟨_, hran 2#32⟩ with ⟨_, _, _, _, _, _, _, _, hne⟩ | ⟨-, hnull⟩
      · exact absurd (htwo.mpr hno) hne
      · exact hnull
    rcases ran_findMADTEntryByType.mp ⟨_, hran 1#32⟩ with hhas | ⟨hz, -⟩
    · exact hall _ _ hhas _ hnull
    · exact hone.mp hz hsome
  · intro hall a v hhas w hnull
    have ha : a ≠ 0#32 := hhas.choose_spec.choose_spec.choose_spec.choose_spec.2.2.2.2
    obtain ⟨fuel, hr⟩ := ran_findMADTEntryByType.mpr (Or.inl hhas)
    obtain ⟨rfl, rfl⟩ := h.of_ran_find ht hr
    obtain ⟨fuel', hr'⟩ := ran_findMADTEntryByType.mpr (Or.inr ⟨rfl, hnull⟩)
    obtain ⟨hz, -⟩ := h.of_ran_find ht hr'
    exact htwo.mp hz (hall (not_not.mp fun hno => ha (hone.mpr hno)))

end Records

/-- Once `init_apic` has returned, what the lookups need still stands. -/
theorem standing_of_initApic {n fuel : Nat} {w : Machine} (hb : Booted image s₀) (ha : s₀.Alike s)
    (hl : Layout image s root F) (hversion : s.globals.acpiVersion = false)
    (h : Rewritten image s root (s.rootCount root) t)
    (hcpu : t.cpuidEdx = s.cpuidEdx ∧ t.apicBase = s.apicBase) (hoverride : s.OverrideListed root)
    (hr : Ran image n (initApic image fuel) t () w) : Standing image s root F t w := by
  obtain ⟨started, u, hstart, hu, hcases⟩ := run_startLocalApic hb ha hl hversion h hcpu
  rw [initApic, Ran, Prog.run_bind_ok _ (ran_of_run hstart)] at hr
  rcases hcases with ⟨rfl, -⟩ | ⟨rfl, husable, i, hi, hmadt, hfree⟩
  · obtain rfl : u = w := by simpa using hr
    exact hu
  · rw [if_pos rfl, startIoapic] at hr
    obtain ⟨offsets, hm⟩ := hl.madt hversion i hi
    obtain ⟨hmadtRead, hwords⟩ := hu.madt hb ha hl hi.1 hm hmadt
    have hone := hmadtRead.recordOfType_eq_zero_iff hm.tiled 1#8
    have htwo := hmadtRead.recordOfType_eq_zero_iff hm.tiled 2#8
    obtain ⟨a, v, hfind, hr⟩ := Prog.of_run_bind _ hr
    obtain ⟨rfl, rfl⟩ := hmadtRead.of_ran_find hm.tiled hfind
    by_cases hz : u.recordOfType (s.byteFrom (s.rootEntry root i)) 1#32 offsets = 0#32
    · rw [if_pos hz] at hr
      obtain rfl : u = w := by simpa using hr
      exact hu
    · rw [if_neg hz] at hr
      obtain ⟨iso, v, hfind', hr⟩ := Prog.of_run_bind _ hr
      obtain ⟨rfl, rfl⟩ := hmadtRead.of_ran_find hm.tiled hfind'
      have hboth := hoverride husable i hi offsets hm.tiled (not_not.mp fun hno => hz (hone.mpr hno))
      -- where the two records are
      obtain ⟨o, ho, -, htype, hat, -⟩ :=
        (hmadtRead.recordOfType_cases hm.tiled 1#32).resolve_right fun h => hz h.2.2
      obtain ⟨o', ho', -, htype', hat', -⟩ :=
        (hmadtRead.recordOfType_cases hm.tiled 2#32).resolve_right fun h =>
        htwo.mp h.2.2 hboth
      obtain ⟨hlen, hin, hF⟩ := hm.ioapics o ho ((setWidth_eq_iff _ 1#8).mp htype)
      have hlen' := hm.overrides o' ho' ((setWidth_eq_iff _ 2#8).mp htype')
      have hge := hm.tiled.mem_ge ho'
      have henough := hb.enough_of_le ha (n := s.rootCount root + 1 + 1)
        (by have := hl.rootCount_le; omega)
      obtain ⟨hlt, hbelow⟩ := henough _ (Nat.le_refl _)
      have hadd (x k : Nat) : u.globals.madt + BitVec.ofNat 32 x + BitVec.ofNat 32 k =
          u.globals.madt + BitVec.ofNat 32 (x + k) := by rw [BitVec.add_assoc, ← BitVec.ofNat_add]
      have hload (x : Nat) (hx : x + 8 ≤ s.tableLength (s.rootEntry root i)) :
          u.run (Code.load (u.globals.madt + BitVec.ofNat 32 x + BitVec.ofNat 32 4)) =
            .ok (s.ioapicAddress (s.rootEntry root i) x, u) := by
        rw [hadd]
        exact Machine.run_load_iff.mpr ⟨rfl, hwords (x + 4) (by omega)⟩
      have hbyte (k : Nat) (hk : k < 10) :
          ∃ b, u.run (Code.loadByte (u.globals.madt + BitVec.ofNat 32 o' +
          BitVec.ofNat 32 k)) = .ok (b, u) := by
        rw [hadd]
        refine ⟨_, Machine.run_loadByte_iff.mpr ⟨rfl, hmadtRead.bytes (o' + k) (by omega) ?_⟩⟩
        show o' + k < s.tableLength (s.rootEntry root i)
        omega
      rw [Machine.servedPage_eq hlt] at hbelow
      obtain ⟨w', hprogram, hdriven⟩ := hu.driven.run_programIoapic
        (hfree.trans (List.drop_eq_getElem_cons hlt)) hbelow
        (hload o hlen) hbyte ⟨_, hload o' (by omega)⟩ hin hF (hl.registers _ hF)
      rw [hat, hat'] at hr
      obtain ⟨-, rfl⟩ := (ran_of_run hprogram).unique hr
      exact ⟨h, hdriven⟩

end Started

namespace Machine

variable (s : Machine) (i : Nat)

/-- The root table of the RSDP at the `i`-th location. -/
def rootAt : Word := rootOf s.byte (scanned s.ebdaWord i)

/-- `init_rsdt` has taken the RSDP at the `i`-th location. -/
def found : Machine := s.withGlobals { s.globals with
  acpiVersion := decide (s.byte (scanned s.ebdaWord i + 15#32) ≠ 0#8)
  rsdp := scanned s.ebdaWord i + kernelMapStart
  rsdtPhysaddr := s.rootAt i }

end Machine

section Revision

variable {image : KernelImage} {s₀ t u : Machine} {F : Set Frame} {i n : Nat}

/-- The revision that `init_ps2` reads is the one the firmware has left. -/
theorem run_revision (hlow : s₀.MapsLow) (hi : s₀.FirstRsdp i)
    (hl : Layout image (s₀.found i) (s₀.rootAt i) F) (hr : s₀.run (initRsdt image) = .ok ((), t))
    (hu : Standing image (s₀.found i) (s₀.rootAt i) F t u) :
    u.run (Code.loadByte (u.globals.rsdp + 15#32)) =
      .ok (s₀.byte (scanned s₀.ebdaWord i + 15#32), u) := by
  have hpointer : u.globals.rsdp = scanned s₀.ebdaWord i + kernelMapStart := by
    rw [hu.driven.rsdp, mapped_rsdp.of_initRsdt (hlow.run_findRoot hi) hr]
    rfl
  have hsame : (s₀.found i).translate = s₀.translate := rfl
  have hat : (s₀.found i).translate (scanned s₀.ebdaWord i + kernelMapStart + 15#32) =
      some (scanned s₀.ebdaWord i + 15#32) := by
    rw [hsame]
    exact hlow.scanned hi.1 15 (by decide)
  obtain ⟨m, hm, -⟩ := Machine.translate_eq_some hat
  have ht : t.translate (scanned s₀.ebdaWord i + kernelMapStart + 15#32) =
      some (scanned s₀.ebdaWord i + 15#32) := by
    rw [Machine.translate, hu.rewritten.kept _ _ (by rw [hm]; exact Option.some_ne_none m)]
    exact hat
  have hbyte := hu.byte hl.rsdp
  rw [show (s₀.found i).globals.rsdp = scanned s₀.ebdaWord i + kernelMapStart from rfl,
    BitVec.add_sub_cancel] at hbyte
  rw [hpointer, Machine.run_loadByte (hu.driven.translate ht), hbyte]
  rfl

/-- In ACPI 2.0 mode `init_ps2` finds no FADT. -/
theorem LookupsSucceed.revision (h : LookupsSucceed image n s₀) (hb : Booted image s₀)
    (hlow : s₀.MapsLow) (hi : s₀.FirstRsdp i) (hl : Layout image (s₀.found i) (s₀.rootAt i) F) :
    s₀.byte (scanned s₀.ebdaWord i + 15#32) = 0#8 := by
  obtain ⟨t, ht, hrew⟩ := run_initRsdt hb (hlow.run_findRoot hi) hl.toPlaced
  by_contra hne
  have hv : t.globals.acpiVersion = true := hrew.version.trans (decide_eq_true hne)
  obtain ⟨msr, hu⟩ := Machine.run_initApic_acpi2 image 0 hv
  have hstanding (fadt : Word) : Standing image (s₀.found i) (s₀.rootAt i) F t
      (t.withGlobals { t.globals with msrAvailable := msr, madt := 0#32, fadt := fadt }) :=
    ⟨hrew, (Driven.refl hrew.paged).withGlobals ⟨rfl, rfl, rfl, rfl⟩ rfl rfl rfl⟩
  exact hne (h.fadt t (ran_of_run ht) 0 _ (ran_of_run hu) _ (Or.inl ⟨hv, rfl⟩) _ _
    (ran_of_run (run_revision hlow hi hl ht (hstanding 0#32))))

theorem LookupsSucceed.overrideListed (h : LookupsSucceed image n s₀) (hb : Booted image s₀)
    (hlow : s₀.MapsLow) (hi : s₀.FirstRsdp i) (hl : Layout image (s₀.found i) (s₀.rootAt i) F)
    (hversion : (s₀.found i).globals.acpiVersion = false) :
    (s₀.found i).OverrideListed (s₀.rootAt i) := by
  intro husable j hj offsets htiled
  have hfind := hlow.run_findRoot hi
  have ha := alike_of_findRoot hfind
  obtain ⟨t, ht, hrew⟩ := run_initRsdt hb hfind hl.toPlaced
  obtain ⟨started, u, hstart, hu, hcases⟩ :=
    run_startLocalApic hb ha hl hversion hrew (cpu_of_initRsdt hfind ht)
  rcases hcases with ⟨-, hnot⟩ | ⟨rfl, -, k, hk, hmadt, -⟩
  · exact absurd ⟨husable, j, hj⟩ hnot
  · -- there is one first table with the signature, and one way to fill it
    obtain rfl : j = k := by
      rcases Nat.lt_trichotomy j k with hlt | heq | hlt
      · exact absurd hj.2.1 (hk.2.2 j hlt)
      · exact heq
      · exact absurd hk.2.1 (hj.2.2 k hlt)
    obtain ⟨offsets', hm⟩ := hl.madt hversion j hj
    obtain rfl := htiled.unique hm.tiled
    have hread := (hu.madt hb ha hl hj.1 hm hmadt).1
    exact (hread.override_iff hm.tiled n).mp
      (h.interruptOverride t (ran_of_run ht) u (ran_of_run hstart))

theorem lookupsSucceed_of_overrideListed (hb : Booted image s₀) (hlow : s₀.MapsLow)
    (hi : s₀.FirstRsdp i) (hl : Layout image (s₀.found i) (s₀.rootAt i) F)
    (hzero : s₀.byte (scanned s₀.ebdaWord i + 15#32) = 0#8)
    (hoverride : (s₀.found i).OverrideListed (s₀.rootAt i)) : LookupsSucceed image n s₀ := by
  have hfind := hlow.run_findRoot hi
  have ha := alike_of_findRoot hfind
  have hversion : (s₀.found i).globals.acpiVersion = false := decide_eq_false (not_not.mpr hzero)
  obtain ⟨t, ht, hrew⟩ := run_initRsdt hb hfind hl.toPlaced
  have hcpu := cpu_of_initRsdt hfind ht
  refine ⟨fun v hno => ?_, fun t' ht' u hu => ?_,
    fun t' ht' fuel u hu v hnull revision w hrevision => ?_⟩
  · have hran : Ran image n findRSDP s₀ _ _ := ran_of_run (hlow.run_findRSDP_of hi)
    have hfound := hran.unique (ran_findRSDP_null.mpr hno)
    have hnat := scanned_toNat s₀.ebdaWord hi.1
    rw [hfound.1, BitVec.toNat_ofNat] at hnat
    omega
  · obtain ⟨-, rfl⟩ := (ran_of_run ht).unique ht'
    obtain ⟨started, u', hstart, hstanding, hcases⟩ := run_startLocalApic hb ha hl hversion hrew hcpu
    obtain ⟨rfl, rfl⟩ := (ran_of_run hstart).unique hu
    rcases hcases with ⟨hno, -⟩ | ⟨-, husable, j, hj, hmadt, -⟩
    · cases hno
    · obtain ⟨offsets, hm⟩ := hl.madt hversion j hj
      have hread := (hstanding.madt hb ha hl hj.1 hm hmadt).1
      exact (hread.override_iff hm.tiled n).mpr (hoverride husable j hj offsets hm.tiled)
  · obtain ⟨-, rfl⟩ := (ran_of_run ht).unique ht'
    have hstanding := standing_of_initApic hb ha hl hversion hrew hcpu hoverride hu
    obtain ⟨r, e, hr, -⟩ := hstanding.run_findByHeader hb ha hl hversion facp
    obtain ⟨-, rfl⟩ := (ran_of_run hr).unique (ran_findByHeader_null.mpr hnull)
    have hlast : Standing image (s₀.found i) (s₀.rootAt i) F t
        (u.withGlobals { u.globals with entries := e, fadt := 0#32 }) :=
      hstanding.withGlobals ⟨rfl, rfl, rfl, rfl⟩ rfl rfl rfl
    obtain ⟨hrev, -⟩ := (ran_of_run (run_revision hlow hi hl ht hlast)).unique hrevision
    exact hrev.symm.trans hzero

end Revision

/-- An RSDP of revision 0 and an RSDT with one entry,
a MADT with an IOAPIC and an interrupt source override. -/
def apicFirmware : RootFirmware where
  words := [(0x0#32, 0x20445352#32), (0x4#32, 0x20525450#32), (0x8#32, 0x61#32), (0x10#32, 0x00800000#32),
    (0x800000#32, 0x54445352#32), (0x800004#32, 40#32), (0x800024#32, 0x00801000#32),
    (0x801000#32, 0x43495041#32), (0x801004#32, 66#32), (0x801024#32, 0xFEE00000#32),
    (0x80102C#32, 0x00000C01#32), (0x801030#32, 0xFEC00000#32), (0x801038#32, 0x00000A02#32),
    (0x80103C#32, 2#32)]
  beside := rfl
  segment := 0#16
  segment_lt := Firmware.zeroSegment_lt
  segment_eq := by decide
  signature := by decide
  checksum := by decide
  outside := by decide
  length := by decide
  inPage := by decide

/-- The frames of the registers that its MADT names. -/
def apicFrames : Set Frame := {f | f = 0xFEE00#20 ∨ f = 0xFEC00#20}

theorem not_mem_apicFrames {f : Frame} (hf : f.toNat < 0xFE000) : f ∉ apicFrames := by
  rintro (rfl | rfl)
  · exact absurd hf (by decide)
  · exact absurd hf (by decide)

/-- Its root table has been found. -/
structure ApicFound (s : Machine) : Prop where
  bytes : ∀ p, BesideKernel p → s.byte p = apicFirmware.byte p
  rootTable : RootTable alignedImage s 0x00800000#32
  count : s.rootCount 0x00800000#32 = 1
  entry : s.rootEntry 0x00800000#32 0 = 0x00801000#32
  rsdp : s.globals.rsdp = ebda 0#16 + kernelMapStart
  cpuidEdx : s.cpuidEdx = 0#32

namespace ApicFound

variable {s : Machine} (h : ApicFound s)

include h

theorem word {p : Word} (hp : BesideKernel p) (hp' : ∀ k < 4, BesideKernel (p + BitVec.ofNat 32 k)) :
    s.word p = LittleEndian.word apicFirmware.byte p :=
  LittleEndian.word_congr (h.bytes _ hp) fun k hk => h.bytes _ (hp' k hk)

theorem only {i : Nat} (hi : i < s.rootCount 0x00800000#32) : i = 0 := by
  have := h.count
  omega

theorem tableLength : s.tableLength 0x00801000#32 = 66 := by
  rw [Machine.tableLength, h.word (by decide) (by decide)]
  decide

theorem byteFrom {o : Nat} (ho : o < 66) :
    s.byteFrom 0x00801000#32 o = apicFirmware.byte (0x00801000#32 + BitVec.ofNat 32 o) :=
  h.bytes _ (Or.inr (by rw [BitVec.toNat_add, BitVec.toNat_ofNat, BitVec.toNat_ofNat]; omega))

theorem type_44 : s.byteFrom 0x00801000#32 44 = 1#8 := (h.byteFrom (by decide)).trans (by decide)

theorem type_56 : s.byteFrom 0x00801000#32 56 = 2#8 := (h.byteFrom (by decide)).trans (by decide)

theorem tiled : Tiled (s.byteFrom 0x00801000#32) 66 44 [44, 56] := by
  have h45 : s.byteFrom 0x00801000#32 45 = 12#8 := (h.byteFrom (by decide)).trans (by decide)
  have h57 : s.byteFrom 0x00801000#32 57 = 10#8 := (h.byteFrom (by decide)).trans (by decide)
  refine .cons (by rw [h45]; decide) ?_
  rw [h45]
  refine .cons (o := 56) (by rw [h57]; decide) ?_
  rw [h57]
  exact .nil

theorem stays {x : Word} (hx : 0x801000 ≤ x.toNat ∧ x.toNat < 0x802000) :
    s.Stays alignedImage 0x00800000#32 apicFrames x := by
  refine ⟨KernelImage.apart_of_ge ?_, not_mem_apicFrames ?_, fun _ => ?_⟩
  · rw [frameOf_toNat]
    omega
  · rw [frameOf_toNat]
    omega
  · rw [h.count, BitVec.toNat_sub, BitVec.toNat_ofNat]
    omega

theorem madtLayout : MadtLayout alignedImage s 0x00800000#32 apicFrames 0 [44, 56] := by
  refine ⟨?_, fun m hm hlt => ?_, fun o ho => ?_, ?_, fun o ho htype => ?_, fun o ho htype => ?_⟩
  · rw [h.entry, h.tableLength]
    exact h.tiled
  · rw [h.entry, h.tableLength, BitVec.toNat_ofNat] at hlt
    omega
  · rw [h.entry, h.tableLength] at ho
    rw [h.entry]
    exact h.stays (by rw [BitVec.toNat_add, BitVec.toNat_ofNat, BitVec.toNat_ofNat]; omega)
  · have hlocal : s.localApicAddress 0x00801000#32 = 0xFEE00000#32 := by
      have hmsr : ¬ s.HasMsr := by
        show ¬ s.cpuidEdx &&& 0x20#32 ≠ 0#32
        rw [h.cpuidEdx]
        decide
      rw [Machine.localApicAddress, if_neg hmsr, h.word (by decide) (by decide)]
      decide
    rw [h.entry, hlocal]
    exact ⟨by decide, Or.inl (by decide)⟩
  · obtain rfl : o = 44 := by
      rcases List.mem_cons.mp ho with rfl | ho
      · rfl
      · obtain rfl := List.mem_singleton.mp ho
        rw [h.entry, h.type_56] at htype
        cases htype
    have hioapic : s.ioapicAddress 0x00801000#32 44 = 0xFEC00000#32 := by
      rw [Machine.ioapicAddress, h.word (by decide) (by decide)]
      decide
    rw [h.entry, hioapic, h.tableLength]
    exact ⟨by decide, by decide, Or.inr (by decide)⟩
  · obtain rfl : o = 56 := by
      rcases List.mem_cons.mp ho with rfl | ho
      · rw [h.entry, h.type_44] at htype
        cases htype
      · exact List.mem_singleton.mp ho
    rw [h.entry, h.tableLength]

theorem layout : Layout alignedImage s 0x00800000#32 apicFrames := by
  refine ⟨⟨h.rootTable, fun i hi => ?_⟩, ?_, not_mem_apicFrames (by decide), ?_, fun i hi k hk => ?_,
    fun _ i hi => ?_⟩
  · rw [h.only hi, h.entry]
    decide
  · rintro f (rfl | rfl)
    · exact KernelImage.apart_of_ge (by decide)
    · exact KernelImage.apart_of_ge (by decide)
  · rw [h.rsdp, BitVec.add_sub_cancel]
    exact ⟨KernelImage.apart_of_outside (Or.inl (by decide)), not_mem_apicFrames (by decide),
      fun _ => by rw [h.count]; decide⟩
  · rw [h.only hi, h.entry]
    exact h.stays (by rw [BitVec.toNat_add, BitVec.toNat_ofNat, BitVec.toNat_ofNat]; omega)
  · rw [h.only hi.1]
    exact ⟨_, h.madtLayout⟩

theorem overrideListed : s.OverrideListed 0x00800000#32 := by
  intro _ i hi offsets hoffsets _
  rw [h.only hi.1, h.entry, h.tableLength] at hoffsets
  obtain rfl := hoffsets.unique h.tiled
  rw [h.only hi.1, h.entry]
  exact ⟨56, by decide, h.type_56⟩

theorem ebdaWord : s.ebdaWord = 0#16 := by
  rw [Machine.ebdaWord, h.word (by decide) (by decide)]
  decide

theorem isRsdp : IsRsdp s.byte (scanned s.ebdaWord 0) := by
  rw [h.ebdaWord, show scanned 0#16 0 = 0#32 by decide]
  refine (isRsdp_congr fun k hk => h.bytes _ (Or.inl ?_)).mpr
    ⟨apicFirmware.signature, apicFirmware.checksum⟩
  rw [BitVec.zero_add, BitVec.toNat_ofNat]
  omega

end ApicFound

end PekOS
