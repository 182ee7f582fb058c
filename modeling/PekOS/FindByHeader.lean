import PekOS.Signatures
import PekOS.MappedTables

/-! `find_by_header` in what `init_rsdt` leaves. -/

namespace PekOS

open OpTree FirstFit

/-- The entries the lookups count in a root table of this length. -/
def entryCount (length : Word) : Nat := ((length - 36#32) / 4#32).toNat

namespace Machine

variable {s t : Machine} {head : List Byte} {length r : Word}

/-- The `i`-th pointer of the RSDT, as `find_by_header` takes it. -/
def Listed (s : Machine) (i : Nat) (v : Word) : Prop := s.ReadsWord (slot s.globals.rsdt i) v

theorem run_tableEntry_iff {rsdt : Word} {i : Nat} {r : Option Word} :
    s.run (tableEntry rsdt head i) = .ok (r, t) ↔ t = s ∧ ∃ v, s.ReadsWord (slot rsdt i) v ∧
      (r = some v ∧ s.Agrees v head 0 4 ∨ r = none ∧ s.Diverges v head 0 4) := by
  rw [tableEntry, slot_eq, run, Prog.run_bind_ok_iff]
  constructor
  · rintro ⟨v, u, hload, hr⟩
    obtain ⟨rfl, hv⟩ := run_load_iff.mp hload
    obtain ⟨ht, hc⟩ := (memcmp_compares u v head 0 4).run_iff.mp hr
    exact ⟨ht, v, hv, hc⟩
  · rintro ⟨ht, v, hv, hc⟩
    exact ⟨v, s, run_load_iff.mpr ⟨rfl, hv⟩, (memcmp_compares s v head 0 4).run_iff.mpr ⟨ht, hc⟩⟩

theorem run_pointedEntry_iff (hnul : ∀ k < 4, head.getD k 0#8 ≠ 0#8) {rsdt : Word} {i : Nat}
    {r : Option Word} :
    s.run (pointedEntry rsdt head i) = .ok (r, t) ↔ t = s ∧ ∃ v,
      (∃ p, s.ReadsWord (slot rsdt 0) p ∧ s.ReadsWord (p + 4#32 * BitVec.ofNat 32 i) v) ∧
        (r = some v ∧ s.Agrees v head 0 4 ∨ r = none ∧ s.Diverges v head 0 4) := by
  have hcompares (v : Word) : s.Compares v head 0 4 (strncmp (bytesAt v) (literal head) 0 4) :=
    strncmp_compares s v hnul
  have hslot : rsdt + 36#32 = slot rsdt 0 := rfl
  rw [pointedEntry, hslot, run, Prog.run_bind_ok_iff]
  constructor
  · rintro ⟨p, u, hload, hr⟩
    obtain ⟨rfl, hp⟩ := run_load_iff.mp hload
    obtain ⟨v, u', hload', hr'⟩ := Prog.of_run_bind Machine.exec hr
    obtain ⟨rfl, hv⟩ := run_load_iff.mp hload'
    obtain ⟨ht, hc⟩ := (hcompares v).run_iff.mp hr'
    exact ⟨ht, v, ⟨p, hp, hv⟩, hc⟩
  · rintro ⟨ht, v, ⟨p, hp, hv⟩, hc⟩
    refine ⟨p, s, run_load_iff.mpr ⟨rfl, hp⟩, ?_⟩
    rw [Prog.run_bind_ok Machine.exec (run_load_iff.mpr ⟨rfl, hv⟩)]
    exact (hcompares v).run_iff.mpr ⟨ht, hc⟩

theorem run_findByHeader_iff (hversion : s.globals.acpiVersion = false)
    (hlength : s.ReadsWord (s.globals.rsdt + 4#32) length) :
    s.run (findByHeader head) = .ok (r, t) ↔
      t = s.withGlobals { s.globals with entries := (length - 36#32) / 4#32 } ∧
        s.LeadsTo head s.Listed (entryCount length) r := by
  have hload : Prog.run Machine.exec (Code.load (s.globals.rsdt + 4#32)) s = .ok (length, s) :=
    run_load_iff.mpr ⟨rfl, hlength⟩
  rw [findByHeader, run, Prog.run_bind_ok _ (Machine.run_flag _), hversion, if_neg Bool.false_ne_true,
    Prog.run_bind_ok _ (Machine.run_get _), Prog.run_bind_ok _ hload,
    Prog.run_bind_ok _ (Machine.run_modify _)]
  exact run_lookup_iff (s := s.withGlobals { s.globals with entries := (length - 36#32) / 4#32 })
    fun i r t => run_tableEntry_iff

theorem run_findByHeader_acpi2 (head : List Byte) (hversion : s.globals.acpiVersion = true) :
    s.run (findByHeader head) = .ok (0#32, s) := by
  rw [findByHeader, run, Prog.run_bind_ok _ (Machine.run_flag _), hversion]
  rfl

/-- `init_apic` returns early in ACPI 2.0 mode. -/
theorem run_initApic_acpi2 (image : KernelImage) (fuel : Nat) (hversion : s.globals.acpiVersion = true) :
    ∃ msr, s.run (initApic image fuel) =
      .ok ((), s.withGlobals { s.globals with msrAvailable := msr, madt := 0#32 }) := by
  have hcpu : s.run cpuHasMsr = .ok (decide (s.cpuidEdx &&& 0x20#32 ≠ 0#32), s) := rfl
  refine ⟨decide (s.cpuidEdx &&& 0x20#32 ≠ 0#32), ?_⟩
  have hfind := run_findByHeader_acpi2 (s := s.withGlobals { s.globals with
    msrAvailable := decide (s.cpuidEdx &&& 0x20#32 ≠ 0#32) }) [0x41#8, 0x50#8, 0x49#8, 0x43#8] hversion
  have hstart : s.run (startLocalApic image) = .ok (false, _) :=
    (Prog.run_bind_ok _ hcpu).trans ((Prog.run_bind_ok _ (run_modify _)).trans
      ((Prog.run_bind_ok _ hfind).trans ((Prog.run_bind_ok _ (run_modify _)).trans rfl)))
  exact (Prog.run_bind_ok _ hstart).trans rfl

def HasSignature (s : Machine) (p : Word) (head : List Byte) : Prop :=
  ∀ k < 4, s.byte (p + BitVec.ofNat 32 k) = head.getD k 0#8

end Machine

/-- `r` is the first of `n` tables with a property, and `NULL` if none has it. -/
def FirstOf (n : Nat) (has : Nat → Prop) (table : Nat → Word) (r : Word) : Prop :=
  (r = 0#32 ↔ ∀ i < n, ¬ has i) ∧ ∀ i < n, has i → (∀ j < i, ¬ has j) → r = table i

theorem exists_firstOf {s : Machine} (head : List Byte) {pointer : Nat → Word → Prop} {n : Nat}
    (has : Nat → Prop) {table : Nat → Word} (hpointer : ∀ i < n, pointer i (table i))
    (hne : ∀ i < n, table i ≠ 0#32) (hagrees : ∀ i < n, has i → s.Agrees (table i) head 0 4)
    (hdiverges : ∀ i < n, ¬ has i → s.Diverges (table i) head 0 4) :
    ∃ r, s.LeadsTo head pointer n r ∧ FirstOf n has table r := by
  classical
  by_cases hsome : ∃ i, i < n ∧ has i
  · obtain ⟨hlt, hhas⟩ := Nat.find_spec hsome
    have hbefore {j : Nat} (hj : j < Nat.find hsome) : ¬ has j :=
      fun h => Nat.find_min hsome hj ⟨by omega, h⟩
    refine ⟨table (Nat.find hsome), Or.inr ⟨_, hlt, hpointer _ hlt, hagrees _ hlt hhas, fun j hj =>
      ⟨table j, hpointer j (by omega), hdiverges j (by omega) (hbefore hj)⟩⟩, ?_,
        fun i hi hi' hfirst => ?_⟩
    · exact ⟨fun h => absurd h (hne _ hlt), fun h => absurd hhas (h _ hlt)⟩
    · have heq : Nat.find hsome = i := by
        rcases Nat.lt_trichotomy (Nat.find hsome) i with h | h | h
        · exact absurd hhas (hfirst _ h)
        · exact h
        · exact absurd hi' (hbefore h)
      rw [heq]
  · have hnone (i : Nat) (hi : i < n) : ¬ has i := fun h => hsome ⟨i, hi, h⟩
    exact ⟨0#32, Or.inl ⟨rfl, fun i hi => ⟨table i, hpointer i hi, hdiverges i hi (hnone i hi)⟩⟩,
      ⟨fun _ => hnone, fun _ => rfl⟩, fun i hi hi' => absurd hi' (hnone i hi)⟩

section Image

variable {image : KernelImage} {n : Nat} {s₀ s t : Machine} {root : Word} {head : List Byte}

/-- `find_by_header` returns the first listed table with the signature,
and `NULL` if there is none. -/
def FindsFirst (image : KernelImage) (n : Nat) (s t : Machine) (root : Word) (head : List Byte) : Prop :=
  ∃ r u, Ran image n (findByHeader head) t r u ∧
    FirstOf (s.rootCount root) (fun i => t.HasSignature (s.rootEntry root i) head) (s.entryTable root) r

theorem Booted.entryTable_ne_zero (hb : Booted image s₀) (ha : s₀.Alike s)
    (ht : RootTable image s root) {i : Nat} (hi : i < s.rootCount root) : s.entryTable root i ≠ 0#32 := by
  obtain ⟨m, hl, hbooted⟩ := hb.initialised
  obtain ⟨hlen, hlt⟩ := hb.enough ha ht (i + 1) (by omega)
  have hmem : s.servedPage (i + 1) ∈ s.globals.freePages := by
    rw [Machine.servedPage_eq hlen]
    exact List.getElem_mem hlen
  obtain ⟨hge, hlt', -⟩ := mem_free.mp hmem
  rw [ha.globals.curVirtaddrIdx, hbooted.curVirtaddrIdx] at hge
  intro hzero
  have hframe := congrArg BitVec.toNat (pageAddr_add_low hlt' (s.rootEntry root i)).1
  rw [← Machine.entryTable, hzero, frameOf_toNat, frameOf_toNat, pageAddr_toNat hlt',
    BitVec.toNat_ofNat] at hframe
  omega

theorem Rewritten.rsdt_eq {n : Nat} (h : Rewritten image s root n t)
    (hversion : s.globals.acpiVersion = false) : t.globals.rsdt = s.rootTable root := by
  rw [← h.rootTable, Globals.rootTable, h.version, hversion]
  rfl

theorem Rewritten.readsLength {n : Nat} (h : Rewritten image s root n t) (ht : RootTable image s root) :
    t.ReadsWord (s.rootTable root + 4#32) (s.word (root + 4#32)) := by
  have hlen := ht.length
  have hin := ht.inPage
  have hload := Machine.run_load_word (h.table.reads (k := 4) (by omega))
  rw [h.word_eq ht (by omega) (Or.inl (by decide))] at hload
  exact (Machine.run_load_iff.mp hload).2

/-- In `t` the RSDT can be read, each of its pointers being the address a listed table has got. -/
structure Lists (s : Machine) (root : Word) (t : Machine) : Prop where
  version : t.globals.acpiVersion = false
  rsdt : t.globals.rsdt = s.rootTable root
  header : t.Reads (s.rootTable root + 4#32) (root + 4#32)
  length : t.word (root + 4#32) = s.word (root + 4#32)
  pointers : ∀ i < s.rootCount root, t.Reads (slot (s.rootTable root) i) (slot root i)
  slots : ∀ i < s.rootCount root, t.word (slot root i) = s.entryTable root i
  tables : ∀ i < s.rootCount root, ∀ k < 4,
    t.translate (s.entryTable root i + BitVec.ofNat 32 k) = some (s.rootEntry root i + BitVec.ofNat 32 k)

theorem Machine.readsWord {a p : Word} (h : t.Reads a p) : t.ReadsWord a (t.word p) :=
  (Machine.run_load_iff.mp (Machine.run_load_word h)).2

/-- In ACPI 1.0 mode `find_by_header` finds what is listed. -/
theorem Lists.run_findByHeader (h : Lists s root t) (hversion : s.globals.acpiVersion = false)
    (hne : ∀ i < s.rootCount root, s.entryTable root i ≠ 0#32) (head : List Byte) :
    ∃ r w, t.run (findByHeader head) = .ok (r, t.withGlobals { t.globals with entries := w }) ∧
      FirstOf (s.rootCount root) (fun i => t.HasSignature (s.rootEntry root i) head)
      (s.entryTable root) r := by
  have hcount : s.rootCount root = entryCount (s.word (root + 4#32)) := by
    rw [Machine.rootCount, entryCount, Globals.stride, hversion]
    rfl
  have hlisted (i : Nat) (hi : i < s.rootCount root) : t.Listed i (s.entryTable root i) := by
    have hread := Machine.readsWord (h.pointers i hi)
    rw [h.slots i hi] at hread
    rwa [Machine.Listed, h.rsdt]
  obtain ⟨r, hleads, hfirst⟩ := exists_firstOf (s := t) head
    (fun i => t.HasSignature (s.rootEntry root i) head) hlisted hne
    (fun i hi => (Machine.agrees_iff (h.tables i hi)).mpr) fun i hi =>
    (Machine.diverges_iff (h.tables i hi)).mpr
  have hlength := Machine.readsWord h.header
  rw [h.length, ← h.rsdt] at hlength
  exact ⟨r, _, (Machine.run_findByHeader_iff h.version hlength).mpr ⟨rfl, hcount ▸ hleads⟩, hfirst⟩

theorem Rewritten.lists (h : Rewritten image s root (s.rootCount root) t) (hp : Placed image s root)
    (hversion : s.globals.acpiVersion = false) : Lists s root t := by
  have hlen := hp.length
  have hin := hp.inPage
  refine ⟨h.version.trans hversion, h.rsdt_eq hversion, h.table.reads (k := 4) (by omega),
    h.word_eq hp.toRootTable (by omega) (Or.inl (by decide)), fun i hi => ?_, fun i hi =>
    h.slots i hi, fun i hi k hk => ?_⟩
  · have hentry := hp.entry_le hi
    have hle := RootTable.le_stride s.globals i
    exact h.table.reads (by omega)
  · have hi' := hp.signatures i hi
    exact ((h.tables i hi).add (k := k) (by omega)).translate

theorem Rewritten.findsFirst (h : Rewritten image s root (s.rootCount root) t)
    (hb : Booted image s₀) (ha : s₀.Alike s) (hp : Placed image s root)
    (hversion : s.globals.acpiVersion = false) : FindsFirst image n s t root head := by
  obtain ⟨r, w, hr, hfirst⟩ := (h.lists hp hversion).run_findByHeader hversion
    (fun i hi => hb.entryTable_ne_zero ha hp.toRootTable hi) head
  exact ⟨r, _, ran_of_run hr, hfirst⟩

/-- In ACPI 2.0 mode, where the table is not searched,
only the absence of a signature is told rightly. -/
theorem findByHeader_finds_iff (hb : Booted image s₀) (hfind : s₀.run findRoot = .ok (root, s))
    (hplaced : s.globals.acpiVersion = false → Placed image s root)
    (hr : Ran image n (initRsdt image) s₀ () t) :
    FindsFirst image n s t root head ↔ s.globals.acpiVersion = false ∧ Placed image s root ∨
      s.globals.acpiVersion = true ∧
      ∀ i < s.rootCount root, ¬ t.HasSignature (s.rootEntry root i) head := by
  have hversion := acpiVersion_of_initRsdt hfind hr
  cases hv : s.globals.acpiVersion with
  | false =>
    have hp := hplaced hv
    obtain ⟨u, hu, h⟩ := run_initRsdt hb hfind hp
    obtain ⟨-, rfl⟩ := (ran_of_run hu).unique hr
    exact ⟨fun _ => Or.inl ⟨rfl, hp⟩, fun _ => h.findsFirst hb (alike_of_findRoot hfind) hp hv⟩
  | true =>
    have hrun : Ran image n (findByHeader head) t 0#32 t :=
      ran_of_run (Machine.run_findByHeader_acpi2 head (hversion.trans hv))
    constructor
    · rintro ⟨r, u, hr', hnull, -⟩
      exact Or.inr ⟨rfl, hnull.mp (hrun.unique hr').1.symm⟩
    · rintro (⟨h, -⟩ | ⟨-, h⟩)
      · exact Bool.noConfusion h
      · exact ⟨0#32, t, hrun, ⟨fun _ => h, fun _ => rfl⟩, fun i hi hi' => absurd hi' (h i hi)⟩

end Image

/-- An RSDP of revision 0 and an RSDT with one entry, a FADT. -/
def rsdtFirmware : RootFirmware where
  words := [(0x0#32, 0x20445352#32), (0x4#32, 0x20525450#32), (0x8#32, 0x61#32), (0x10#32, 0x00800000#32),
    (0x800000#32, 0x54445352#32), (0x800004#32, 40#32), (0x800024#32, 0x00801000#32),
    (0x801000#32, 0x50434146#32), (0x801004#32, 116#32)]
  beside := rfl
  segment := 0#16
  segment_lt := Firmware.zeroSegment_lt
  segment_eq := by decide
  signature := by decide
  checksum := by decide
  outside := by decide
  length := by decide
  inPage := by decide

theorem findByHeader_finds_rsdt : ∃ s₀ s t : Machine, s₀.run findRoot = .ok (0x00800000#32, s) ∧
    Ran alignedImage 2 (initRsdt alignedImage) s₀ () t ∧
    FindsFirst alignedImage 2 s t 0x00800000#32 facp := by
  obtain ⟨s₀, s, t, hb, hfind, ⟨hversion, -⟩, -, ht, hcount, hentries, hr, -⟩ :=
    rsdtFirmware.exists_initRsdt alignedImage (by decide)
  have hp : Placed alignedImage s rsdtFirmware.root := by
    refine ⟨ht, fun i hi => ?_⟩
    rw [hcount] at hi
    rw [hentries i hi]
    exact (by decide : ∀ i < rsdtFirmware.count, (rsdtFirmware.entry i).toNat % 4096 + 4 ≤ 4096) i hi
  have hv : s.globals.acpiVersion = false := hversion.trans (by decide)
  have hfinds : FindsFirst alignedImage 2 s t rsdtFirmware.root facp :=
    (findByHeader_finds_iff hb hfind (fun _ => hp) (ran_of_run hr)).mpr (Or.inl ⟨hv, hp⟩)
  rw [show rsdtFirmware.root = 0x00800000#32 by decide] at hfind hfinds
  exact ⟨s₀, s, t, hfind, ran_of_run hr, hfinds⟩

/-- With an XSDT the FADT is listed, and not found. -/
theorem fadt_not_found :
    ∃ s₀ s t : Machine, Booted alignedImage s₀ ∧ s₀.run findRoot = .ok (0x00800000#32, s) ∧
    (∀ n, Ran alignedImage n (initRsdt alignedImage) s₀ () t) ∧ RootTable alignedImage s 0x00800000#32 ∧
      ∀ n, ¬ FindsFirst alignedImage n s t 0x00800000#32 facp := by
  obtain ⟨s₀, s, t, hb, hfind, ⟨hversion, -⟩, -, ht, hcount, hentries, hr, h, hbyte⟩ :=
    xsdtFirmware.exists_initRsdt alignedImage (by decide)
  have hroot : xsdtFirmware.root = 0x00800000#32 := by decide
  have hsignature : t.HasSignature (s.rootEntry xsdtFirmware.root 0) facp := by
    rw [hentries 0 (by decide), show xsdtFirmware.entry 0 = 0x00801000#32 by decide]
    intro k hk
    have hfar : 0x400000 ≤ (0x00801000#32 + BitVec.ofNat 32 k).toNat ∧
        36 + 4 * xsdtFirmware.count ≤ (0x00801000#32 + BitVec.ofNat 32 k - xsdtFirmware.root).toNat := by
      revert k
      decide
    rw [hbyte _ hfar.1 fun _ => hfar.2]
    exact (by decide : ∀ k < 4, xsdtFirmware.byte (0x00801000#32 + BitVec.ofNat 32 k) =
      facp.getD k 0#8) k hk
  have hcount' : 0 < s.rootCount xsdtFirmware.root := by
    rw [hcount]
    decide
  have hv : t.globals.acpiVersion = true := h.version.trans (hversion.trans (by decide))
  rw [hroot] at hfind hsignature hcount' ht
  refine ⟨s₀, s, t, hb, hfind, fun n => ran_of_run hr, ht, fun n => ?_⟩
  rintro ⟨r, u, hrun, hnull, -⟩
  have hnone : Ran alignedImage n (findByHeader facp) t 0#32 t :=
    ran_of_run (Machine.run_findByHeader_acpi2 facp hv)
  exact hnull.mp (hnone.unique hrun).1.symm 0 hcount' hsignature

end PekOS
