import PekOS.InitRsdt
import PekOS.Signatures

/-! `find_RSDP` on low memory of any content. -/

namespace PekOS

open OpTree

variable {image : KernelImage} {s : Machine} {p : Word}

/-- The sum of the bytes a checksum is taken over. -/
def byteSum (m : Word → Byte) (p : Word) : Nat → Byte
  | 0 => 0#8
  | n + 1 => byteSum m p n + m (p + BitVec.ofNat 32 n)

theorem byteSum_congr {m m' : Word → Byte} {n : Nat}
    (h : ∀ k < n, m' (p + BitVec.ofNat 32 k) = m (p + BitVec.ofNat 32 k)) :
    byteSum m' p n = byteSum m p n := by
  induction n with
  | zero => rfl
  | succ n ih => rw [byteSum, byteSum, ih fun k hk => h k (by omega), h n (by omega)]

/-- The bytes of an RSDP its checksum covers. -/
def rsdpLength (m : Word → Byte) (p : Word) : Nat := if m (p + 15#32) ≠ 0#8 then 36 else 20

theorem run_doChecksumRSDP {a : Word}
    (h : ∀ k < 36, s.translate (a + BitVec.ofNat 32 k) = some (p + BitVec.ofNat 32 k)) :
    s.run (doChecksumRSDP a) = .ok (decide (byteSum s.byte p (rsdpLength s.byte p) = 0#8),
      { s with globals := { s.globals with acpiVersion := decide (s.byte (p + 15#32) ≠ 0#8) } }) := by
  let t : Machine :=
    { s with globals := { s.globals with acpiVersion := decide (s.byte (p + 15#32) ≠ 0#8) } }
  have hrev := Machine.run_loadByte (h 15 (by decide))
  have hn : rsdpLength s.byte p ≤ 36 := by
    rw [rsdpLength]
    split <;> decide
  obtain ⟨b, u, hr, rfl, rfl⟩ := Prog.run_forUp Machine.exec (fun i sum => do
      let b ← Code.loadByte (a + BitVec.ofNat 32 i)
      return sum + b) (fun i b u => b = byteSum s.byte p i ∧ t = u) (n := rsdpLength s.byte p)
    (b := 0#8) (s := t) ⟨rfl, rfl⟩ fun j b u hj hu => by
      obtain ⟨rfl, rfl⟩ := hu
      have htr : t.translate (a + BitVec.ofNat 32 j) = some (p + BitVec.ofNat 32 j) := h j (by omega)
      exact ⟨_, t, by rw [Prog.run_bind_ok _ (Machine.run_loadByte htr)]; rfl, rfl, rfl⟩
  rw [doChecksumRSDP, Machine.run, Prog.run_bind_ok _ hrev, Prog.run_bind_ok _ (Machine.run_modify _)]
  exact Prog.run_bind_ok _ hr

/-- The 36 bytes an RSDP may have, from the physical address `p` on, are accessible from `a` on. -/
def Machine.MapsRsdp (s : Machine) (a p : Word) : Prop :=
  ∀ k < 36, s.translate (a + BitVec.ofNat 32 k) = some (p + BitVec.ofNat 32 k)

theorem Machine.MapsRsdp.reads {a : Word} (h : s.MapsRsdp a p) {i : Nat} (hi : i ≤ 32) :
    s.Reads (a + BitVec.ofNat 32 i) (p + BitVec.ofNat 32 i) := by
  refine ⟨h i (by omega), fun k hk => ?_⟩
  rw [BitVec.add_assoc, BitVec.add_assoc, ← BitVec.ofNat_add]
  exact h (i + k) (by omega)

structure IsRsdp (m : Word → Byte) (p : Word) : Prop where
  signature : ∀ k < 8, m (p + BitVec.ofNat 32 k) = rsdPtr.getD k 0#8
  checksum : byteSum m p (rsdpLength m p) = 0#8

theorem isRsdp_congr {m m' : Word → Byte}
    (h : ∀ k < 36, m' (p + BitVec.ofNat 32 k) = m (p + BitVec.ofNat 32 k)) :
    IsRsdp m' p ↔ IsRsdp m p := by
  have hlength : rsdpLength m' p = rsdpLength m p := by
    have hrev : m' (p + 15#32) = m (p + 15#32) := h 15 (by decide)
    rw [rsdpLength, rsdpLength, hrev]
  have hle : rsdpLength m p ≤ 36 := by
    rw [rsdpLength]
    split <;> decide
  have hsum : byteSum m' p (rsdpLength m' p) = byteSum m p (rsdpLength m p) := by
    rw [hlength]
    exact byteSum_congr fun k hk => h k (by omega)
  constructor
  · intro hr
    exact ⟨fun k hk => (h k (by omega)).symm.trans (hr.signature k hk), hsum.symm.trans hr.checksum⟩
  · intro hr
    exact ⟨fun k hk => (h k (by omega)).trans (hr.signature k hk), hsum.trans hr.checksum⟩

def Machine.withVersion (s : Machine) (v : Bool) : Machine :=
  s.withGlobals { s.globals with acpiVersion := v }

/-- A location is returned if and only if there is an RSDP, whose revision is then `ACPI_version`.
-/
theorem run_candidate {a : Word} (h : s.MapsRsdp a p) :
    (IsRsdp s.byte p ∧
      s.run (candidate a) = .ok (some a, s.withVersion (decide (s.byte (p + 15#32) ≠ 0#8)))) ∨
      (¬ IsRsdp s.byte p ∧ ∃ v, s.run (candidate a) = .ok (none, s.withVersion v)) := by
  have hnul : ∀ k < 0 + 8, rsdPtr.getD k 0#8 ≠ 0#8 := by decide
  have hcompares := Machine.strncmp_compares s a hnul
  have hsum : s.run (doChecksumRSDP a) = .ok (decide (byteSum s.byte p (rsdpLength s.byte p) = 0#8),
      s.withVersion (decide (s.byte (p + 15#32) ≠ 0#8))) := run_doChecksumRSDP h
  have htranslate : ∀ k < 8, s.translate (a + BitVec.ofNat 32 k) = some (p + BitVec.ofNat 32 k) :=
    fun k hk => h k (by omega)
  by_cases hsignature : ∀ k < 8, s.byte (p + BitVec.ofNat 32 k) = rsdPtr.getD k 0#8
  · have hrun : s.run (candidate a) =
        .ok (if decide (byteSum s.byte p (rsdpLength s.byte p) = 0#8) then some a else none,
        s.withVersion (decide (s.byte (p + 15#32) ≠ 0#8))) := by
      rw [candidate, Machine.run,
        Prog.run_bind_ok _ (hcompares.agrees ((Machine.agrees_iff htranslate).mpr hsignature)),
        if_pos rfl]
      exact Prog.run_bind_ok _ hsum
    by_cases hzero : byteSum s.byte p (rsdpLength s.byte p) = 0#8
    · rw [decide_eq_true hzero] at hrun
      exact Or.inl ⟨⟨hsignature, hzero⟩, hrun⟩
    · rw [decide_eq_false hzero] at hrun
      exact Or.inr ⟨fun h => hzero h.checksum, _, hrun⟩
  · obtain ⟨c, hne, hc⟩ := hcompares.diverges ((Machine.diverges_iff htranslate).mpr hsignature)
    refine Or.inr ⟨fun h => hsignature h.signature, s.globals.acpiVersion, ?_⟩
    rw [candidate, Machine.run, Prog.run_bind_ok _ hc, if_neg hne]
    rfl

/-- The physical address of the root table, by the RSDP at `p`. -/
def rootOf (m : Word → Byte) (p : Word) : Word :=
  if m (p + 15#32) = 0#8 then LittleEndian.word m (p + 16#32) else LittleEndian.word m (p + 24#32)

theorem rootOf_congr {m m' : Word → Byte}
    (h : ∀ k < 36, m' (p + BitVec.ofNat 32 k) = m (p + BitVec.ofNat 32 k)) :
    rootOf m' p = rootOf m p := by
  have hword {i : Nat} (hi : i ≤ 32) : LittleEndian.word m' (p + BitVec.ofNat 32 i) =
      LittleEndian.word m (p + BitVec.ofNat 32 i) := by
    refine LittleEndian.word_congr (h i (by omega)) fun k hk => ?_
    rw [BitVec.add_assoc, ← BitVec.ofNat_add]
    exact h _ (by omega)
  rw [rootOf, rootOf, h 15 (by decide), hword (i := 16) (by decide), hword (i := 24) (by decide)]

theorem run_findRSDT {a : Word} (h : s.MapsRsdp a p) (hrsdp : s.globals.rsdp = a) :
    s.run findRSDT = .ok (rootOf s.byte p, s) := by
  have hbyte := Machine.run_loadByte (h 15 (by decide))
  have hderef (l : Lookup) (q : Word) : s.run (Code.deref l q) = .ok ((), s) := rfl
  rw [findRSDT, Machine.run, Prog.run_bind_ok _ (Machine.run_get _), hrsdp,
    Prog.run_bind_ok _ (hderef _ _), Prog.run_bind_ok _ hbyte, rootOf]
  split
  · exact (Prog.run_bind_ok _ (hderef _ _)).trans (Machine.run_load_word (h.reads (i := 16) (by decide)))
  · exact (Prog.run_bind_ok _ (hderef _ _)).trans (Machine.run_load_word (h.reads (i := 24) (by decide)))

/-- The physical address of the extended BIOS data area. -/
def ebda (w : BitVec 16) : Word := w.setWidth 32 <<< 10

/-- The physical address of the `i`-th location the search comes to. -/
def scanned (w : BitVec 16) (i : Nat) : Word :=
  if i < 0x100 then ebda w + BitVec.ofNat 32 (0x10 * i)
    else BitVec.ofNat 32 (0x000E0000 + 0x10 * (i - 0x100))

namespace Machine

/-- What the BIOS says about where the EBDA is. -/
def ebdaWord (s : Machine) : BitVec 16 := (s.word 0x413#32).setWidth 16

/-- What `find_RSDP` looks at is mapped from 0xC0000000 on: the BIOS data area,
the EBDA and the locations up to 0xFFFF0. -/
def MapsLow (s : Machine) : Prop :=
  ∀ p : Word, p.toNat < 0x100014 ∨ (p - ebda s.ebdaWord).toNat < 0x1014 →
  s.translate (p + kernelMapStart) = some p

theorem MapsLow.scanned (h : s.MapsLow) {i : Nat} (hi : i < 0x2100) :
    s.MapsRsdp (PekOS.scanned s.ebdaWord i + kernelMapStart) (PekOS.scanned s.ebdaWord i) := by
  intro k hk
  rw [BitVec.add_assoc, BitVec.add_comm kernelMapStart, ← BitVec.add_assoc]
  refine h _ ?_
  rw [PekOS.scanned]
  split
  · refine Or.inr ?_
    rw [BitVec.add_assoc, ← BitVec.ofNat_add, LittleEndian.add_sub_toNat _ (by omega)]
    omega
  · refine Or.inl ?_
    rw [← BitVec.ofNat_add, BitVec.toNat_ofNat]
    omega

/-- Only `ACPI_version` has changed. -/
def SameButVersion (s t : Machine) : Prop := ∃ v, t = s.withVersion v

theorem SameButVersion.refl (s : Machine) : s.SameButVersion s := ⟨s.globals.acpiVersion, rfl⟩

theorem SameButVersion.mapsRsdp {t : Machine} (h : s.SameButVersion t) {a : Word}
    (hmaps : s.MapsRsdp a p) : t.MapsRsdp a p := by
  obtain ⟨v, rfl⟩ := h
  exact hmaps

theorem passed_of_not_rsdp {f f' : Nat → Word} {n : Nat} {t : Machine}
    (hmaps : ∀ i < n, s.MapsRsdp (f' i) (f i)) (hnone : ∀ i < n, ¬ IsRsdp s.byte (f i))
    (ht : s.SameButVersion t) :
    ∃ u, Prog.Passed exec (fun i => candidate (f' i)) 0 n t u ∧ s.SameButVersion u := by
  refine Prog.exists_passed exec s.SameButVersion ht fun j u _ hj hu => ?_
  rw [Nat.zero_add] at hj
  rcases run_candidate (hu.mapsRsdp (hmaps j hj)) with ⟨hrsdp, -⟩ | ⟨-, v, hr⟩
  · obtain ⟨v, rfl⟩ := hu
    exact absurd hrsdp (hnone j hj)
  · obtain ⟨v', rfl⟩ := hu
    exact ⟨_, hr, v, rfl⟩

theorem run_search_candidate {f f' : Nat → Word} {n i : Nat} {t : Machine} (hi : i < n)
    (hmaps : ∀ i < n, s.MapsRsdp (f' i) (f i)) (hrsdp : IsRsdp s.byte (f i))
    (hnone : ∀ j < i, ¬ IsRsdp s.byte (f j)) (ht : s.SameButVersion t) :
    t.run (Prog.search (fun i => candidate (f' i)) 0 n) =
      .ok (some (f' i), s.withVersion (decide (s.byte (f i + 15#32) ≠ 0#8))) := by
  obtain ⟨u, hpassed, hu⟩ := passed_of_not_rsdp (fun j hj => hmaps j (by omega)) hnone ht
  refine (Prog.run_search_some exec).mpr ⟨i, hi, u, hpassed, ?_⟩
  rw [Nat.zero_add]
  rcases run_candidate (hu.mapsRsdp (hmaps i hi)) with ⟨-, hr⟩ | ⟨hnot, -⟩
  · obtain ⟨v, rfl⟩ := hu
    exact hr
  · obtain ⟨v, rfl⟩ := hu
    exact absurd hrsdp hnot

/-- The first of the locations with an RSDP. -/
def FirstRsdp (s : Machine) (i : Nat) : Prop :=
  i < 0x2100 ∧ IsRsdp s.byte (PekOS.scanned s.ebdaWord i) ∧
    ∀ j < i, ¬ IsRsdp s.byte (PekOS.scanned s.ebdaWord j)

theorem exists_firstRsdp {i : Nat} (hi : i < 0x2100) (h : IsRsdp s.byte (PekOS.scanned s.ebdaWord i)) :
    ∃ i, s.FirstRsdp i := by
  classical
  have hsome : ∃ i, i < 0x2100 ∧ IsRsdp s.byte (PekOS.scanned s.ebdaWord i) := ⟨i, hi, h⟩
  obtain ⟨hlt, hrsdp⟩ := Nat.find_spec hsome
  exact ⟨Nat.find hsome, hlt, hrsdp, fun j hj hj' => Nat.find_min hsome hj ⟨by omega, hj'⟩⟩

theorem MapsLow.run_ebdaWord (h : s.MapsLow) :
    s.run (readWordAtAddress (kernelMapStart + 0x413#32)) = .ok (s.ebdaWord, s) := by
  have hreads : s.Reads (kernelMapStart + 0x413#32) 0x413#32 := by
    rw [BitVec.add_comm]
    refine ⟨h _ (Or.inl (by decide)), fun k hk => ?_⟩
    rw [BitVec.add_assoc, BitVec.add_comm kernelMapStart, ← BitVec.add_assoc]
    refine h _ (Or.inl ?_)
    rw [BitVec.toNat_add, BitVec.toNat_ofNat, BitVec.toNat_ofNat]
    omega
  rw [readWordAtAddress, run, Prog.run_bind_ok _ (run_load_word hreads)]
  rfl

theorem ebdaLocation_eq (w : BitVec 16) {i : Nat} (hi : i < 0x100) :
    ebdaLocation w i = PekOS.scanned w i + kernelMapStart := by
  rw [PekOS.scanned, if_pos hi, ebdaLocation, ebda, BitVec.add_assoc,
    BitVec.add_comm kernelMapStart, BitVec.add_assoc]

theorem biosLocation_eq (w : BitVec 16) (i : Nat) :
    biosLocation i = PekOS.scanned w (0x100 + i) + kernelMapStart := by
  rw [PekOS.scanned, if_neg (by omega), Nat.add_sub_cancel_left, biosLocation, BitVec.add_comm]

theorem MapsLow.ebda (h : s.MapsLow) (i : Nat) (hi : i < 0x100) :
    s.MapsRsdp (ebdaLocation s.ebdaWord i) (PekOS.scanned s.ebdaWord i) :=
  ebdaLocation_eq s.ebdaWord hi ▸ h.scanned (by omega)

theorem MapsLow.bios (h : s.MapsLow) (i : Nat) (hi : i < 0x2000) :
    s.MapsRsdp (biosLocation i) (PekOS.scanned s.ebdaWord (0x100 + i)) :=
  biosLocation_eq s.ebdaWord i ▸ h.scanned (by omega)

theorem MapsLow.run_findRSDP_of (h : s.MapsLow) {i : Nat} (hi : s.FirstRsdp i) :
    s.run findRSDP = .ok (PekOS.scanned s.ebdaWord i + kernelMapStart,
      s.withVersion (decide (s.byte (PekOS.scanned s.ebdaWord i + 15#32) ≠ 0#8))) := by
  obtain ⟨hlt, hrsdp, hbefore⟩ := hi
  rw [findRSDP, run, Prog.run_bind_ok _ h.run_ebdaWord, searchRSDP]
  by_cases hin : i < 0x100
  · rw [← ebdaLocation_eq _ hin]
    exact Prog.run_bind_ok _ (run_search_candidate hin h.ebda hrsdp hbefore (SameButVersion.refl s))
  · obtain ⟨j, rfl⟩ := Nat.exists_eq_add_of_le (Nat.le_of_not_lt hin)
    obtain ⟨u, hpassed, hu⟩ :=
      passed_of_not_rsdp h.ebda (fun k hk => hbefore k (by omega)) (SameButVersion.refl s)
    have hfound := run_search_candidate (n := 0x2000)
      (by omega) h.bios hrsdp (fun k hk => hbefore _ (by omega)) hu
    rw [Prog.run_bind_ok _ ((Prog.run_search_none exec).mpr hpassed), ← biosLocation_eq]
    exact Prog.run_bind_ok _ hfound

theorem MapsLow.run_findRSDP_null (h : s.MapsLow) (hnone : ∀ i, ¬ s.FirstRsdp i) :
    ∃ v, s.run findRSDP = .ok (0#32, s.withVersion v) := by
  have hnot (i : Nat) (hi : i < 0x2100) : ¬ IsRsdp s.byte (PekOS.scanned s.ebdaWord i) := fun hrsdp =>
    (exists_firstRsdp hi hrsdp).elim hnone
  obtain ⟨u, hpassed, hu⟩ :=
    passed_of_not_rsdp h.ebda (fun k hk => hnot k (by omega)) (SameButVersion.refl s)
  obtain ⟨t, hpassed', v, rfl⟩ := passed_of_not_rsdp h.bios (fun k hk => hnot _ (by omega)) hu
  refine ⟨v, ?_⟩
  rw [findRSDP, run, Prog.run_bind_ok _ h.run_ebdaWord, searchRSDP,
    Prog.run_bind_ok _ ((Prog.run_search_none exec).mpr hpassed)]
  exact Prog.run_bind_ok _ ((Prog.run_search_none exec).mpr hpassed')

/-- `init_rsdt` takes the root table of the RSDP found. -/
theorem MapsLow.run_findRoot (h : s.MapsLow) {i : Nat} (hi : s.FirstRsdp i) :
    s.run findRoot = .ok (rootOf s.byte (PekOS.scanned s.ebdaWord i), s.withGlobals { s.globals with
      acpiVersion := decide (s.byte (PekOS.scanned s.ebdaWord i + 15#32) ≠ 0#8)
      rsdp := PekOS.scanned s.ebdaWord i + kernelMapStart
      rsdtPhysaddr := rootOf s.byte (PekOS.scanned s.ebdaWord i) }) := by
  let v : Machine := s.withGlobals { s.globals with
    acpiVersion := decide (s.byte (PekOS.scanned s.ebdaWord i + 15#32) ≠ 0#8)
    rsdp := PekOS.scanned s.ebdaWord i + kernelMapStart }
  have hmaps : v.MapsRsdp (PekOS.scanned s.ebdaWord i + kernelMapStart)
      (PekOS.scanned s.ebdaWord i) := h.scanned hi.1
  have hroot : v.run findRSDT = .ok (rootOf s.byte (PekOS.scanned s.ebdaWord i), v) :=
    run_findRSDT hmaps rfl
  rw [findRoot, run, Prog.run_bind_ok _ (h.run_findRSDP_of hi), Prog.run_bind_ok _ (run_modify _)]
  exact (Prog.run_bind_ok _ hroot).trans rfl

end Machine

/-- Physical memory is mapped from 0xC0000000 on, at least as far as the preallocated page tables.
-/
theorem KernelMapped.maps_low (h : KernelMapped image s) (hp : p.toNat < 0x200000) :
    s.Maps (p + kernelMapStart) p := by
  have hge := image.kernelPTs_ge
  have hle := image.kernelPTs_le
  have hadd : (p + kernelMapStart).toNat = p.toNat + 0xC0000000 := by
    rw [kernelMapStart, BitVec.toNat_add, BitVec.toNat_ofNat]
    omega
  refine ⟨?_, ?_⟩
  · rw [h.walk_image (by omega) (by omega), BitVec.add_sub_cancel]
  · apply BitVec.eq_of_toNat_eq
    rw [offsetOf_toNat, offsetOf_toNat, hadd]
    omega

theorem Maps.withGlobals {a : Word} (h : s.Maps a p) (g : Globals) : (s.withGlobals g).Maps a p := h

theorem ebda_toNat (w : BitVec 16) : (ebda w).toNat = w.toNat * 1024 := by
  have hw := w.isLt
  simp only [ebda, BitVec.toNat_shiftLeft, BitVec.toNat_setWidth, Nat.shiftLeft_eq]
  omega

/-- Once the kernel has booted, an EBDA in the first megabyte is where it is looked for. -/
theorem KernelMapped.mapsLow (h : KernelMapped image s) (hw : s.ebdaWord.toNat ≤ 0x400) : s.MapsLow := by
  intro p hp
  have hebda := ebda_toNat s.ebdaWord
  refine (h.maps_low ?_).translate
  rcases hp with hp | hp
  · omega
  · rw [BitVec.toNat_sub] at hp
    omega

end PekOS
