import PekOS.Signatures
import PekOS.Firmware
import PekOS.Library.Walks

/-! The records of the MADT, as `find_MADT_entry_by_type` steps through them. -/

namespace PekOS

open OpTree Relation

namespace Machine

variable {s t : Machine} {start len type i i' length : Word}

/-- The record at offset `i` is of another type, and the next one is at `i'`. -/
def Passes (s : Machine) (start len type i i' : Word) : Prop :=
  i < len ∧ ∃ b l, s.ReadsByte (start + i) b ∧ b.setWidth 32 ≠ type ∧ s.ReadsByte (start + i + 1#32) l ∧
    i' = i + l.setWidth 32

theorem run_madtRecord {r : Word ⊕ Word} : s.run (madtRecord start len type i) = .ok (r, t) ↔ t = s ∧
    (¬ i < len ∧ r = .inr 0#32 ∨ i < len ∧ ∃ b, s.ReadsByte (start + i) b ∧
      (b.setWidth 32 = type ∧ r = .inr (start + i) ∨ b.setWidth 32 ≠ type ∧
        ∃ l, s.ReadsByte (start + i + 1#32) l ∧ r = .inl (i + l.setWidth 32))) := by
  unfold madtRecord
  by_cases hi : i < len
  · rw [if_pos hi, run, Prog.run_bind_ok_iff]
    constructor
    · rintro ⟨b, u, hb, h⟩
      obtain ⟨rfl, hb⟩ := run_loadByte_iff.mp hb
      by_cases htype : b.setWidth 32 = type
      · rw [if_pos htype] at h
        cases h
        exact ⟨rfl, Or.inr ⟨hi, b, hb, Or.inl ⟨htype, rfl⟩⟩⟩
      · rw [if_neg htype, Prog.run_bind_ok_iff] at h
        obtain ⟨l, v, hl, h⟩ := h
        obtain ⟨rfl, hl⟩ := run_loadByte_iff.mp hl
        cases h
        exact ⟨rfl, Or.inr ⟨hi, b, hb, Or.inr ⟨htype, l, hl, rfl⟩⟩⟩
    · rintro ⟨rfl, ⟨hn, -⟩ | ⟨-, b, hb, h⟩⟩
      · exact absurd hi hn
      · refine ⟨b, t, run_loadByte_iff.mpr ⟨rfl, hb⟩, ?_⟩
        rcases h with ⟨htype, rfl⟩ | ⟨htype, l, hl, rfl⟩
        · rw [if_pos htype]
          rfl
        · rw [if_neg htype, Prog.run_bind_ok _ (run_loadByte_iff.mpr ⟨rfl, hl⟩)]
          rfl
  · rw [if_neg hi]
    simp [hi, and_comm, eq_comm]

theorem next_madtRecord_iff :
    Prog.Next exec (madtRecord start len type) s i i' ↔ s.Passes start len type i i' := by
  rw [Prog.Next, ← run, run_madtRecord]
  simp [Passes]

theorem madtRecord_all (start len type i : Word) :
    Prog.All (fun o => ∃ a, o = .loadByte a) (madtRecord start len type i) := by
  unfold madtRecord
  split
  · refine (Prog.all_perform.mpr ⟨_, rfl⟩).bind fun b => ?_
    split
    · trivial
    · exact (Prog.all_perform.mpr ⟨_, rfl⟩).bind fun l => trivial
  · trivial

variable (start len type) in
theorem madtRecord_const (i : Word) (r : Word ⊕ Word) (t : Machine)
    (h : Prog.run exec (madtRecord start len type i) s = .ok (r, t)) : t = s := (run_madtRecord.mp h).1

theorem run_madtRecord_ne_fuel (i : Word) : s.run (madtRecord start len type i) ≠ .error .fuel := by
  refine (madtRecord_all start len type i).run_ne_error (fun o u ho => ?_) s
  obtain ⟨a, rfl⟩ := ho
  rw [exec, byteAt, access]
  cases u.walk (dirOf a) (tabOf a) with
  | none => simp [Except.map]
  | some m => simp [Except.map]

/-- The offsets of the bytes that are read at a record: its type,
and its length if the type is another. -/
theorem along_madtRecord_iff {P : Op × Machine → Prop} :
    Prog.Along exec P (madtRecord start len type i) s ↔
    (i < len → P (.loadByte (start + i), s) ∧
      ∀ b, s.ReadsByte (start + i) b → b.setWidth 32 ≠ type → P (.loadByte (start + i + 1#32), s)) := by
  unfold madtRecord
  by_cases hi : i < len
  · have hload (a : Word) : Prog.Along exec P (Code.loadByte a) s ↔ P (.loadByte a, s) :=
      Prog.along_perform exec P
    rw [if_pos hi, Prog.along_bind_iff, hload]
    simp only [hi, true_imp_iff]
    refine and_congr_right fun _ => forall_congr' fun b => ?_
    constructor
    · intro h hb htype
      have h := h s (run_loadByte_iff.mpr ⟨rfl, hb⟩)
      rw [if_neg htype] at h
      exact (hload _).mp ((Prog.along_bind_iff exec P).mp h).1
    · rintro h u hu
      obtain ⟨rfl, hb⟩ := run_loadByte_iff.mp hu
      split
      · exact Prog.along_ret exec P _ _
      · next htype =>
        refine (Prog.along_bind_iff exec P).mpr ⟨(hload _).mpr (h hb htype), fun l v _ => ?_⟩
        exact Prog.along_ret exec P _ _
  · rw [if_neg hi]
    exact ⟨fun _ h => absurd h hi, fun _ => Prog.along_ret exec P _ _⟩

/-- The record after the one at offset `i` of the MADT, which is of another type, is at `i'`. -/
def Follows (s : Machine) (length type : Word) : Word → Word → Prop :=
  s.Passes (s.globals.madt + 44#32) (length - 44#32) type

/-- The walk comes to offset `i` after the MADT's header. -/
def Visits (s : Machine) (length type i : Word) : Prop := ReflTransGen (s.Follows length type) 0#32 i

/-- An access before the end of the MADT, or of its header. -/
def InMadt (s : Machine) (length : Word) (x : Op × Machine) : Prop := ∀ a, x.1.address = some a →
  (a - s.globals.madt).toNat < 44 ∨ (a - s.globals.madt).toNat < length.toNat

theorem run_findMADTEntryByType (hlength : s.ReadsWord (s.globals.madt + 4#32) length) (fuel : Nat) :
    s.run (findMADTEntryByType fuel type) = s.run (Prog.loop Code.outOfFuel
      (madtRecord (s.globals.madt + 44#32) (length - 44#32) type) fuel 0#32) := by
  have hload := run_load_iff.mpr ⟨rfl, hlength⟩
  rw [findMADTEntryByType, run, Prog.run_bind_ok exec (run_get _)]
  exact Prog.run_bind_ok exec hload

theorem along_findMADTEntryByType (hlength : s.ReadsWord (s.globals.madt + 4#32) length) (fuel : Nat) :
    Prog.Along exec (s.InMadt length) (findMADTEntryByType fuel type) s ↔
      Prog.Along exec (s.InMadt length) (Prog.loop Code.outOfFuel
        (madtRecord (s.globals.madt + 44#32) (length - 44#32) type) fuel 0#32) s := by
  have hload := run_load_iff.mpr ⟨rfl, hlength⟩
  have hhead : Prog.Along exec (s.InMadt length) (Code.load (s.globals.madt + 4#32)) s := by
    refine (Prog.along_perform exec _).mpr fun a ha => Or.inl ?_
    obtain rfl : s.globals.madt + 4#32 = a := by simpa [Op.address] using ha
    rw [BitVec.add_comm, BitVec.add_sub_cancel]
    decide
  have hderef : s.run (Code.deref .findByHeader s.globals.madt) = .ok ((), s) := rfl
  unfold findMADTEntryByType
  rw [Prog.along_bind_iff]
  constructor
  · intro h
    have h := (Prog.along_bind_iff exec _).mp (h.2 _ s (run_get _))
    exact ((Prog.along_bind_iff exec _).mp (h.2 _ s hderef)).2 _ s hload
  · intro h
    refine ⟨(Prog.along_perform exec _).mpr fun a ha => by simp [Op.address] at ha, fun a t hr => ?_⟩
    obtain ⟨rfl, rfl⟩ : s.globals.madt = a ∧ s = t := by simpa using (run_get _).symm.trans hr
    refine (Prog.along_bind_iff exec _).mpr
      ⟨(Prog.along_perform exec _).mpr fun a ha => by simp [Op.address] at ha,
      fun _ t hr => ?_⟩
    obtain rfl : s = t := by simpa using hderef.symm.trans hr
    refine (Prog.along_bind_iff exec _).mpr ⟨hhead, fun w t hr => ?_⟩
    obtain ⟨rfl, rfl⟩ : length = w ∧ s = t := by simpa using hload.symm.trans hr
    exact h

instance : Finite Word := Finite.of_injective BitVec.toFin fun _ _ h => BitVec.eq_of_toFin_eq h

/-- The lookup ends exactly if the walk comes to no record twice. -/
theorem findMADTEntryByType_ends_iff (hlength : s.ReadsWord (s.globals.madt + 4#32) length)
    (type : Word) :
    (∃ n, ∀ fuel ≥ n, s.run (findMADTEntryByType fuel type) ≠ .error .fuel) ↔
      ∀ i, s.Visits length type i → ¬ TransGen (s.Follows length type) i i := by
  have hnext : Prog.Next exec (madtRecord (s.globals.madt + 44#32) (length - 44#32) type) s =
      s.Follows length type := by
    funext i i'
    exact propext next_madtRecord_iff
  have hstuck : Prog.run exec (Code.outOfFuel : Code Word) s = .error .fuel := rfl
  have hends := Prog.loop_ends_iff (b := 0#32)
    (madtRecord_const (s := s) (s.globals.madt + 44#32) (length - 44#32) type) hstuck
    run_madtRecord_ne_fuel
  simp only [run_findMADTEntryByType hlength]
  rw [hends, ends_iff_acyclic (Prog.next_unique exec _ s), hnext]
  rfl

/-- The bytes read at the records lie before the end. -/
theorem findMADTEntryByType_within_iff (hlength : s.ReadsWord (s.globals.madt + 4#32) length)
    (type : Word) :
    (∀ fuel, ∀ x ∈ s.trace (findMADTEntryByType fuel type), s.InMadt length x) ↔ 44 ≤ length.toNat ∧
      ∀ i b, s.Visits length type i → i < length - 44#32 → s.ReadsByte (s.globals.madt + 44#32 + i) b →
        b.setWidth 32 ≠ type → i.toNat + 45 < length.toNat := by
  have hnext : Prog.Next exec (madtRecord (s.globals.madt + 44#32) (length - 44#32) type) s =
      s.Follows length type := by
    funext i i'
    exact propext next_madtRecord_iff
  have hstuck : Prog.Along exec (s.InMadt length) (Code.outOfFuel : Code Word) s := by
    refine (Prog.along_bind_iff exec _).mpr
      ⟨(Prog.along_perform exec _).mpr fun a ha => by simp [Op.address] at ha, ?_⟩
    exact fun e => e.elim
  have hwalk := Prog.along_loop_iff (b := 0#32)
    (madtRecord_const (s := s) (s.globals.madt + 44#32) (length - 44#32) type) hstuck
  have hall : (∀ fuel, ∀ x ∈ s.trace (findMADTEntryByType fuel type), s.InMadt length x) ↔
      ∀ fuel, Prog.Along exec (s.InMadt length) (Prog.loop Code.outOfFuel
        (madtRecord (s.globals.madt + 44#32) (length - 44#32) type) fuel 0#32) s :=
    forall_congr' fun fuel => along_findMADTEntryByType hlength fuel
  have hfirst (i : Word) : (s.globals.madt + 44#32 + i - s.globals.madt).toNat =
      (44 + i.toNat) % 2 ^ 32 := by
    rw [BitVec.add_assoc, BitVec.add_comm, BitVec.add_sub_cancel, BitVec.toNat_add]
    rfl
  have hsecond (i : Word) : (s.globals.madt + 44#32 + i + 1#32 - s.globals.madt).toNat =
      (45 + i.toNat) % 2 ^ 32 := by
    rw [BitVec.add_assoc, BitVec.add_assoc, BitVec.add_comm, BitVec.add_sub_cancel,
      BitVec.toNat_add, BitVec.toNat_add]
    simp only [BitVec.toNat_ofNat]
    omega
  have hbyte (a : Word) : s.InMadt length (.loadByte a, s) ↔
      (a - s.globals.madt).toNat < 44 ∨ (a - s.globals.madt).toNat < length.toNat := by
    simp [InMadt, Op.address]
  rw [hall, hwalk, hnext]
  simp only [along_madtRecord_iff, hbyte, hfirst, hsecond]
  have hlt := length.isLt
  constructor
  · intro h
    have hle : 44 ≤ length.toNat := by
      by_contra hshort
      have h0 := (h 0#32 .refl
        (by rw [BitVec.lt_def, BitVec.toNat_sub]; simp only [BitVec.toNat_ofNat]; omega)).1
      simp only [BitVec.toNat_ofNat] at h0
      omega
    refine ⟨hle, fun i b hi hlen hb htype => ?_⟩
    have h1 := (h i hi hlen).2 b hb htype
    rw [BitVec.lt_def, BitVec.toNat_sub, BitVec.toNat_ofNat] at hlen
    omega
  · rintro ⟨hle, h⟩ i hi hlen
    have hlen' := hlen
    rw [BitVec.lt_def, BitVec.toNat_sub, BitVec.toNat_ofNat] at hlen'
    refine ⟨Or.inr (by omega), fun b hb htype => Or.inr ?_⟩
    have := h i b hi hlen hb htype
    omega

end Machine

/-! A MADT whose records fill it. -/

/-- Records of at least two bytes each, at the offsets listed,
fill the bytes from one offset up to another. -/
inductive Tiled (byte : Nat → Byte) (stop : Nat) : Nat → List Nat → Prop
  | nil : Tiled byte stop stop []
  | cons {o : Nat} {offsets : List Nat} (hlen : 2 ≤ (byte (o + 1)).toNat)
      (hrest : Tiled byte stop (o + (byte (o + 1)).toNat) offsets) : Tiled byte stop o (o :: offsets)

variable {byte : Nat → Byte} {stop o o' : Nat} {offsets : List Nat}

theorem Tiled.le (h : Tiled byte stop o offsets) : o ≤ stop := by
  induction h with
  | nil => exact Nat.le_refl _
  | cons _ _ ih => omega

theorem Tiled.mem_ge (h : Tiled byte stop o offsets) (ho : o' ∈ offsets) : o ≤ o' := by
  induction h with
  | nil => simp at ho
  | cons _ _ ih =>
    rcases List.mem_cons.mp ho with rfl | ho
    · exact Nat.le_refl _
    · have := ih ho
      omega

theorem Tiled.mem_lt (h : Tiled byte stop o offsets) (ho : o' ∈ offsets) : o' + 1 < stop := by
  induction h with
  | nil => simp at ho
  | cons hlen hrest ih =>
    rcases List.mem_cons.mp ho with rfl | ho
    · have := hrest.le
      omega
    · exact ih ho

theorem Tiled.start (h : Tiled byte stop o offsets) : o ∈ offsets ∨ o = stop := by
  cases h with
  | nil => exact Or.inr rfl
  | cons _ _ => exact Or.inl List.mem_cons_self

theorem Tiled.next (h : Tiled byte stop o offsets) (ho : o' ∈ offsets) :
    o' + (byte (o' + 1)).toNat ∈ offsets ∨ o' + (byte (o' + 1)).toNat = stop := by
  induction h with
  | nil => simp at ho
  | cons hlen hrest ih =>
    rcases List.mem_cons.mp ho with rfl | ho'
    · exact hrest.start.imp_left (List.mem_cons_of_mem _)
    · exact (ih ho').imp_left (List.mem_cons_of_mem _)

theorem Tiled.length_ge (h : Tiled byte stop o offsets) (ho : o' ∈ offsets) :
    2 ≤ (byte (o' + 1)).toNat := by
  induction h with
  | nil => simp at ho
  | cons hlen _ ih =>
    rcases List.mem_cons.mp ho with rfl | ho'
    · exact hlen
    · exact ih ho'

theorem Tiled.apart {a b : Nat} (h : Tiled byte stop o offsets) (ha : a ∈ offsets)
    (hb : b ∈ offsets) (hlt : a < b) : a + (byte (a + 1)).toNat ≤ b := by
  induction h with
  | nil => simp at ha
  | cons hlen hrest ih =>
    rcases List.mem_cons.mp ha with rfl | ha'
    · rcases List.mem_cons.mp hb with rfl | hb'
      · omega
      · exact hrest.mem_ge hb'
    · rcases List.mem_cons.mp hb with rfl | hb'
      · have := hrest.mem_ge ha'
        omega
      · exact ih ha' hb'

namespace Machine

variable {s : Machine} {type length : Word}

/-- The kernel can read the MADT: its length is `length`, and `byte o` its byte at offset `o`. -/
structure MadtBytes (s : Machine) (byte : Nat → Byte) (length : Word) : Prop where
  header : s.ReadsWord (s.globals.madt + 4#32) length
  bytes : ∀ o, 44 ≤ o → o < length.toNat → s.ReadsByte (s.globals.madt + BitVec.ofNat 32 o) (byte o)

/-- It lies in the address space as a whole. -/
structure Madt (s : Machine) (byte : Nat → Byte) (length : Word) : Prop
    extends s.MadtBytes byte length where
  fits : s.globals.madt.toNat + length.toNat ≤ 2 ^ 32

/-- The address of the first of the records that is of the type, or 0. -/
def recordOfType (s : Machine) (byte : Nat → Byte) (type : Word) (offsets : List Nat) : Word :=
  ((offsets.find? fun o => (byte o).setWidth 32 = type).map fun o => s.globals.madt +
    BitVec.ofNat 32 o).getD 0#32

theorem Madt.run_loop (h : s.Madt byte length) (ht : Tiled byte length.toNat o offsets)
    (ho : 44 ≤ o) {fuel : Nat} (hfuel : offsets.length < fuel) :
    s.run (Prog.loop Code.outOfFuel (madtRecord (s.globals.madt + 44#32) (length - 44#32) type) fuel
      (BitVec.ofNat 32 (o - 44))) = .ok (s.recordOfType byte type offsets, s) := by
  have hlt := length.isLt
  have hlen (hge : 44 ≤ length.toNat) : (length - 44#32).toNat = length.toNat - 44 := by
    rw [BitVec.toNat_sub, BitVec.toNat_ofNat]
    omega
  obtain ⟨n, rfl⟩ : ∃ n, fuel = n + 1 := ⟨fuel - 1, by omega⟩
  induction ht generalizing n with
  | nil =>
    have hend : ¬ BitVec.ofNat 32 (length.toNat - 44) < length - 44#32 := by
      rw [BitVec.lt_def, hlen ho, BitVec.toNat_ofNat]
      omega
    have hr : s.run (madtRecord (s.globals.madt + 44#32) (length - 44#32) type
        (BitVec.ofNat 32 (length.toNat - 44))) =
        .ok (.inr 0#32, s) := run_madtRecord.mpr ⟨rfl, Or.inl ⟨hend, rfl⟩⟩
    rw [Prog.loop, run, Prog.run_bind_ok exec hr]
    rfl
  | @cons o offsets h2 hrest ih =>
    have hle := hrest.le
    have hat (k : Nat) : s.globals.madt + 44#32 + BitVec.ofNat 32 (o - 44) + BitVec.ofNat 32 k =
        s.globals.madt + BitVec.ofNat 32 (o + k) := by
      rw [BitVec.add_assoc, BitVec.add_assoc, show 44#32 = BitVec.ofNat 32 44 from rfl,
        ← BitVec.ofNat_add, ← BitVec.ofNat_add, show 44 + (o - 44 + k) = o + k by omega]
    have hbyte := h.bytes o ho (by omega)
    have hlast := h.bytes (o + 1) (by omega) (by omega)
    rw [← hat 1] at hlast
    rw [← Nat.add_zero o, ← hat 0, BitVec.add_zero, Nat.add_zero] at hbyte
    have hin : BitVec.ofNat 32 (o - 44) < length - 44#32 := by
      rw [BitVec.lt_def, hlen (by omega), BitVec.toNat_ofNat]
      omega
    by_cases htype : (byte o).setWidth 32 = type
    · have hr := run_madtRecord.mpr ⟨rfl, Or.inr ⟨hin, _, hbyte, Or.inl ⟨htype, rfl⟩⟩⟩
      rw [Prog.loop, run, Prog.run_bind_ok exec hr, recordOfType,
        List.find?_cons_of_pos (by simpa using htype)]
      have haddr := hat 0
      rw [BitVec.add_zero, Nat.add_zero] at haddr
      rw [haddr]
      rfl
    · have hr := run_madtRecord.mpr ⟨rfl, Or.inr ⟨hin, _, hbyte, Or.inr ⟨htype, _, hlast, rfl⟩⟩⟩
      have hnext : BitVec.ofNat 32 (o - 44) + (byte (o + 1)).setWidth 32 =
          BitVec.ofNat 32 (o + (byte (o + 1)).toNat - 44) := by
        apply BitVec.eq_of_toNat_eq
        simp only [BitVec.toNat_add, BitVec.toNat_ofNat, BitVec.toNat_setWidth]
        omega
      rw [hnext] at hr
      rw [Prog.loop, run, Prog.run_bind_ok exec hr, recordOfType,
        List.find?_cons_of_neg (by simpa using htype)]
      simp only [List.length_cons] at hfuel
      obtain ⟨m, rfl⟩ : ∃ m, n = m + 1 := ⟨n - 1, by omega⟩
      exact ih (by omega) m (by omega)

theorem Madt.recordOfType_toNat (h : s.Madt byte length) {o : Nat} (ho : o < length.toNat) :
    (s.globals.madt + BitVec.ofNat 32 o).toNat = s.globals.madt.toNat + o := by
  have hfits := h.fits
  have hlt := length.isLt
  rw [BitVec.toNat_add, BitVec.toNat_ofNat]
  omega

theorem Madt.run_find (h : s.Madt byte length) (ht : Tiled byte length.toNat 44 offsets)
    (type : Word) {fuel : Nat} (hfuel : offsets.length < fuel) :
    s.run (findMADTEntryByType fuel type) = .ok (s.recordOfType byte type offsets, s) := by
  rw [run_findMADTEntryByType h.header]
  exact h.run_loop ht (Nat.le_refl 44) hfuel

/-- The record that is found is listed. -/
theorem Madt.recordOfType_cases (h : s.Madt byte length) (ht : Tiled byte length.toNat 44 offsets)
    (type : Word) :
    (∃ o ∈ offsets, offsets.find? (fun o => (byte o).setWidth 32 = type) = some o ∧
      (byte o).setWidth 32 = type ∧
      s.recordOfType byte type offsets = s.globals.madt + BitVec.ofNat 32 o ∧
        (s.recordOfType byte type offsets).toNat = s.globals.madt.toNat + o) ∨
      offsets.find? (fun o => (byte o).setWidth 32 = type) = none ∧
        (∀ o ∈ offsets, (byte o).setWidth 32 ≠ type) ∧
        s.recordOfType byte type offsets = 0#32 := by
  cases hfind : offsets.find? fun o => (byte o).setWidth 32 = type with
  | none =>
    have hnone := List.find?_eq_none.mp hfind
    exact Or.inr ⟨rfl, fun o ho => by simpa using hnone o ho, by simp [recordOfType, hfind]⟩
  | some o =>
    have hmem := List.mem_of_find?_eq_some hfind
    have hlt := ht.mem_lt hmem
    have ha : s.recordOfType byte type offsets = s.globals.madt + BitVec.ofNat 32 o := by
      simp [recordOfType, hfind]
    exact Or.inl ⟨o, hmem, rfl, by simpa using List.find?_some hfind, ha,
      ha ▸ h.recordOfType_toNat (by omega)⟩

theorem Madt.step (h : s.Madt byte length) (ht : Tiled byte length.toNat 44 offsets) {i i' : Word}
    (hi : i.toNat + 44 ∈ offsets ∨ i.toNat + 44 = length.toNat) (hf : s.Follows length type i i') :
    i.toNat + 44 ∈ offsets ∧ i'.toNat = i.toNat + (byte (i.toNat + 44 + 1)).toNat := by
  have hge := ht.le
  have hlt := length.isLt
  obtain ⟨hin, b, l, hb, htype, hl, rfl⟩ := hf
  rw [BitVec.lt_def, BitVec.toNat_sub, BitVec.toNat_ofNat] at hin
  have hmem : i.toNat + 44 ∈ offsets := hi.resolve_right (by omega)
  have hbound := ht.mem_lt hmem
  have hread := h.bytes (i.toNat + 44 + 1) (by omega) hbound
  have haddr : s.globals.madt + 44#32 + i + 1#32 = s.globals.madt + BitVec.ofNat 32
      (i.toNat + 44 + 1) := by
    apply BitVec.eq_of_toNat_eq
    simp only [BitVec.toNat_add, BitVec.toNat_ofNat]
    omega
  rw [haddr] at hl
  obtain rfl := hl.unique hread
  have hle : i.toNat + 44 + (byte (i.toNat + 44 + 1)).toNat ≤ length.toNat := by
    rcases ht.next hmem with hnext | hnext
    · have := ht.mem_lt hnext
      omega
    · omega
  refine ⟨hmem, ?_⟩
  rw [BitVec.toNat_add, BitVec.toNat_setWidth]
  omega

theorem Madt.mem_of_visits (h : s.Madt byte length) (ht : Tiled byte length.toNat 44 offsets) {i : Word}
    (hi : s.Visits length type i) : i.toNat + 44 ∈ offsets ∨ i.toNat + 44 = length.toNat := by
  induction hi with
  | refl => exact ht.start
  | tail _ hf ih =>
    obtain ⟨hmem, hnext⟩ := h.step ht ih hf
    rw [hnext, Nat.add_right_comm]
    exact ht.next hmem

theorem Madt.acyclic (h : s.Madt byte length) (ht : Tiled byte length.toNat 44 offsets) (i : Word)
    (hi : s.Visits length type i) : ¬ TransGen (s.Follows length type) i i := by
  refine acyclic_of_increasing BitVec.toNat (fun i i' hi hf => ?_) i hi
  obtain ⟨hmem, hnext⟩ := h.step ht (h.mem_of_visits ht hi) hf
  have := ht.length_ge hmem
  omega

end Machine

/-- A booted machine with the MADT at physical address 0x5000. -/
theorem exists_madt (words : List (Word × Word))
    (hw : (words.all fun x => decide (BesideKernel x.1)) = true) :
    ∃ s : Machine, s.globals.madt = 0xC0005000#32 ∧
      s.ReadsWord 0xC0005004#32 (LittleEndian.word (firmwareByte words) 0x5004#32) ∧
      ∀ o < 4096, s.ReadsByte (0xC0005000#32 + BitVec.ofNat 32 o)
      (firmwareByte words (0x5000#32 + BitVec.ofNat 32 o)) := by
  have hl : Loaded alignedImage ({ zeroMachine with mem := firmware words } : Machine).mem :=
    loaded_firmware alignedImage fun x hx => decide_eq_true_eq.mp (List.all_eq_true.mp hw x hx)
  obtain ⟨s, -, hi⟩ := exists_booted hl
  have hmaps : s.Maps 0xC0005000#32 0x5000#32 := hi.kernelMapped.maps_low (p := 0x5000#32) (by decide)
  have hbyte (o : Nat) (ho : o < 4096) : s.byte (0x5000#32 + BitVec.ofNat 32 o) = firmwareByte words
      (0x5000#32 + BitVec.ofNat 32 o) := by
    refine hi.byte_firmware (Or.inl ?_)
    rw [BitVec.toNat_add, BitVec.toNat_ofNat, BitVec.toNat_ofNat]
    omega
  have hword : s.word 0x5004#32 = LittleEndian.word (firmwareByte words) 0x5004#32 :=
    LittleEndian.word_congr (hbyte 4 (by decide)) fun k hk => by
      have h := hbyte (4 + k) (by omega)
      rwa [BitVec.ofNat_add, ← BitVec.add_assoc] at h
  have hu := Maps.withGlobals hmaps { s.globals with madt := 0xC0005000#32 }
  refine ⟨s.withGlobals { s.globals with madt := 0xC0005000#32 }, rfl, ?_, fun o ho => ?_⟩
  · have hread := Machine.run_load_word (hu.reads (k := 4) (by decide))
    exact hword ▸ (Machine.run_load_iff.mp hread).2
  · rw [← hbyte o ho]
    exact Machine.byteAt_eq (hu.add (k := o) (by rw [BitVec.toNat_ofNat]; omega)).translate

def twoRecords : List (Word × Word) :=
  [(0x5004#32, 64#32), (0x502C#32, 0x00000800#32), (0x5034#32, 0x00000C01#32)]

theorem exists_twoRecords : ∃ (s : Machine) (byte : Nat → Byte), s.globals.madt = 0xC0005000#32 ∧
    s.Madt byte 64#32 ∧
    byte 44 = 0#8 ∧ byte 52 = 1#8 ∧ Tiled byte (64#32 : Word).toNat 44 [44, 52] := by
  obtain ⟨s, hmadt, hheader, hbytes⟩ := exists_madt twoRecords (by decide)
  let byte : Nat → Byte := fun o => firmwareByte twoRecords (0x5000#32 + BitVec.ofNat 32 o)
  have hlength : LittleEndian.word (firmwareByte twoRecords) 0x5004#32 = 64#32 := by decide
  have h45 : byte 45 = 8#8 := by decide
  have h53 : byte 53 = 12#8 := by decide
  refine ⟨s, byte, hmadt, ⟨⟨?_, fun o _ ho => ?_⟩, ?_⟩, by decide, by decide, .cons ?_ ?_⟩
  · rw [hmadt]
    exact hlength ▸ hheader
  · rw [hmadt]
    exact hbytes o (ho.trans (by decide))
  · rw [hmadt]
    decide
  · rw [h45]
    decide
  · rw [h45]
    refine .cons (o := 52) ?_ ?_
    · rw [h53]
      decide
    · rw [h53]
      exact .nil

namespace Machine

/-- On a MADT filled by its records, `find_MADT_entry_by_type` returns the first
record of the type, or 0 if there is none. -/
theorem findMADTEntryByType_first (s : Machine) {byte : Nat → Byte} {length : Word} {offsets : List Nat}
    (h : s.Madt byte length) (ht : Tiled byte length.toNat 44 offsets) (type : Word) :
    ∃ a, (∃ n, ∀ fuel ≥ n, s.run (findMADTEntryByType fuel type) = .ok (a, s)) ∧
      (∀ o, offsets.find? (fun o => (byte o).setWidth 32 = type) = some o →
        a.toNat = s.globals.madt.toNat + o) ∧
      (a = 0#32 ↔ ∀ o ∈ offsets, (byte o).setWidth 32 ≠ type) ∧
      (a ≠ 0#32 → ∀ o ∈ offsets, ¬ (s.globals.madt.toNat + o < a.toNat ∧
        a.toNat < s.globals.madt.toNat + o + (byte (o + 1)).toNat)) := by
  refine ⟨s.recordOfType byte type offsets,
    ⟨offsets.length + 1, fun fuel hfuel => h.run_find ht type hfuel⟩, ?_⟩
  rcases h.recordOfType_cases ht type with ⟨o, hmem, hfind, htype, -, ha⟩ | ⟨hfind, hnone, ha⟩
  · have hge := ht.mem_ge hmem
    refine ⟨fun o' ho' => ?_, ⟨fun hz => ?_, fun hno => absurd htype (hno o hmem)⟩,
      fun _ o' ho' hin => ?_⟩
    · rw [ha, Option.some.inj (hfind.symm.trans ho')]
    · rw [hz, BitVec.toNat_ofNat] at ha
      omega
    · have hapart := ht.apart ho' hmem (by omega)
      omega
  · refine ⟨fun o ho => ?_, ⟨fun _ => hnone, fun _ => ha⟩, fun hne => absurd ha hne⟩
    rw [hfind] at ho
    cases ho

/-- The IOAPIC's record is found, and nothing of a type there is no record of. -/
theorem findMADTEntryByType_first_ioapic : ∃ s : Machine,
    (∃ n, ∀ fuel ≥ n, s.run (findMADTEntryByType fuel 1#32) = .ok (0xC0005034#32, s)) ∧
      ∃ n, ∀ fuel ≥ n, s.run (findMADTEntryByType fuel 2#32) = .ok (0#32, s) := by
  obtain ⟨s, byte, hmadt, h, h44, h52, ht⟩ := exists_twoRecords
  obtain ⟨a, hrun, haddr, -⟩ := findMADTEntryByType_first s h ht 1#32
  obtain ⟨b, hrun', -, hnone, -⟩ := findMADTEntryByType_first s h ht 2#32
  have ha : a = 0xC0005034#32 := by
    apply BitVec.eq_of_toNat_eq
    rw [haddr 52 (by simp [h44, h52]), hmadt]
    decide
  have hb : b = 0#32 := hnone.mpr fun o ho => by
    rcases List.mem_cons.mp ho with rfl | ho
    · rw [h44]
      decide
    · rw [List.mem_singleton.mp ho, h52]
      decide
  exact ⟨s, ha ▸ hrun, hb ▸ hrun'⟩

end Machine

/-! The walk over any bytes. -/

section Walk

variable {byte : Nat → Byte} {length type i i' : Word}

/-- The record at offset `i` after the header is of another type, and the next one is at `i'`. -/
def Steps (byte : Nat → Byte) (length type i i' : Word) : Prop :=
  i.toNat + 45 < length.toNat ∧ (byte (i.toNat + 44)).setWidth 32 ≠ type ∧
    i' = i + (byte (i.toNat + 45)).setWidth 32

/-- The walk comes to the record at offset `i` after the header. -/
def Reaches (byte : Nat → Byte) (length type i : Word) : Prop :=
  ReflTransGen (Steps byte length type) 0#32 i

/-- The MADT has a header, a record that is passed has one too, and none is come to twice. -/
structure Walkable (byte : Nat → Byte) (length type : Word) : Prop where
  header : 44 ≤ length.toNat
  records : ∀ i, Reaches byte length type i → i.toNat + 44 < length.toNat →
    (byte (i.toNat + 44)).setWidth 32 ≠ type → i.toNat + 45 < length.toNat
  ends : ∀ i, Reaches byte length type i → ¬ TransGen (Steps byte length type) i i

/-- Unless the MADT is nearly 4 GiB long, only a record of length 0 is come to twice. -/
theorem acyclic_iff (hle : length.toNat ≤ 0xFFFFFF00) :
    (∀ i, Reaches byte length type i → ¬ TransGen (Steps byte length type) i i) ↔
      ∀ i, Reaches byte length type i → i.toNat + 45 < length.toNat →
        (byte (i.toNat + 44)).setWidth 32 ≠ type → byte (i.toNat + 45) ≠ 0#8 := by
  constructor
  · intro h i hi hlt htype hzero
    exact h i hi (.single ⟨hlt, htype, by rw [hzero]; simp⟩)
  · intro h
    refine acyclic_of_increasing BitVec.toNat fun i i' hi hs => ?_
    obtain ⟨hlt, htype, rfl⟩ := hs
    have hne := h i hi hlt htype
    rw [Ne, ← BitVec.toNat_inj, BitVec.toNat_ofNat] at hne
    have hbyte := (byte (i.toNat + 45)).isLt
    rw [BitVec.toNat_add, BitVec.toNat_setWidth]
    omega

end Walk

namespace Machine

variable {s : Machine} {byte : Nat → Byte} {length type i i' : Word}

theorem lt_sub_header_iff (h : 44 ≤ length.toNat) : i < length - 44#32 ↔ i.toNat + 44 < length.toNat := by
  have hlt := length.isLt
  rw [BitVec.lt_def, BitVec.toNat_sub, BitVec.toNat_ofNat]
  omega

namespace MadtBytes

theorem reads (h : s.MadtBytes byte length) (hlt : i.toNat + 44 < length.toNat) :
    s.ReadsByte (s.globals.madt + 44#32 + i) (byte (i.toNat + 44)) := by
  have hread := h.bytes (i.toNat + 44) (by omega) hlt
  rwa [BitVec.ofNat_add, BitVec.ofNat_toNat, BitVec.setWidth_eq, BitVec.add_comm i,
    ← BitVec.add_assoc] at hread

theorem reads_next (h : s.MadtBytes byte length) (hlt : i.toNat + 45 < length.toNat) :
    s.ReadsByte (s.globals.madt + 44#32 + i + 1#32) (byte (i.toNat + 45)) := by
  have hread := h.bytes (i.toNat + 45) (by omega) hlt
  rw [show i.toNat + 45 = i.toNat + (44 + 1) from rfl, BitVec.ofNat_add, BitVec.ofNat_toNat,
    BitVec.setWidth_eq, BitVec.ofNat_add, BitVec.add_comm i, ← BitVec.add_assoc,
    ← BitVec.add_assoc] at hread
  rwa [BitVec.add_assoc, BitVec.add_comm i, ← BitVec.add_assoc]

theorem follows (h : s.MadtBytes byte length) (hs : Steps byte length type i i') :
    s.Follows length type i i' := by
  obtain ⟨hlt, htype, rfl⟩ := hs
  have hin : i < length - 44#32 := (lt_sub_header_iff (by omega)).mpr (by omega)
  exact ⟨hin, _, _, h.reads (by omega), htype, h.reads_next hlt, rfl⟩

theorem steps (h : s.MadtBytes byte length) (hlt : i.toNat + 45 < length.toNat)
    (hf : s.Follows length type i i') : Steps byte length type i i' := by
  obtain ⟨-, b, l, hb, htype, hl, rfl⟩ := hf
  obtain rfl := hb.unique (h.reads (by omega))
  obtain rfl := hl.unique (h.reads_next hlt)
  exact ⟨hlt, htype, rfl⟩

/-- Over a MADT whose records do not reach over its end, the two walks are one. -/
theorem steps_of_visits (h : s.MadtBytes byte length) (hge : 44 ≤ length.toNat)
    (hrecords : ∀ i, Reaches byte length type i → i.toNat + 44 < length.toNat →
      (byte (i.toNat + 44)).setWidth 32 ≠ type → i.toNat + 45 < length.toNat)
    (hi : Reaches byte length type i) (hf : s.Follows length type i i') :
      Steps byte length type i i' := by
  have hpass := hf
  obtain ⟨hin, b, l, hb, htype, -, -⟩ := hpass
  have hlt := (lt_sub_header_iff hge).mp hin
  obtain rfl := hb.unique (h.reads hlt)
  exact h.steps (hrecords i hi hlt htype) hf

theorem reaches_of_visits (h : s.MadtBytes byte length) (hw : Walkable byte length type)
    (hi : s.Visits length type i) : Reaches byte length type i := by
  induction hi with
  | refl => exact .refl
  | tail _ hf ih => exact ih.tail (h.steps_of_visits hw.header hw.records ih hf)

theorem walkable_iff (h : s.MadtBytes byte length) : Walkable byte length type ↔ 44 ≤ length.toNat ∧
    (∀ i b, s.Visits length type i → i < length - 44#32 → s.ReadsByte (s.globals.madt + 44#32 + i) b →
      b.setWidth 32 ≠ type → i.toNat + 45 < length.toNat) ∧
    ∀ i, s.Visits length type i → ¬ TransGen (s.Follows length type) i i := by
  have hvisits {i : Word} (hi : Reaches byte length type i) : s.Visits length type i :=
    ReflTransGen.mono (fun _ _ => h.follows) _ _ hi
  constructor
  · intro hw
    refine ⟨hw.header, fun i b hi hin hb htype => ?_, fun i hi hcycle => ?_⟩
    · have hlt := (lt_sub_header_iff hw.header).mp hin
      obtain rfl := hb.unique (h.reads hlt)
      exact hw.records i (h.reaches_of_visits hw hi) hlt htype
    · have hreach := h.reaches_of_visits hw hi
      have hsteps {j : Word} (hj : TransGen (s.Follows length type) i j) :
          TransGen (Steps byte length type) i j := by
        induction hj with
        | single hf => exact .single (h.steps_of_visits hw.header hw.records hreach hf)
        | tail _ hf ih =>
          exact ih.tail (h.steps_of_visits hw.header hw.records (hreach.trans ih.to_reflTransGen) hf)
      exact hw.ends i hreach (hsteps hcycle)
  · rintro ⟨hge, hrecords, hacyclic⟩
    refine ⟨hge, fun i hi hlt htype => ?_, fun i hi hcycle => ?_⟩
    · exact hrecords i _ (hvisits hi) ((lt_sub_header_iff hge).mpr hlt) (h.reads hlt) htype
    · exact hacyclic i (hvisits hi) (TransGen.mono (fun _ _ => h.follows) _ _ hcycle)

/-- A walk that stays inside needs no page the kernel cannot read. -/
theorem run_error (h : s.MadtBytes byte length) (hw : Walkable byte length type) {fuel : Nat} {e : Stop}
    (he : s.run (findMADTEntryByType fuel type) = .error e) : e = .fuel := by
  have hstuck : Prog.run exec (Code.outOfFuel : Code Word) s = .error .fuel := rfl
  rw [run_findMADTEntryByType h.header] at he
  refine Prog.loop_error (fun i hi => ?_) hstuck he
  have hvisits : s.Visits length type i := ReflTransGen.mono (fun _ _ => next_madtRecord_iff.mp) _ _ hi
  have hreach := h.reaches_of_visits hw hvisits
  by_cases hin : i < length - 44#32
  · have hlt := (lt_sub_header_iff hw.header).mp hin
    by_cases htype : (byte (i.toNat + 44)).setWidth 32 = type
    · exact ⟨_, run_madtRecord.mpr ⟨rfl, Or.inr ⟨hin, _, h.reads hlt, Or.inl ⟨htype, rfl⟩⟩⟩⟩
    · have hnext := h.reads_next (hw.records i hreach hlt htype)
      exact ⟨_, run_madtRecord.mpr ⟨rfl, Or.inr ⟨hin, _, h.reads hlt, Or.inr ⟨htype, _, hnext, rfl⟩⟩⟩⟩
  · exact ⟨_, run_madtRecord.mpr ⟨rfl, Or.inl ⟨hin, rfl⟩⟩⟩

end MadtBytes

/-- `find_MADT_entry_by_type` returns and stays inside the MADT exactly if the MADT
has a header, the two bytes of a record it passes lie inside, and no record is
come to twice: none has length 0, unless the MADT is nearly 4 GiB long. -/
theorem findMADTEntryByType_bounded_iff (image : KernelImage) (n : Nat) (s : Machine)
    (h : s.MadtBytes byte length) (type : Word) :
    (((∃ m, ∀ fuel ≥ m, ∃ a t, Ran image n (findMADTEntryByType fuel type) s a t) ∧
      ∀ fuel, ∀ x ∈ Prog.trace (demand image n) (findMADTEntryByType fuel type) s, ∀ a,
      x.1.address = some a →
        (a - s.globals.madt).toNat < 44 ∨ (a - s.globals.madt).toNat < length.toNat) ↔
        Walkable byte length type) ∧
    (length.toNat ≤ 0xFFFFFF00 →
      ((∀ i, Reaches byte length type i → ¬ TransGen (Steps byte length type) i i) ↔
      ∀ i, Reaches byte length type i → i.toNat + 45 < length.toNat →
        (byte (i.toNat + 44)).setWidth 32 ≠ type → byte (i.toNat + 45) ≠ 0#8)) := by
  have hends := findMADTEntryByType_ends_iff h.header type
  have hwithin := findMADTEntryByType_within_iff h.header type
  have hsame {fuel : Nat} (hfuel : ∀ e, s.run (findMADTEntryByType fuel type) = .error e → e = .fuel) :=
    Prog.run_agree (K := fun e => e = .fuel) (demand image n) (fun _ _ _ => demand_of_exec)
      (fun o u e he ho => he ▸ demand_of_fuel (he ▸ ho)) hfuel
  refine ⟨⟨?_, fun hw => ⟨?_, fun fuel => ?_⟩⟩, acyclic_iff⟩
  · rintro ⟨⟨m, hreturns⟩, htrace⟩
    have hinside := hwithin.mp fun fuel x hx =>
      htrace fuel x (Prog.trace_subset (demand image n) (fun _ _ _ => demand_of_exec) _ s hx)
    refine h.walkable_iff.mpr ⟨hinside.1, hinside.2, hends.mp ⟨m, fun fuel hm hstop => ?_⟩⟩
    obtain ⟨a, t, hr⟩ := hreturns fuel hm
    have hdemand := (hsame fun e he => Except.error.inj (he.symm.trans hstop)).1
    rw [Ran, hdemand] at hr
    exact absurd (hstop.symm.trans hr) (by simp)
  · obtain ⟨m, hm⟩ := hends.mpr (h.walkable_iff.mp hw).2.2
    refine ⟨m, fun fuel hfuel => ?_⟩
    cases hr : s.run (findMADTEntryByType fuel type) with
    | error e => exact absurd (h.run_error hw hr ▸ hr) (hm fuel hfuel)
    | ok x => exact ⟨x.1, x.2, ran_of_run hr⟩
  · obtain ⟨hge, hrecords, -⟩ := h.walkable_iff.mp hw
    rw [(hsame fun e he => h.run_error hw he).2]
    exact hwithin.mpr ⟨hge, hrecords⟩ fuel

theorem Madt.walkable (h : s.Madt byte length) {offsets : List Nat}
    (ht : Tiled byte length.toNat 44 offsets) (type : Word) : Walkable byte length type := by
  refine h.toMadtBytes.walkable_iff.mpr ⟨ht.le, fun i b hi hin _ _ => ?_, h.acyclic ht⟩
  have hlt := (lt_sub_header_iff ht.le).mp hin
  have hlast := ht.mem_lt ((h.mem_of_visits ht hi).resolve_right (by omega))
  omega

/-- It does on a MADT filled by its records. -/
theorem findMADTEntryByType_bounded_iff_twoRecords :
    ∃ s : Machine, s.ReadsWord (s.globals.madt + 4#32) 64#32 ∧
    ∀ n, (∃ m, ∀ fuel ≥ m, ∃ a t, Ran alignedImage n (findMADTEntryByType fuel 2#32) s a t) ∧
      ∀ fuel, ∀ x ∈ Prog.trace (demand alignedImage n) (findMADTEntryByType fuel 2#32) s, ∀ a,
      x.1.address = some a →
        (a - s.globals.madt).toNat < 44 ∨ (a - s.globals.madt).toNat < 64 := by
  obtain ⟨s, byte, -, h, -, -, ht⟩ := exists_twoRecords
  refine ⟨s, h.header, fun n => ?_⟩
  exact (findMADTEntryByType_bounded_iff alignedImage n s h.toMadtBytes 2#32).1.mpr (h.walkable ht 2#32)

/-- A record of length 0 and another type holds the lookup up for ever. -/
theorem findMADTEntryByType_stuck : ∃ s : Machine, s.ReadsWord (s.globals.madt + 4#32) 46#32 ∧
    s.ReadsByte (s.globals.madt + 44#32) 5#8 ∧ s.ReadsByte (s.globals.madt + 45#32) 0#8 ∧
    ∀ n fuel, Prog.run (demand alignedImage n) (findMADTEntryByType fuel 1#32) s = .error .fuel := by
  obtain ⟨s, hmadt, hheader, hbytes⟩ :=
    exists_madt [(0x5004#32, 46#32), (0x502C#32, 0x00000005#32)] (by decide)
  have htype := hbytes 44 (by decide)
  have hzero := hbytes 45 (by decide)
  rw [show LittleEndian.word (firmwareByte [(0x5004#32, 46#32), (0x502C#32, 0x00000005#32)])
    0x5004#32 = 46#32 by decide] at hheader
  rw [show firmwareByte [(0x5004#32, 46#32), (0x502C#32, 0x00000005#32)] (0x5000#32 +
    BitVec.ofNat 32 44) = 5#8 by decide] at htype
  rw [show firmwareByte [(0x5004#32, 46#32), (0x502C#32, 0x00000005#32)] (0x5000#32 +
    BitVec.ofNat 32 45) = 0#8 by decide] at hzero
  rw [← hmadt] at htype hzero
  rw [show 0xC0005004#32 = 0xC0005000#32 + 4#32 by decide, ← hmadt] at hheader
  have hnext : Prog.Next exec (madtRecord (s.globals.madt + 44#32) (46#32 - 44#32) 1#32) s 0#32 0#32 := by
    refine next_madtRecord_iff.mpr ⟨by decide, 5#8, 0#8, by rwa [BitVec.add_zero], by decide, ?_, rfl⟩
    rw [BitVec.add_zero, BitVec.add_assoc]
    exact hzero
  have hrun (fuel : Nat) : s.run (findMADTEntryByType fuel 1#32) = .error .fuel := by
    rw [run_findMADTEntryByType hheader]
    induction fuel with
    | zero => rfl
    | succ fuel ih => exact (hnext.run_loop fuel).trans ih
  refine ⟨s, hheader, htype, hzero, fun n fuel => ?_⟩
  refine (Prog.run_agree (K := fun e => e = .fuel) (demand alignedImage n) (fun _ _ _ => demand_of_exec)
    (fun o u e he ho => he ▸ demand_of_fuel (he ▸ ho)) fun e he => ?_).1.trans (hrun fuel)
  exact Except.error.inj (he.symm.trans (hrun fuel))

end Machine

end PekOS
