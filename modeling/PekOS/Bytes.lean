import PekOS.Paged
import PekOS.Library.LittleEndian

/-! Memory by its bytes: an access of any alignment, as one to the bytes at the
physical addresses it is translated to. -/

namespace PekOS

open OpTree

theorem byteOf_congr {a b : Word} (h : a.toNat % 4 = b.toNat % 4) (w : Word) :
    byteOf a w = byteOf b w := by
  rw [byteOf, byteOf, h]

theorem getLsbD_byteOf (a w : Word) {i : Nat} (hi : i < 8) :
    (byteOf a w).getLsbD i = w.getLsbD (8 * (a.toNat % 4) + i) := by
  rw [byteOf, BitVec.getLsbD_extractLsb', decide_eq_true hi, Bool.true_and]

theorem byteOf_setByte (a w : Word) (b : Byte) (a' : Word) :
    byteOf a' (setByte a w b) = if a'.toNat % 4 = a.toNat % 4 then b else byteOf a' w := by
  have hmask : (0xFF : Word) = (BitVec.allOnes 8).setWidth 32 := by decide
  have hj : a.toNat % 4 < 4 := Nat.mod_lt _ (by decide)
  have hj' : a'.toNat % 4 < 4 := Nat.mod_lt _ (by decide)
  apply BitVec.eq_of_getLsbD_eq
  intro i hi
  rw [getLsbD_byteOf _ _ hi, setByte, hmask]
  simp only [BitVec.getLsbD_or, BitVec.getLsbD_and, BitVec.getLsbD_not, BitVec.getLsbD_shiftLeft,
    BitVec.getLsbD_setWidth, BitVec.getLsbD_allOnes]
  by_cases he : a'.toNat % 4 = a.toNat % 4
  · rw [if_pos he, he]
    simp [hi, show 8 * (a.toNat % 4) + i < 32 by omega,
      show ¬ 8 * (a.toNat % 4) + i < 8 * (a.toNat % 4) by omega,
      show i < 32 by omega]
  · rw [if_neg he, getLsbD_byteOf _ _ hi]
    by_cases hlt : 8 * (a'.toNat % 4) + i < 8 * (a.toNat % 4)
    · simp [hlt, show 8 * (a'.toNat % 4) + i < 32 by omega]
    · have hge : ¬ 8 * (a'.toNat % 4) + i - 8 * (a.toNat % 4) < 8 := by omega
      have hzero := BitVec.getLsbD_of_ge b (8 * (a'.toNat % 4) + i - 8 * (a.toNat % 4)) (by omega)
      simp [hlt, hge, hzero, show 8 * (a'.toNat % 4) + i < 32 by omega]

theorem append_byteOf {a : Word} (ha : aligned 4 a) (w : Word) :
    byteOf (a + 3#32) w ++ byteOf (a + 2#32) w ++ byteOf (a + 1#32) w ++ byteOf a w = w := by
  unfold aligned at ha
  have hmod {k : Nat} (hk : k < 4) : (a + BitVec.ofNat 32 k).toNat % 4 = k := by
    rw [BitVec.toNat_add, BitVec.toNat_ofNat]
    omega
  rw [byteOf, byteOf, byteOf, byteOf, hmod (k := 3) (by decide), hmod (k := 2) (by decide),
    hmod (k := 1) (by decide), ha]
  exact LittleEndian.append_extract w

def Machine.byte (s : Machine) (p : Word) : Byte := byteOf p (s.mem (frameOf p) (wordOf p))

namespace Machine

variable {s : Machine} {a p : Word}

abbrev word (s : Machine) (p : Word) : Word := LittleEndian.word s.byte p

theorem wordOf_phys (m : Mapping) (a : Word) : wordOf (m.phys a) = wordOf a := by
  apply BitVec.eq_of_toNat_eq
  rw [wordOf_toNat, wordOf_toNat, Mapping.phys, append_toNat, offsetOf_toNat]
  omega

theorem byteOf_phys (m : Mapping) (a w : Word) : byteOf (m.phys a) w = byteOf a w := by
  refine byteOf_congr ?_ w
  rw [Mapping.phys, append_toNat, offsetOf_toNat]
  omega

theorem translate_eq_some (h : s.translate a = some p) :
    ∃ m, s.walk (dirOf a) (tabOf a) = some m ∧ m.phys a = p :=
  Option.map_eq_some_iff.mp h

theorem byteAt_eq (h : s.translate a = some p) : s.byteAt a = .ok (s.byte p) := by
  obtain ⟨m, hm, rfl⟩ := translate_eq_some h
  rw [byteAt, access, hm, byte, byteOf_phys, wordOf_phys, Mapping.phys, frameOf_append]
  rfl

theorem run_loadByte (h : s.translate a = some p) : s.run (Code.loadByte a) = .ok (s.byte p, s) := by
  rw [Code.loadByte, run, Prog.run_perform, exec, byteAt_eq h]
  rfl

/-- The four bytes from `a` on are those from `p` on. -/
def Reads (s : Machine) (a p : Word) : Prop :=
  s.translate a = some p ∧ ∀ k < 4, s.translate (a + BitVec.ofNat 32 k) = some (p + BitVec.ofNat 32 k)

theorem aligned_phys (m : Mapping) (a : Word) : aligned 4 (m.phys a) ↔ aligned 4 a := by
  rw [aligned, aligned, Mapping.phys, append_toNat, offsetOf_toNat]
  omega

/-- An aligned word lies in one word of memory. -/
theorem byte_add {k : Nat} (hp : aligned 4 p) (hk : k < 4) :
    s.byte (p + BitVec.ofNat 32 k) = byteOf (p + BitVec.ofNat 32 k) (s.mem (frameOf p) (wordOf p)) := by
  have hlt := p.isLt
  have hadd : (p + BitVec.ofNat 32 k).toNat = p.toNat + k := by
    unfold aligned at hp
    rw [BitVec.toNat_add, BitVec.toNat_ofNat]
    omega
  unfold aligned at hp
  have hf : frameOf (p + BitVec.ofNat 32 k) = frameOf p := by
    apply BitVec.eq_of_toNat_eq
    rw [frameOf_toNat, frameOf_toNat, hadd]
    omega
  have hw : wordOf (p + BitVec.ofNat 32 k) = wordOf p := by
    apply BitVec.eq_of_toNat_eq
    rw [wordOf_toNat, wordOf_toNat, hadd]
    omega
  rw [byte, hf, hw]

theorem word_of_aligned (hp : aligned 4 p) : s.word p = s.mem (frameOf p) (wordOf p) := by
  rw [word, LittleEndian.word, byte_add hp (by decide), byte_add hp (by decide),
    byte_add hp (by decide), byte]
  exact append_byteOf hp _

theorem run_load_word (h : s.Reads a p) : s.run (Code.load a) = .ok (s.word p, s) := by
  by_cases ha : aligned 4 a
  · obtain ⟨m, hm, rfl⟩ := translate_eq_some h.1
    rw [run_load ha hm, word_of_aligned ((aligned_phys m a).mpr ha), wordOf_phys, Mapping.phys,
      frameOf_append]
  · rw [Code.load, run, Prog.run_perform, exec, if_neg ha, wordAt, byteAt_eq h.1,
      byteAt_eq (h.2 1 (by decide)), byteAt_eq (h.2 2 (by decide)), byteAt_eq (h.2 3 (by decide))]
    rfl

/-- Memory may differ, but not in the page tables. -/
structure SameTables (s t : Machine) : Prop where
  cr3 : t.cr3 = s.cr3
  mem : ∀ f, ¬ s.Unused f → ∀ i, t.mem f i = s.mem f i

namespace SameTables

variable {t u : Machine}

theorem pde (h : s.SameTables t) (hs : s.SelfMapped) (d : Index) : t.pde d = s.pde d := by
  rw [Machine.pde, Machine.pde, h.cr3, h.mem _ fun hu => hu.ne_cr3 hs rfl]

theorem unused (h : s.SameTables t) (hs : s.SelfMapped) (f : Frame) : t.Unused f ↔ s.Unused f := by
  simp only [Unused, h.pde hs]

theorem selfMapped (h : s.SameTables t) (hs : s.SelfMapped) : t.SelfMapped :=
  hs.of_pde h.cr3 (h.pde hs selfDir)

theorem walk (h : s.SameTables t) (hs : s.SelfMapped) : t.walk = s.walk := by
  funext d i
  refine walk_congr (h.pde hs d) fun hd => ?_
  rw [pte, pte, h.pde hs, h.mem _ fun hu => hu d hd rfl]

theorem trans (h : s.SameTables t) (hs : s.SelfMapped) (h' : t.SameTables u) : s.SameTables u := by
  refine ⟨h'.cr3.trans h.cr3, fun f hf i => ?_⟩
  rw [h'.mem f (fun hu => hf ((h.unused hs f).mp hu)), h.mem f hf]

theorem put {f : Frame} (hf : s.Unused f) (i : Index) (w : Word) : s.SameTables (s.put f i w) := by
  refine ⟨rfl, fun f' hf' j => poke_of_frame_ne ?_ _ _ _⟩
  rintro rfl
  exact hf' hf

end SameTables

/-- The page of `a` is mapped for writing, to that of `p`. -/
def Maps (s : Machine) (a p : Word) : Prop :=
  s.walk (dirOf a) (tabOf a) = some ⟨frameOf p, true⟩ ∧ offsetOf a = offsetOf p

theorem Maps.translate (h : s.Maps a p) : s.translate a = some p := by
  rw [Machine.translate, h.1, Option.map_some, Mapping.phys, h.2, frameOf_append_self]

def putAt (s : Machine) (p : Word) (b : Byte) : Machine :=
  s.put (frameOf p) (wordOf p) (setByte p (s.mem (frameOf p) (wordOf p)) b)

theorem Maps.putByte_eq (h : s.Maps a p) (b : Byte) : s.putByte a b = .ok (s.putAt p b) := by
  have hoff := congrArg BitVec.toNat h.2
  rw [offsetOf_toNat, offsetOf_toNat] at hoff
  have hw : wordOf a = wordOf p := by
    apply BitVec.eq_of_toNat_eq
    rw [wordOf_toNat, wordOf_toNat]
    omega
  have hset (w : Word) : setByte a w b = setByte p w b := by
    rw [setByte, setByte, show a.toNat % 4 = p.toNat % 4 by omega]
  rw [putByte, access, h.1, hw]
  show Except.ok (s.put (frameOf p) (wordOf p) (setByte a (s.mem (frameOf p) (wordOf p)) b)) = _
  rw [hset]
  rfl

theorem eq_of_parts {x : Word} (hf : frameOf x = frameOf p) (hw : wordOf x = wordOf p)
    (hm : x.toNat % 4 = p.toNat % 4) : x = p := by
  have hf' := congrArg BitVec.toNat hf
  have hw' := congrArg BitVec.toNat hw
  rw [frameOf_toNat, frameOf_toNat] at hf'
  rw [wordOf_toNat, wordOf_toNat] at hw'
  apply BitVec.eq_of_toNat_eq
  omega

theorem byte_putAt (s : Machine) (p : Word) (b : Byte) (x : Word) :
    (s.putAt p b).byte x = if x = p then b else s.byte x := by
  rw [byte, putAt, put_mem, poke]
  by_cases hfw : frameOf x = frameOf p ∧ wordOf x = wordOf p
  · rw [if_pos hfw, byteOf_setByte]
    by_cases hm : x.toNat % 4 = p.toNat % 4
    · rw [if_pos hm, if_pos (eq_of_parts hfw.1 hfw.2 hm)]
    · rw [if_neg hm, if_neg fun he => hm (by rw [he]), byte, hfw.1, hfw.2]
  · rw [if_neg hfw, if_neg fun he => hfw ⟨by rw [he], by rw [he]⟩, byte]

/-- The four bytes from `a` on are those from `p` on,
are mapped for writing and belong to no table. -/
structure Writes (s : Machine) (a p : Word) : Prop where
  maps : ∀ k < 4, s.Maps (a + BitVec.ofNat 32 k) (p + BitVec.ofNat 32 k)
  unused : ∀ k < 4, s.Unused (frameOf (p + BitVec.ofNat 32 k))

theorem Maps.of_sameTables {t : Machine} (h : s.Maps a p) (hst : s.SameTables t)
    (hs : s.SelfMapped) : t.Maps a p :=
  ⟨by rw [hst.walk hs, h.1], h.2⟩

theorem eq_add_iff {x : Word} {k : Nat} (hk : k < 4) : x = p + BitVec.ofNat 32 k ↔ (x - p).toNat = k := by
  have hx := x.isLt
  have hp := p.isLt
  rw [← BitVec.toNat_inj, BitVec.toNat_add, BitVec.toNat_sub, BitVec.toNat_ofNat]
  omega

theorem byte_put_aligned (hp : aligned 4 p) (v : Word) :
    (s.put (frameOf p) (wordOf p) v).byte = LittleEndian.put s.byte p v := by
  funext x
  have hx := x.isLt
  have hlt := p.isLt
  have hf : frameOf x = frameOf p ∧ wordOf x = wordOf p ↔ (x - p).toNat < 4 := by
    unfold aligned at hp
    rw [← BitVec.toNat_inj, ← BitVec.toNat_inj, frameOf_toNat, frameOf_toNat, wordOf_toNat, wordOf_toNat,
      BitVec.toNat_sub]
    omega
  rw [byte, put_mem, poke, LittleEndian.put]
  simp only [hf]
  by_cases hk : (x - p).toNat < 4
  · have hm : x.toNat % 4 = (x - p).toNat := by
      unfold aligned at hp
      rw [BitVec.toNat_sub] at hk ⊢
      omega
    rw [if_pos hk, if_pos hk, byteOf, hm]
  · rw [if_neg hk, if_neg hk, byte]

theorem run_store_word (h : s.Writes a p) (hs : s.SelfMapped) (v : Word) :
    ∃ t, s.run (Code.store a v) = .ok ((), t) ∧ t.byte = LittleEndian.put s.byte p v ∧ s.SameTables t ∧
      t.globals = s.globals := by
  have hmaps (k : Nat) (hk : k < 4) := h.maps k hk
  have hzero := hmaps 0 (by decide)
  have hunused := h.unused 0 (by decide)
  rw [BitVec.add_zero, BitVec.add_zero] at hzero
  rw [BitVec.add_zero] at hunused
  by_cases ha : aligned 4 a
  · have hp : aligned 4 p := by
      obtain ⟨m, hm, rfl⟩ := translate_eq_some hzero.translate
      exact (aligned_phys m a).mpr ha
    have hw : wordOf a = wordOf p := by
      obtain ⟨m, hm, rfl⟩ := translate_eq_some hzero.translate
      exact (wordOf_phys m a).symm
    refine ⟨_, run_store ha hzero.1 v, ?_, .put hunused _ _, rfl⟩
    rw [hw]
    exact byte_put_aligned hp v
  · -- four bytes, the lowest first
    have hput {u : Machine} (hu : s.SameTables u) {k : Nat} (hk : k < 4) (b : Byte) :
        u.putByte (a + BitVec.ofNat 32 k) b = .ok (u.putAt (p + BitVec.ofNat 32 k) b) ∧
          s.SameTables (u.putAt (p + BitVec.ofNat 32 k) b) :=
      ⟨((hmaps k hk).of_sameTables hu hs).putByte_eq b,
        hu.trans hs (.put ((hu.unused hs _).mpr (h.unused k hk)) _ _)⟩
    have h₀ : s.SameTables (s.putAt p (v.extractLsb' 0 8)) := .put hunused _ _
    obtain ⟨hr₁, h₁⟩ := hput h₀ (k := 1) (by decide) (v.extractLsb' 8 8)
    obtain ⟨hr₂, h₂⟩ := hput h₁ (k := 2) (by decide) (v.extractLsb' 16 8)
    obtain ⟨hr₃, h₃⟩ := hput h₂ (k := 3) (by decide) (v.extractLsb' 24 8)
    refine ⟨_, ?_, ?_, h₃, rfl⟩
    · rw [Code.store, run, Prog.run_perform, exec, if_neg ha, putWord, hzero.putByte_eq]
      show ((s.putAt p (v.extractLsb' 0 8)).putByte (a + BitVec.ofNat 32 1) (v.extractLsb' 8 8) >>=
        _).map _ = _
      rw [hr₁]
      show (Machine.putByte _ (a + BitVec.ofNat 32 2) (v.extractLsb' 16 8) >>= _).map _ = _
      rw [hr₂]
      show (Machine.putByte _ (a + BitVec.ofNat 32 3) (v.extractLsb' 24 8)).map _ = _
      rw [hr₃]
      rfl
    · funext x
      rw [byte_putAt, byte_putAt, byte_putAt, byte_putAt, LittleEndian.put]
      simp only [eq_add_iff (k := 3) (by decide), eq_add_iff (k := 2) (by decide),
        eq_add_iff (k := 1) (by decide)]
      have hx : x = p ↔ (x - p).toNat = 0 := by
        have hadd := eq_add_iff (x := x) (p := p) (k := 0) (by decide)
        rwa [BitVec.add_zero] at hadd
      simp only [hx]
      by_cases hk : (x - p).toNat < 4
      · rw [if_pos hk]
        generalize (x - p).toNat = k at hk
        obtain rfl | rfl | rfl | rfl : k = 0 ∨ k = 1 ∨ k = 2 ∨ k = 3 := by omega
        · rfl
        · rfl
        · rfl
        · rfl
      · rw [if_neg (by omega), if_neg (by omega), if_neg (by omega), if_neg (by omega), if_neg hk]

theorem frameOf_add {k : Nat} (hk : a.toNat % 4096 + k < 4096) :
    frameOf (a + BitVec.ofNat 32 k) = frameOf a := by
  have hlt := a.isLt
  apply BitVec.eq_of_toNat_eq
  rw [frameOf_toNat, frameOf_toNat, BitVec.toNat_add, BitVec.toNat_ofNat]
  omega

theorem Maps.offset (h : s.Maps a p) : a.toNat % 4096 = p.toNat % 4096 := by
  have hoff := congrArg BitVec.toNat h.2
  rwa [offsetOf_toNat, offsetOf_toNat] at hoff

theorem Maps.add (h : s.Maps a p) {k : Nat} (hk : p.toNat % 4096 + k < 4096) :
    s.Maps (a + BitVec.ofNat 32 k) (p + BitVec.ofNat 32 k) := by
  have hoff := h.offset
  obtain ⟨hd, hi⟩ := frameOf_eq_iff.mp (frameOf_add (a := a) (k := k) (by omega))
  refine ⟨by rw [hd, hi, h.1, frameOf_add hk], ?_⟩
  apply BitVec.eq_of_toNat_eq
  simp only [offsetOf_toNat, BitVec.toNat_add, BitVec.toNat_ofNat]
  omega

theorem Maps.reads (h : s.Maps a p) {k : Nat} (hk : p.toNat % 4096 + k + 4 ≤ 4096) :
    s.Reads (a + BitVec.ofNat 32 k) (p + BitVec.ofNat 32 k) := by
  refine ⟨(h.add (by omega)).translate, fun j hj => ?_⟩
  rw [BitVec.add_assoc, BitVec.add_assoc, ← BitVec.ofNat_add]
  exact (h.add (by omega)).translate

theorem Maps.writes (h : s.Maps a p) {k : Nat} (hk : p.toNat % 4096 + k + 4 ≤ 4096)
    (hu : s.Unused (frameOf p)) : s.Writes (a + BitVec.ofNat 32 k) (p + BitVec.ofNat 32 k) := by
  refine ⟨fun j hj => ?_, fun j hj => ?_⟩
  · rw [BitVec.add_assoc, BitVec.add_assoc, ← BitVec.ofNat_add]
    exact h.add (by omega)
  · rwa [BitVec.add_assoc, ← BitVec.ofNat_add, frameOf_add (by omega)]

end Machine

section Image

variable {image : KernelImage} {s t : Machine}

theorem Tables.of_sameTables (h : Tables image s) (ht : s.SameTables t)
    (hk : t.globals.kernelPTIndex = s.globals.kernelPTIndex) : Tables image t := by
  have hp (d : Index) : t.pde d = s.pde d := ht.pde h.editable.toSelfMapped d
  have htable1 : ¬ s.Unused image.table1Frame := fun hu =>
    hu 768#10 (by rw [h.kernelMapped.pde_768, present_or_three]) h.kernelMapped.frameOf_pde_768
  refine ⟨⟨ht.cr3.trans h.kernelMapped.cr3, fun d hd => ?_, fun i hi => ?_⟩, ?_, ?_, ?_, ?_⟩
  · rw [hp, h.kernelMapped.directory d hd]
  · rw [ht.mem _ htable1, h.kernelMapped.table1 i hi]
  · simpa only [Machine.TablesDistinct, hp] using h.distinct
  · simpa only [hp] using h.writable
  · simpa only [hp, hk] using h.source
  · simpa only [hp, hk] using h.used

/-- What is not paging's does not matter to it. -/
theorem Paged.of_sameTables (h : Paged image s) (ht : s.SameTables t)
    (hm : t.globals.virtualMmap = s.globals.virtualMmap)
    (hc : t.globals.curVirtaddrIdx = s.globals.curVirtaddrIdx)
    (hk : t.globals.kernelPTIndex = s.globals.kernelPTIndex) : Paged image t := by
  have hs := h.tables.editable.toSelfMapped
  refine ⟨h.tables.of_sameTables ht hk, by rw [hc]; exact h.cursor, fun page hlo hhi hp => ?_,
    fun d hd => ?_⟩
  · rw [Machine.mapped, ht.walk hs] at hp
    rw [hm]
    exact h.bitmap page hlo hhi hp
  · rw [ht.pde hs] at hd
    exact h.high d hd

end Image

end PekOS
