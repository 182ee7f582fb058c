import PekOS.Firmware

/-! The tables `init_rsdt` makes accessible. -/

namespace PekOS

open OpTree

variable {image : KernelImage} {s₀ s : Machine} {root : Word}

/-- Every pointer of the root table has become the virtual address of the table
it pointed to. -/
theorem initRsdt_entries (hb : Booted image s₀) (hfind : s₀.run findRoot = .ok (root, s))
    (ht : RootTable image s root)
    (hheader : ∀ i < s.rootCount root, (s.rootEntry root i).toNat % 4096 + 36 ≤ 4096) :
    ∃ t, s₀.run (initRsdt image) = .ok ((), t) ∧ ∀ i < s.rootCount root, ∃ v,
      t.run (Code.load (slot t.globals.rootTable i)) = .ok (v, t) ∧
        t.run (getPhysaddr v) = .ok (s.rootEntry root i, t) := by
  obtain ⟨t, hr, h⟩ := run_initRsdt hb hfind
    ⟨ht, fun i hi => Nat.le_trans (Nat.add_le_add_left (by decide) _) (hheader i hi)⟩
  refine ⟨t, hr, fun i hi => ⟨s.entryTable root i, ?_, ?_⟩⟩
  · have hentry := ht.entry_le hi
    have hin := ht.inPage
    have hle := RootTable.le_stride s.globals i
    rw [h.rootTable, slot, Machine.run_load_word (h.table.reads (by omega))]
    exact congrArg (fun w => Except.ok (w, t)) (h.slots i hi)
  · have hm := h.tables i hi
    rw [h.paged.tables.editable.toSelfMapped.run_getPhysaddr, Machine.physOf, hm.translate,
      Option.getD_some]

/-- An RSDP of revision 2 and an XSDT with two entries. -/
def xsdtFirmware : RootFirmware where
  words := [(0x0#32, 0x20445352#32), (0x4#32, 0x20525450#32), (0x8#32, 0x3B#32), (0xC#32, 0x02000000#32),
    (0x14#32, 36#32), (0x18#32, 0x00800000#32), (0x800000#32, 0x54445358#32), (0x800004#32, 52#32),
    (0x800024#32, 0x00801000#32), (0x80002C#32, 0x00802000#32), (0x801000#32, 0x50434146#32),
    (0x801004#32, 116#32), (0x802000#32, 0x43495041#32), (0x802004#32, 44#32)]
  beside := rfl
  segment := 0#16
  segment_lt := Firmware.zeroSegment_lt
  segment_eq := by decide
  signature := by decide
  checksum := by decide
  outside := by decide
  length := by decide
  inPage := by decide

theorem initRsdt_entries_xsdt : ∃ s₀ s t : Machine, s₀.run findRoot = .ok (0x00800000#32, s) ∧
    s₀.run (initRsdt alignedImage) = .ok ((), t) ∧ ∀ i < 2, ∃ v,
      t.run (Code.load (slot t.globals.rootTable i)) = .ok (v, t) ∧
        t.run (getPhysaddr v) = .ok (BitVec.ofNat 32 (0x00801000 + 0x1000 * i), t) := by
  obtain ⟨s₀, s, hb, hfind, -, -, ht, hcount, hentries⟩ := xsdtFirmware.exists_rootTable alignedImage
  rw [show xsdtFirmware.root = 0x00800000#32 by decide] at hfind ht hcount hentries
  rw [show xsdtFirmware.count = 2 by decide] at hcount hentries
  have hentry : ∀ i < 2, s.rootEntry 0x00800000#32 i = BitVec.ofNat 32 (0x00801000 + 0x1000 * i) :=
    fun i hi =>
    (hentries i hi).trans
      ((by decide : ∀ i < 2, xsdtFirmware.entry i = BitVec.ofNat 32 (0x00801000 + 0x1000 * i)) i hi)
  obtain ⟨t, hr, h⟩ := initRsdt_entries hb hfind ht fun i hi => by
    rw [hcount] at hi
    rw [hentry i hi, BitVec.toNat_ofNat]
    omega
  refine ⟨s₀, s, t, hfind, hr, fun i hi => ?_⟩
  obtain ⟨v, hv, hp⟩ := h i (hcount ▸ hi)
  exact ⟨v, hv, hentry i hi ▸ hp⟩

namespace Machine

def frameAt (s : Machine) (page : Frame) : Option Frame :=
  (s.walk (page.extractLsb' 10 10) (page.extractLsb' 0 10)).map fun m => m.frame

theorem frameAt_frameOf (s : Machine) (v : Word) :
    s.frameAt (frameOf v) = (s.walk (dirOf v) (tabOf v)).map fun m => m.frame := by
  have hd : (frameOf v).extractLsb' 10 10 = dirOf v := by
    apply BitVec.eq_of_toNat_eq
    rw [BitVec.extractLsb'_toNat, frameOf_toNat, dirOf_toNat, Nat.shiftRight_eq_div_pow]
    have hv := v.isLt
    omega
  have hi : (frameOf v).extractLsb' 0 10 = tabOf v := by
    apply BitVec.eq_of_toNat_eq
    rw [BitVec.extractLsb'_toNat, frameOf_toNat, tabOf_toNat, Nat.shiftRight_eq_div_pow]
    omega
  rw [frameAt, hd, hi]

theorem translate_eq_frameAt (s : Machine) (v : Word) :
    s.translate v = (s.frameAt (frameOf v)).map fun f => f ++ offsetOf v := by
  rw [translate, frameAt_frameOf, Option.map_map]
  rfl

/-- The `n` bytes at `a` are those at `p`. -/
def Shows (s : Machine) (a p : Word) (n : Nat) : Prop :=
  ∀ k < n, s.translate (a + BitVec.ofNat 32 k) = some (p + BitVec.ofNat 32 k)

/-- A stretch of memory that begins in the right page is shown if the pages that follow are right.
-/
theorem shows_iff {s : Machine} {a p : Word} (h : s.Maps a p) {n : Nat} : s.Shows a p n ↔
    ∀ m, 0 < m → 4096 * m < p.toNat % 4096 + n →
      s.frameAt (frameOf a + BitVec.ofNat 20 m) = some (frameOf p + BitVec.ofNat 20 m) := by
  have hoff := h.offset
  have hfirst : s.frameAt (frameOf a) = some (frameOf p) := by rw [frameAt_frameOf, h.1, Option.map_some]
  -- where the `k`-th byte lies, in the `m`-th page
  have hpage {x : Word} {k m : Nat} (hm : m = (x.toNat % 4096 + k) / 4096) :
      frameOf (x + BitVec.ofNat 32 k) = frameOf x + BitVec.ofNat 20 m := by
    apply BitVec.eq_of_toNat_eq
    simp only [frameOf_toNat, BitVec.toNat_add, BitVec.toNat_ofNat]
    omega
  have hlow (k : Nat) : offsetOf (a + BitVec.ofNat 32 k) = offsetOf (p + BitVec.ofNat 32 k) := by
    apply BitVec.eq_of_toNat_eq
    simp only [offsetOf_toNat, BitVec.toNat_add, BitVec.toNat_ofNat]
    omega
  constructor
  · intro hs m hm hlt
    have htranslate := hs (4096 * m - p.toNat % 4096) (by omega)
    rw [translate_eq_frameAt, hpage (m := m) (by omega), Option.map_eq_some_iff] at htranslate
    obtain ⟨f, hf, hbytes⟩ := htranslate
    rw [hf, ← hpage (x := p) (k := 4096 * m - p.toNat % 4096) (by omega), ← hbytes, frameOf_append]
  · intro hpages k hk
    have hat : s.frameAt (frameOf (a + BitVec.ofNat 32 k)) = some (frameOf (p + BitVec.ofNat 32 k)) := by
      rw [hpage (m := (p.toNat % 4096 + k) / 4096) (by omega), hpage (x := p) rfl]
      rcases Nat.eq_zero_or_pos ((p.toNat % 4096 + k) / 4096) with hzero | hpos
      · rw [hzero, BitVec.add_zero, BitVec.add_zero, hfirst]
      · exact hpages _ hpos (by omega)
    rw [translate_eq_frameAt, hat, Option.map_some, hlow, frameOf_append_self]

/-- What `init_rsdt` leaves behind a page: the root table or a listed table, if the
page is given to it, and what boot has put there otherwise. -/
def LeavesBehind (s : Machine) (root : Word) (page f : Frame) : Prop :=
  s.frameAt page = some f ∨ page = BitVec.ofNat 20 (s.servedPage 0) ∧ f = frameOf root ∨
    ∃ j < s.rootCount root, page = BitVec.ofNat 20 (s.servedPage (j + 1)) ∧
    f = frameOf (s.rootEntry root j)

def tableLength (s : Machine) (p : Word) : Nat := (s.word (p + 4#32)).toNat

/-- The root table and all listed tables are accessible, whole. -/
def TablesShown (s t : Machine) (root : Word) : Prop :=
  t.Shows (s.rootTable root) root (s.tableLength root) ∧
    ∀ i < s.rootCount root, t.Shows (s.entryTable root i) (s.rootEntry root i)
    (s.tableLength (s.rootEntry root i))

end Machine

section Served

variable {t : Machine} {n : Nat}

theorem frameOf_pageAddr {page : Nat} (h : page < 1024 * 1024) :
    frameOf (pageAddr page) = BitVec.ofNat 20 page := by
  apply BitVec.eq_of_toNat_eq
  rw [frameOf_toNat, pageAddr_toNat h, BitVec.toNat_ofNat]
  omega

theorem frameOf_entryTable (root : Word) {i : Nat} (h : s.servedPage (i + 1) < 1024 * 1024) :
    frameOf (s.entryTable root i) = BitVec.ofNat 20 (s.servedPage (i + 1)) := by
  rw [Machine.entryTable, (pageAddr_add_low h _).1, frameOf_pageAddr h]

/-- A page that is accessible now has been before, or is in the window, or has been served. -/
theorem Rewritten.frameAt_cases (h : Rewritten image s root n t) {page f : Frame}
    (hf : t.frameAt page = some f) :
    s.frameAt page = some f ∨ 0xFFC00 ≤ page.toNat ∨
    ∃ j ≤ n, page = frameOf (pageAddr (s.servedPage j)) := by
  rw [Machine.frameAt, Option.map_eq_some_iff] at hf
  obtain ⟨m, hm, rfl⟩ := hf
  have hne : t.walk (page.extractLsb' 10 10) (page.extractLsb' 0 10) ≠ none := by
    rw [hm]
    exact Option.some_ne_none m
  by_cases hs : s.walk (page.extractLsb' 10 10) (page.extractLsb' 0 10) = none
  · have hpage := page.isLt
    rcases h.new _ _ hs hne with hd | ⟨j, hj, hd, hi⟩
    · refine Or.inr (Or.inl ?_)
      have hself := congrArg BitVec.toNat hd
      rw [BitVec.extractLsb'_toNat, selfDir, BitVec.toNat_ofNat, Nat.shiftRight_eq_div_pow] at hself
      omega
    · refine Or.inr (Or.inr ⟨j, hj, BitVec.eq_of_toNat_eq ?_⟩)
      have hd' := congrArg BitVec.toNat hd
      have hi' := congrArg BitVec.toNat hi
      rw [BitVec.extractLsb'_toNat, dirOf_toNat, Nat.shiftRight_eq_div_pow] at hd'
      rw [BitVec.extractLsb'_toNat, tabOf_toNat, Nat.shiftRight_eq_div_pow] at hi'
      rw [frameOf_toNat]
      omega
  · refine Or.inl ?_
    rw [Machine.frameAt, ← h.kept _ _ hs, hm, Option.map_some]

/-- The page after the last that can be served to a table. -/
theorem Rewritten.frameAt_beyond (h : Rewritten image s root (s.rootCount root) t) (hb : Booted image s₀)
    (ha : s₀.Alike s) (ht : RootTable image s root) : t.frameAt 0xC07F8#20 = none := by
  have hn := ht.rootCount_le
  by_contra hne
  obtain ⟨f, hf⟩ := Option.ne_none_iff_exists'.mp hne
  rcases h.frameAt_cases hf with hs | hwin | ⟨j, hj, hpage⟩
  · rw [Machine.frameAt, ha.walk, Option.map_eq_some_iff] at hs
    obtain ⟨m, hm, -⟩ := hs
    have hmapped : s₀.mapped 0xC07F8 = true := Option.isSome_iff_exists.mpr ⟨m, hm⟩
    have hmarked := hb.paged.bitmap 0xC07F8 (by decide) (by decide) hmapped
    rw [hb.clear (by decide) (by decide)] at hmarked
    exact Bool.noConfusion hmarked
  · exact absurd hwin (by decide)
  · have hle := (hb.servedPage_le (k := j) (by omega)).2
    rw [← ha.servedPage] at hle
    have hnat := congrArg BitVec.toNat hpage
    rw [frameOf_toNat, pageAddr_toNat (by omega), BitVec.toNat_ofNat] at hnat
    omega

theorem Rewritten.frameAt_iff (h : Rewritten image s root (s.rootCount root) t)
    (hb : Booted image s₀) (ha : s₀.Alike s) (ht : RootTable image s root) {page f : Frame}
    (hpage : page.toNat < 0xFFC00) : t.frameAt page = some f ↔ s.LeavesBehind root page f := by
  have hn := ht.rootCount_le
  have hserved {j : Nat} (hj : j ≤ s.rootCount root) : s.servedPage j < 1024 * 1024 := by
    have hle := (hb.servedPage_le (k := j) (by omega)).2
    rw [ha.servedPage]
    omega
  have hroot : t.frameAt (BitVec.ofNat 20 (s.servedPage 0)) = some (frameOf root) := by
    have hm := h.table
    rw [← frameOf_pageAddr (hserved (Nat.zero_le _)),
      ← (pageAddr_add_low (hserved (Nat.zero_le _)) root).1, ← Machine.rootTable,
      Machine.frameAt_frameOf, hm.1, Option.map_some]
  have htable {j : Nat} (hj : j < s.rootCount root) :
      t.frameAt (BitVec.ofNat 20 (s.servedPage (j + 1))) = some (frameOf (s.rootEntry root j)) := by
    rw [← frameOf_entryTable root (hserved hj), Machine.frameAt_frameOf, (h.tables j hj).1,
      Option.map_some]
  constructor
  · intro hf
    rcases h.frameAt_cases hf with hs | hwin | ⟨j, hj, rfl⟩
    · exact Or.inl hs
    · omega
    · rw [frameOf_pageAddr (hserved hj)] at hf ⊢
      cases j with
      | zero =>
        rw [hroot] at hf
        exact Or.inr (Or.inl ⟨rfl, (Option.some.inj hf).symm⟩)
      | succ j =>
        rw [htable hj] at hf
        exact Or.inr (Or.inr ⟨j, hj, rfl, (Option.some.inj hf).symm⟩)
  · rintro (hs | ⟨rfl, rfl⟩ | ⟨j, hj, rfl, rfl⟩)
    · rw [Machine.frameAt, Option.map_eq_some_iff] at hs
      obtain ⟨m, hm, rfl⟩ := hs
      rw [Machine.frameAt, h.kept _ _ (by rw [hm]; exact Option.some_ne_none m), hm, Option.map_some]
    · exact hroot
    · exact htable hj

end Served

section Shown

variable {t : Machine}

theorem Rewritten.shows_table_iff (h : Rewritten image s root (s.rootCount root) t) (hb : Booted image s₀)
    (ha : s₀.Alike s) (ht : RootTable image s root) {i n : Nat} (hi : i < s.rootCount root) :
    t.Shows (s.entryTable root i) (s.rootEntry root i) n ↔
      ∀ m, 0 < m → 4096 * m < (s.rootEntry root i).toNat % 4096 + n →
        s.servedPage (i + 1) + m < 0xC07F8 ∧
        s.LeavesBehind root (BitVec.ofNat 20 (s.servedPage (i + 1) + m))
          (frameOf (s.rootEntry root i) + BitVec.ofNat 20 m) := by
  have hn := ht.rootCount_le
  have hle : s.servedPage (i + 1) ≤ 0xC07F7 := by
    have hle := (hb.servedPage_le (k := i + 1) (by omega)).2
    rw [ha.servedPage]
    omega
  have hframe := frameOf_entryTable root (show s.servedPage (i + 1) < 1024 * 1024 by omega)
  rw [Machine.shows_iff (h.tables i hi), hframe]
  constructor
  · intro hpages m hm hlt
    have hbelow : s.servedPage (i + 1) + m < 0xC07F8 := by
      by_contra hge
      have hbeyond := hpages (0xC07F8 - s.servedPage (i + 1)) (by omega) (by omega)
      rw [← BitVec.ofNat_add,
        show s.servedPage (i + 1) + (0xC07F8 - s.servedPage (i + 1)) = 0xC07F8 by omega,
        show BitVec.ofNat 20 0xC07F8 = 0xC07F8#20 from rfl, h.frameAt_beyond hb ha ht] at hbeyond
      exact Option.some_ne_none _ hbeyond.symm
    refine ⟨hbelow, (h.frameAt_iff hb ha ht ?_).mp ?_⟩
    · rw [BitVec.toNat_ofNat]
      omega
    · rw [BitVec.ofNat_add]
      exact hpages m hm hlt
  · intro hall m hm hlt
    obtain ⟨hbelow, hleaves⟩ := hall m hm hlt
    rw [← BitVec.ofNat_add]
    exact (h.frameAt_iff hb ha ht (by rw [BitVec.toNat_ofNat]; omega)).mpr hleaves

/-- The tables are shown whole if and only if what they need of the pages after their
first one is left there. -/
theorem tablesShown_iff (n : Nat) (hb : Booted image s₀) (hfind : s₀.run findRoot = .ok (root, s))
    (hp : Placed image s root) : ∃ t, Ran image n (initRsdt image) s₀ () t ∧ (s.TablesShown t root ↔
      ∀ i < s.rootCount root, ∀ m, 0 < m →
        4096 * m < (s.rootEntry root i).toNat % 4096 + s.tableLength (s.rootEntry root i) →
          s.servedPage (i + 1) + m < 0xC07F8 ∧
          s.LeavesBehind root (BitVec.ofNat 20 (s.servedPage (i + 1) + m))
            (frameOf (s.rootEntry root i) + BitVec.ofNat 20 m)) := by
  obtain ⟨t, hr, h⟩ := run_initRsdt hb hfind hp
  have ha := alike_of_findRoot hfind
  have hroot : t.Shows (s.rootTable root) root (s.tableLength root) := by
    intro k hk
    have hin := hp.inPage
    rw [Machine.tableLength] at hk
    exact (h.table.add (by omega)).translate
  refine ⟨t, ran_of_run hr, ?_⟩
  constructor
  · intro hall i hi
    exact (h.shows_table_iff hb ha hp.toRootTable hi).mp (hall.2 i hi)
  · intro hall
    exact ⟨hroot, fun i hi => (h.shows_table_iff hb ha hp.toRootTable hi).mpr (hall i hi)⟩

theorem tablesShown_xsdt : ∃ s₀ s t : Machine, s₀.run findRoot = .ok (0x00800000#32, s) ∧
    Ran alignedImage 2 (initRsdt alignedImage) s₀ () t ∧ s.TablesShown t 0x00800000#32 := by
  obtain ⟨s₀, s, hb, hfind, -, hbyte, ht, hcount, hentries⟩ := xsdtFirmware.exists_rootTable alignedImage
  rw [show xsdtFirmware.root = 0x00800000#32 by decide] at hfind ht hcount hentries
  rw [show xsdtFirmware.count = 2 by decide] at hcount hentries
  have hentry : ∀ i < 2, s.rootEntry 0x00800000#32 i = BitVec.ofNat 32 (0x00801000 + 0x1000 * i) :=
    fun i hi =>
    (hentries i hi).trans
      ((by decide : ∀ i < 2, xsdtFirmware.entry i = BitVec.ofNat 32 (0x00801000 + 0x1000 * i)) i hi)
  have hshort : ∀ i < 2, s.tableLength (s.rootEntry 0x00800000#32 i) ≤ 4096 := by
    intro i hi
    have hword {p : Word} (hp : ∀ k < 4, BesideKernel (p + BitVec.ofNat 32 k)) :
        s.word p = LittleEndian.word xsdtFirmware.byte p :=
      LittleEndian.word_congr (hbyte p (by simpa using hp 0 (by decide))) fun k hk => hbyte _ (hp k hk)
    rw [hentry i hi, Machine.tableLength]
    rcases (by omega : i = 0 ∨ i = 1) with rfl | rfl
    · rw [hword (by decide)]
      decide
    · rw [hword (by decide)]
      decide
  have hoffset : ∀ i < 2, (s.rootEntry 0x00800000#32 i).toNat % 4096 = 0 := by
    intro i hi
    rw [hentry i hi, BitVec.toNat_ofNat]
    omega
  obtain ⟨t, hr, hshown⟩ := tablesShown_iff 2 hb hfind ⟨ht, fun i hi => by
    rw [hoffset i (hcount ▸ hi)]
    omega⟩
  refine ⟨s₀, s, t, hfind, hr, hshown.mpr fun i hi m hm hlt => ?_⟩
  have hle := hshort i (hcount ▸ hi)
  rw [hoffset i (hcount ▸ hi)] at hlt
  omega

end Shown

/-- Boot puts no frame from 4 MiB on behind a page below the window. -/
theorem Booted.frameAt_lt (hb : Booted image s₀) {page f : Frame} (hpage : page.toNat < 0xFFC00)
    (hf : s₀.frameAt page = some f) : f.toNat < 0x400 := by
  obtain ⟨m, hl, hi⟩ := hb.initialised
  rw [Machine.frameAt, Option.map_eq_some_iff] at hf
  obtain ⟨x, hx, rfl⟩ := hf
  obtain ⟨hd, -, hframe⟩ := Machine.of_walk hx
  rcases hi.present_pde_iff.mp hd with hself | h768
  · have hdir := congrArg BitVec.toNat hself
    rw [BitVec.extractLsb'_toNat, selfDir, BitVec.toNat_ofNat, Nat.shiftRight_eq_div_pow] at hdir
    omega
  · rw [hframe, h768, Machine.pte, hi.kernelMapped.frameOf_pde_768, hi.table1]
    exact frameOf_bootPte_lt _

/-- An RSDP of revision 0 and an RSDT with one entry, a table that reaches into another page. -/
def crossingFirmware : RootFirmware where
  words := [(0x0#32, 0x20445352#32), (0x4#32, 0x20525450#32), (0x8#32, 0x61#32), (0x10#32, 0x00800000#32),
    (0x800000#32, 0x54445352#32), (0x800004#32, 40#32), (0x800024#32, 0x00801F80#32),
    (0x801F80#32, 0x50434146#32), (0x801F84#32, 244#32)]
  beside := rfl
  segment := 0#16
  segment_lt := Firmware.zeroSegment_lt
  segment_eq := by decide
  signature := by decide
  checksum := by decide
  outside := by decide
  length := by decide
  inPage := by decide

/-- Of that table only the first page is mapped. -/
theorem table_not_shown :
    ∃ s₀ s t : Machine, Booted alignedImage s₀ ∧ s₀.run findRoot = .ok (0x00800000#32, s) ∧
    (∀ n, Ran alignedImage n (initRsdt alignedImage) s₀ () t) ∧ RootTable alignedImage s 0x00800000#32 ∧
      ¬ s.TablesShown t 0x00800000#32 := by
  obtain ⟨s₀, s, t, hb, hfind, -, hbyte, ht, hcount, hentries, hr, h, -⟩ :=
    crossingFirmware.exists_initRsdt alignedImage (by decide)
  have ha := alike_of_findRoot hfind
  have hroot : crossingFirmware.root = 0x00800000#32 := by decide
  have hcount' : s.rootCount 0x00800000#32 = 1 := hroot ▸ hcount.trans (by decide)
  have hentry : s.rootEntry 0x00800000#32 0 = 0x00801F80#32 :=
    hroot ▸ (hentries 0 (by decide)).trans (by decide)
  have hlength : s.tableLength 0x00801F80#32 = 244 := by
    have hword : s.word (0x00801F80#32 + 4#32) = 244#32 :=
      (LittleEndian.word_congr (hbyte _ (by decide)) fun k hk =>
        hbyte _ (by revert k; decide)).trans (by decide)
    rw [Machine.tableLength, hword]
    rfl
  rw [hroot] at hfind ht h
  rw [show crossingFirmware.count = 1 by decide, ← hcount'] at h
  refine ⟨s₀, s, t, hb, hfind, fun n => ran_of_run hr, ht, fun hshown => ?_⟩
  have htable := hshown.2 0 (by rw [hcount']; decide)
  rw [h.shows_table_iff hb ha ht (by rw [hcount']; decide), hentry, hlength] at htable
  obtain ⟨hlt, hkeeps | ⟨-, hframe⟩ | ⟨j, hj, -, hframe⟩⟩ := htable 1 (by decide) (by decide)
  · rw [Machine.frameAt, ha.walk, ← Machine.frameAt] at hkeeps
    exact absurd (hb.frameAt_lt (by rw [BitVec.toNat_ofNat]; omega) hkeeps) (by decide)
  · exact absurd hframe (by decide)
  · obtain rfl : j = 0 := by omega
    rw [hentry] at hframe
    exact absurd hframe (by decide)

end PekOS
