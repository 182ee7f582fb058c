import PekOS.Rsdt
import PekOS.Bytes

/-! The loops of `init_rsdt`: every entry of the root table is replaced by the
virtual address its table gets, in the table that is being read. -/

namespace PekOS

open OpTree FirstFit

/-- The distance of the entries of a root table, in pointers. -/
def Globals.stride (g : Globals) : Nat := if g.acpiVersion then 2 else 1

def Globals.rootTable (g : Globals) : Word := if g.acpiVersion then g.xsdt else g.rsdt

/-- The `j`-th pointer after the header. -/
def slot (table : Word) (j : Nat) : Word := table + BitVec.ofNat 32 (36 + 4 * j)

namespace Machine

variable (s : Machine)

def rootCount (root : Word) : Nat :=
  ((s.word (root + 4#32) - 36#32) / BitVec.ofNat 32 (4 * s.globals.stride)).toNat

/-- The `i`-th entry: of the XSDT the low half. -/
def rootEntry (root : Word) (i : Nat) : Word := s.word (slot root (s.globals.stride * i))

/-- The page `find_free_virtaddr` serves after `k` others. -/
def servedPage (k : Nat) : Nat := s.globals.freePages.getD k 0

variable {s} in
theorem servedPage_eq {k : Nat} (hk : k < s.globals.freePages.length) :
    s.servedPage k = s.globals.freePages[k] := by
  rw [servedPage, List.getD_eq_getElem?_getD, List.getElem?_eq_getElem hk, Option.getD_some]

/-- Where `init_rsdt` makes the root table accessible, and the table of entry `i`. -/
def rootTable (root : Word) : Word := pageAddr (s.servedPage 0) + (root &&& 0xFFF#32)

def entryTable (root : Word) (i : Nat) : Word :=
  pageAddr (s.servedPage (i + 1)) + (s.rootEntry root i &&& 0xFFF#32)

end Machine

section Addresses

variable {p : Word} {page : Nat}

theorem slot_eq (table : Word) (j : Nat) : table + 36#32 + 4#32 * BitVec.ofNat 32 j = slot table j := by
  have ht := table.isLt
  apply BitVec.eq_of_toNat_eq
  simp only [slot, BitVec.toNat_add, BitVec.toNat_mul, BitVec.toNat_ofNat]
  omega

theorem slot_add (table : Word) (j k : Nat) :
    slot table j + BitVec.ofNat 32 k = table + BitVec.ofNat 32 (36 + 4 * j + k) := by
  rw [slot, BitVec.add_assoc, ← BitVec.ofNat_add]

theorem aligned_and_mask (p : Word) : aligned 4096 (p &&& ~~~0xFFF#32) := by
  rw [aligned, and_mask_toNat, Nat.mul_mod_left]

theorem frameOf_and_mask (p : Word) : frameOf (p &&& ~~~0xFFF#32) = frameOf p := by
  apply BitVec.eq_of_toNat_eq
  rw [frameOf_toNat, frameOf_toNat, and_mask_toNat, Nat.mul_div_cancel _ (by decide)]

/-- The address in the page of `page` that lies as `p` does in its own. -/
theorem pageAddr_add_low (hpage : page < 1024 * 1024) (p : Word) :
    frameOf (pageAddr page + (p &&& 0xFFF#32)) = frameOf (pageAddr page) ∧
      offsetOf (pageAddr page + (p &&& 0xFFF#32)) = offsetOf p := by
  rw [← frameOf_append_offsetOf (aligned_pageAddr hpage), frameOf_append, offsetOf_append]
  exact ⟨rfl, rfl⟩

end Addresses

/-- The root table lies in one page, outside the kernel. -/
structure RootTable (image : KernelImage) (s : Machine) (root : Word) : Prop where
  length : 36 ≤ (s.word (root + 4#32)).toNat
  inPage : root.toNat % 4096 + (s.word (root + 4#32)).toNat ≤ 4096
  outside : root.toNat < 0x100000 ∨ image.size ≤ root.toNat

/-- There are pages for the root table and the tables of `n` entries. -/
def Enough (s : Machine) (n : Nat) : Prop :=
  ∀ k ≤ n, k < s.globals.freePages.length ∧ s.servedPage k < 0xFFC00

namespace RootTable

variable {image : KernelImage} {s : Machine} {root : Word}

theorem stride_cases (g : Globals) : g.stride = 1 ∨ g.stride = 2 := by
  unfold Globals.stride
  split
  · exact Or.inr rfl
  · exact Or.inl rfl

theorem le_stride (g : Globals) (i : Nat) : i ≤ g.stride * i := by
  rcases stride_cases g with hs | hs <;> rw [hs] <;> omega

theorem rootCount_eq (h : RootTable image s root) :
    s.rootCount root = ((s.word (root + 4#32)).toNat - 36) / (4 * s.globals.stride) := by
  have hstride : (BitVec.ofNat 32 (4 * s.globals.stride)).toNat = 4 * s.globals.stride := by
    rcases stride_cases s.globals with hs | hs <;> rw [hs] <;> rfl
  have hle : 36#32 ≤ s.word (root + 4#32) := h.length
  rw [Machine.rootCount, BitVec.toNat_udiv, BitVec.toNat_sub_of_le hle, hstride]
  rfl

theorem entry_le (h : RootTable image s root) {i : Nat} (hi : i < s.rootCount root) :
    36 + 4 * (s.globals.stride * i) + 4 ≤ (s.word (root + 4#32)).toNat := by
  rw [h.rootCount_eq] at hi
  rcases stride_cases s.globals with hs | hs <;> rw [hs] at hi ⊢ <;> omega

theorem apart (h : RootTable image s root) : image.Apart (frameOf root) :=
  KernelImage.apart_of_outside h.outside

end RootTable

section Loop

variable {image : KernelImage} {s₀ s : Machine} {root : Word} {i : Nat}

/-- The state in which `i` entries have been replaced, `s₀` being the one in which
the root table has not been mapped yet. -/
structure Rewritten (image : KernelImage) (s₀ : Machine) (root : Word) (i : Nat) (s : Machine) :
    Prop where
  paged : Paged image s
  version : s.globals.acpiVersion = s₀.globals.acpiVersion
  rootTable : s.globals.rootTable = s₀.rootTable root
  freePages : s.globals.freePages = s₀.globals.freePages.drop (i + 1)
  table : s.Maps (s₀.rootTable root) root
  tables : ∀ j < i, s.Maps (s₀.entryTable root j) (s₀.rootEntry root j)
  slots : ∀ j < i, s.word (slot root j) = s₀.entryTable root j
  memory : ∀ x, image.Apart (frameOf x) → (36 ≤ (x - root).toNat → 36 + 4 * i ≤ (x - root).toNat) →
    s.byte x = s₀.byte x
  kept : ∀ d t, s₀.walk d t ≠ none → s.walk d t = s₀.walk d t
  new : ∀ d t, s₀.walk d t = none → s.walk d t ≠ none → d = selfDir ∨
    ∃ j ≤ i, d = dirOf (pageAddr (s₀.servedPage j)) ∧ t = tabOf (pageAddr (s₀.servedPage j))

theorem run_readSignature {a : Word} (h : ∀ k < 4, ∃ p, s.translate (a + BitVec.ofNat 32 k) = some p) :
    s.run (readSignature a) = .ok ((), s) := by
  obtain ⟨_, t, hr, rfl⟩ := Prog.run_forUp Machine.exec (fun i _ => do
    let _ ← Code.loadByte (a + BitVec.ofNat 32 i)
    return ()) (fun _ _ t => s = t) (n := 4) (b := ()) rfl fun j b t hj ht => by
      obtain ⟨p, hp⟩ := h j hj
      subst ht
      refine ⟨(), s, ?_, rfl⟩
      rw [Prog.run_bind_ok Machine.exec (Machine.run_loadByte hp)]
      rfl
  exact hr

theorem state_of_load {a : Word} {x : Word × Machine} (h : Machine.exec (.load a) s = .ok x) :
    x.2 = s := by
  rw [Machine.exec] at h
  split at h
  · split at h
    · cases h
      rfl
    · cases h
  · cases hw : s.wordAt a with
    | error e => simp [hw, Except.map] at h
    | ok w =>
      rw [hw] at h
      cases h
      rfl

theorem state_of_loadByte {a : Word} {x : Byte × Machine}
    (h : Machine.exec (.loadByte a) s = .ok x) : x.2 = s := by
  rw [Machine.exec] at h
  cases hb : s.byteAt a with
  | error e => simp [hb, Except.map] at h
  | ok b =>
    rw [hb] at h
    cases h
    rfl

/-- The part of the root table that has not been reached is as it was. -/
theorem Rewritten.word_eq (h : Rewritten image s₀ root i s) (ht : RootTable image s₀ root) {k : Nat}
    (hk : root.toNat % 4096 + k + 4 ≤ 4096) (hi : k + 4 ≤ 36 ∨ 36 + 4 * i ≤ k) :
    s.word (root + BitVec.ofNat 32 k) = s₀.word (root + BitVec.ofNat 32 k) := by
  have hbyte {j : Nat} (hj : j < 4) :
      s.byte (root + BitVec.ofNat 32 (k + j)) = s₀.byte (root + BitVec.ofNat 32 (k + j)) := by
    refine h.memory _ ?_ fun hge => ?_
    · rw [Machine.frameOf_add (by omega)]
      exact ht.apart
    · rw [LittleEndian.add_sub_toNat root (by omega)] at hge ⊢
      omega
  refine LittleEndian.word_congr (by simpa using hbyte (j := 0) (by decide)) fun j hj => ?_
  rw [BitVec.add_assoc, ← BitVec.ofNat_add]
  exact hbyte hj

theorem Rewritten.head (h : Rewritten image s₀ root i s) (henough : Enough s₀ (i + 1)) :
    s.globals.freePages = s₀.servedPage (i + 1) :: s₀.globals.freePages.drop (i + 1 + 1) := by
  obtain ⟨hlt, -⟩ := henough (i + 1) (Nat.le_refl _)
  rw [h.freePages, List.drop_eq_getElem_cons hlt, Machine.servedPage_eq hlt]

theorem Entered.maps {page : Nat} {rest : List Nat} {p : Word} {t : Machine}
    (h : Entered image s page rest p t) {a q : Word} (hm : s.Maps a q) : t.Maps a q := by
  refine ⟨?_, hm.2⟩
  rw [h.kept _ _ (by rw [hm.1]; exact Option.some_ne_none _), hm.1]

theorem Entered.maps_self {page : Nat} {rest : List Nat} {q : Word} {t : Machine}
    (h : Entered image s page rest (q &&& ~~~0xFFF#32) t) (hpage : page < 1024 * 1024) :
    t.Maps (pageAddr page + (q &&& 0xFFF#32)) q := by
  obtain ⟨hf, ho⟩ := pageAddr_add_low hpage q
  obtain ⟨hd, hi⟩ := frameOf_eq_iff.mp hf
  exact ⟨by rw [hd, hi, h.self, frameOf_and_mask], ho⟩

theorem Entered.byte {page : Nat} {rest : List Nat} {p : Word} {t : Machine}
    (h : Entered image s page rest p t) {x : Word} (hx : image.Apart (frameOf x)) :
    t.byte x = s.byte x := by
  rw [Machine.byte, Machine.byte, h.memory _ hx]

/-- The entry has been read, its table given a page, and the address written. -/
theorem Rewritten.succ (h : Rewritten image s₀ root i s) (ht : RootTable image s₀ root)
    (hin : root.toNat % 4096 + (36 + 4 * i) + 4 ≤ 4096) {u t : Machine}
    (hu : Entered image s (s₀.servedPage (i + 1)) (s₀.globals.freePages.drop (i + 1 + 1))
      (s₀.rootEntry root i &&& ~~~0xFFF#32) u)
    (hmaps : u.Maps (s₀.entryTable root i) (s₀.rootEntry root i))
    (hbyte : t.byte = LittleEndian.put u.byte (slot root i) (s₀.entryTable root i))
    (hsame : u.SameTables t) (hglobals : t.globals = u.globals) : Rewritten image s₀ root (i + 1) t := by
  have hself := hu.paged.tables.editable.toSelfMapped
  have hwalk := hsame.walk hself
  -- what is written, and where
  have hdist (x : Word) : (x - slot root i).toNat < 4 ↔ 36 + 4 * i ≤ (x - root).toNat ∧
      (x - root).toNat < 36 + 4 * (i + 1) := by
    have hx := x.isLt
    have hr := root.isLt
    simp only [slot, BitVec.toNat_sub, BitVec.toNat_add, BitVec.toNat_ofNat]
    omega
  have hother {x : Word} (hx : image.Apart (frameOf x)) (hne : ¬ (x - slot root i).toNat < 4) :
      t.byte x = s.byte x := by
    rw [hbyte, LittleEndian.put, if_neg hne, hu.byte hx]
  obtain ⟨_, _, _, hold⟩ := hu.globals
  refine ⟨hu.paged.of_sameTables hsame (by rw [hglobals]) (by rw [hglobals]) (by rw [hglobals]),
    by rw [hglobals, hold]; exact h.version, by rw [hglobals, hold]; exact h.rootTable,
    by rw [hglobals, hu.freePages], (hu.maps h.table).of_sameTables hsame hself,
    fun j hj => ?_, fun j hj => ?_, fun x hx hi => ?_, fun d c hm => ?_, fun d c hn hm => ?_⟩
  · rcases Nat.lt_succ_iff_lt_or_eq.mp hj with hj | rfl
    · exact (hu.maps (h.tables j hj)).of_sameTables hsame hself
    · exact hmaps.of_sameTables hsame hself
  · rcases Nat.lt_succ_iff_lt_or_eq.mp hj with hj | rfl
    · have hsub {k : Nat} (hk : k < 4) :
          (slot root j + BitVec.ofNat 32 k - root).toNat = 36 + 4 * j + k := by
        rw [slot_add, LittleEndian.add_sub_toNat root (by omega)]
      have hkept {k : Nat} (hk : k < 4) :
          t.byte (slot root j + BitVec.ofNat 32 k) = s.byte (slot root j + BitVec.ofNat 32 k) := by
        refine hother ?_ (by rw [hdist, hsub hk]; omega)
        rw [slot_add, Machine.frameOf_add (by omega)]
        exact ht.apart
      rw [← h.slots j hj]
      exact LittleEndian.word_congr (by simpa using hkept (k := 0) (by decide)) fun k hk => hkept hk
    · rw [Machine.word, hbyte, LittleEndian.word_put (by decide)]
  · rw [hother hx (by rw [hdist]; omega), h.memory x hx (by omega)]
  · rw [hwalk, hu.kept d c (by rwa [h.kept d c hm]), h.kept d c hm]
  · rw [hwalk] at hm
    by_cases hs : s.walk d c = none
    · rcases hu.new d c hs hm with hpage | hd
      · exact Or.inr ⟨i + 1, Nat.le_refl _, hpage⟩
      · exact Or.inl hd
    · rcases h.new d c hn hs with hd | ⟨j, hj, hpage⟩
      · exact Or.inl hd
      · exact Or.inr ⟨j, Nat.le_succ_of_le hj, hpage⟩

/-- One iteration of the loop, up to the reading of the signature. -/
theorem Rewritten.step (h : Rewritten image s₀ root i s) (ht : RootTable image s₀ root)
    (hi : i < s₀.rootCount root) (henough : Enough s₀ (i + 1)) :
    ∃ t, s.run (do
      let sdtHeader ← Code.load (slot (s₀.rootTable root) (s₀.globals.stride * i))
      let pageVirtLocation ← Code.globals findFreeVirtaddr
      mapPage image (sdtHeader &&& ~~~0xFFF#32) pageVirtLocation 3#32
      Code.store (slot (s₀.rootTable root) i) (pageVirtLocation + (sdtHeader &&& 0xFFF#32))
      let sdtHeader ← Code.load (slot (s₀.rootTable root) i)
      readSignature sdtHeader) = t.run (readSignature (s₀.entryTable root i)) ∧
        Rewritten image s₀ root (i + 1) t := by
  have hlen := ht.entry_le hi
  have hpage := ht.inPage
  have hle := RootTable.le_stride s₀.globals i
  have hlt := (henough (i + 1) (Nat.le_refl _)).2
  have hfree := h.head henough
  have hread : s.run (Code.load (slot (s₀.rootTable root) (s₀.globals.stride * i))) =
      .ok (s₀.rootEntry root i, s) := by
    rw [slot, Machine.run_load_word (h.table.reads (by omega)),
      h.word_eq ht (by omega) (Or.inr (by omega))]
    rfl
  have hu := h.paged.enter hfree hlt (aligned_and_mask (s₀.rootEntry root i))
  have hmaps := hu.maps_self (by omega)
  have hself := hu.paged.tables.editable.toSelfMapped
  have hapart := hu.paged.tables.unused_of_apart (Nat.le_of_lt hu.paged.tableLeft) ht.apart
  obtain ⟨t, hstore, hbyte, hsame, hglobals⟩ :=
    Machine.run_store_word ((hu.maps h.table).writes (k := 36 + 4 * i) (by omega) hapart) hself
      (s₀.entryTable root i)
  have hnext := h.succ ht (by omega) hu hmaps hbyte hsame hglobals
  refine ⟨t, ?_, hnext⟩
  have hload := Machine.run_load_word (hnext.table.reads (k := 36 + 4 * i) (by omega))
  have hword : t.word (root + BitVec.ofNat 32 (36 + 4 * i)) = s₀.entryTable root i :=
    hnext.slots i (Nat.lt_succ_self i)
  rw [hword] at hload
  rw [Machine.run, Prog.run_bind_ok _ hread, Prog.run_bind_ok _ (Paged.run_findFreeVirtaddr hfree),
    Prog.run_bind_ok _ (h.paged.run_mapPage _ _)]
  exact (Prog.run_bind_ok _ hstore).trans (Prog.run_bind_ok _ hload)

/-- The loop returns if the signatures do not reach into another page. -/
theorem run_mapEntries (h : Rewritten image s₀ root 0 s) (ht : RootTable image s₀ root)
    (henough : Enough s₀ (s₀.rootCount root))
    (hsignature : ∀ i < s₀.rootCount root, (s₀.rootEntry root i).toNat % 4096 + 4 ≤ 4096) :
    ∃ t, s.run (mapEntries image (s₀.rootTable root) s₀.globals.stride (s₀.rootCount root)) =
      .ok ((), t) ∧
      Rewritten image s₀ root (s₀.rootCount root) t := by
  obtain ⟨_, t, hr, ht⟩ := Prog.run_forUp Machine.exec _ (fun i _ t => Rewritten image s₀ root i t)
    (b := ()) h
    fun i _ t hi ht' => by
      obtain ⟨u, hr, hu⟩ := ht'.step ht hi fun k hk => henough k (by omega)
      have hpage := hsignature i hi
      rw [run_readSignature fun k hk => ⟨_,
        ((hu.tables i (Nat.lt_succ_self i)).add (k := k) (by omega)).translate⟩] at hr
      simp only [← slot_eq] at hr
      exact ⟨(), u, hr, hu⟩
  exact ⟨t, hr, ht⟩

/-- Globals as far as paging is concerned. -/
structure SamePaging (g g' : Globals) : Prop where
  virtualMmap : g'.virtualMmap = g.virtualMmap
  curVirtaddrIdx : g'.curVirtaddrIdx = g.curVirtaddrIdx
  kernelPTIndex : g'.kernelPTIndex = g.kernelPTIndex
  curPhysaddr : g'.curPhysaddr = g.curPhysaddr

theorem SamePaging.freePages {g g' : Globals} (h : SamePaging g g') : g'.freePages = g.freePages := by
  rw [Globals.freePages, Globals.freePages, h.virtualMmap, h.curVirtaddrIdx]

theorem Paged.withGlobals (h : Paged image s) {g : Globals} (hg : SamePaging s.globals g) :
    Paged image (s.withGlobals g) :=
  h.of_sameTables ⟨rfl, fun _ _ _ => rfl⟩ hg.virtualMmap hg.curVirtaddrIdx hg.kernelPTIndex

theorem Rewritten.init {u : Machine}
    (hu : Entered image s₀ (s₀.servedPage 0) (s₀.globals.freePages.drop 1)
      (root &&& ~~~0xFFF#32) u) (hpage : s₀.servedPage 0 < 1024 * 1024) {g : Globals} (hg :
      SamePaging u.globals g)
    (hversion : g.acpiVersion = u.globals.acpiVersion) (htable : g.rootTable = s₀.rootTable root) :
    Rewritten image s₀ root 0 (u.withGlobals g) := by
  obtain ⟨_, _, _, hold⟩ := hu.globals
  have hself := hu.maps_self hpage
  refine ⟨hu.paged.withGlobals hg, ?_, htable, ?_, hself, fun j hj => absurd hj (Nat.not_lt_zero j),
    fun j hj => absurd hj (Nat.not_lt_zero j), fun x hx _ => hu.byte hx, fun d c hm =>
    hu.kept d c hm, fun d c hn hm => ?_⟩
  · rw [Machine.withGlobals_globals, hversion, hold]
  · rw [Machine.withGlobals_globals, hg.freePages, hu.freePages]
  · rcases hu.new d c hn hm with hp | hd
    · exact Or.inr ⟨0, Nat.le_refl _, hp⟩
    · exact Or.inl hd

/-- Either branch of `init_rsdt`, `f` being the assignment of `rsdt` or `xsdt`. -/
theorem run_rootTable {u : Machine} (hu : Entered image s₀ (s₀.servedPage 0) (s₀.globals.freePages.drop 1)
      (root &&& ~~~0xFFF#32) u) (ht : RootTable image s₀ root) (hpage : s₀.servedPage 0 < 1024 * 1024)
    {f : Globals → Globals}
    (hf : SamePaging u.globals (f u.globals))
      (hversion : (f u.globals).acpiVersion = u.globals.acpiVersion)
    (htable : (f u.globals).rootTable = s₀.rootTable root) :
    ∃ t, u.run (do
      Code.modify f
      readSignature (s₀.rootTable root)
      let length ← Code.load (s₀.rootTable root + 4#32)
      let entries := (length - 36#32) / BitVec.ofNat 32 (4 * s₀.globals.stride)
      Code.modify fun g => { g with entries := entries }
      mapEntries image (s₀.rootTable root) s₀.globals.stride entries.toNat) =
        t.run (mapEntries image (s₀.rootTable root) s₀.globals.stride (s₀.rootCount root)) ∧
      Rewritten image s₀ root 0 t := by
  have hlen := ht.length
  have hin := ht.inPage
  have hv := Rewritten.init hu hpage hf hversion htable
  have hsignature := run_readSignature fun k hk => ⟨_, (hv.table.add (k := k) (by omega)).translate⟩
  have hload := Machine.run_load_word (hv.table.reads (k := 4) (by omega))
  rw [hv.word_eq ht (by omega) (Or.inl (by decide))] at hload
  let g : Globals :=
    { f u.globals with entries := (s₀.word (root + 4#32) - 36#32) / BitVec.ofNat 32 (4 *
    s₀.globals.stride) }
  have hg : SamePaging u.globals g :=
    ⟨hf.virtualMmap, hf.curVirtaddrIdx, hf.kernelPTIndex, hf.curPhysaddr⟩
  refine ⟨u.withGlobals g, ?_, Rewritten.init hu hpage hg hversion htable⟩
  rw [Machine.run, Prog.run_bind_ok _ (Machine.run_modify f)]
  refine (Prog.run_bind_ok _ hsignature).trans ((Prog.run_bind_ok _ hload).trans ?_)
  exact Prog.run_bind_ok _ (Machine.run_modify _)

theorem Machine.run_flag (f : Globals → Bool) : s.run (Code.flag f) = .ok (f s.globals, s) := by
  rw [Code.flag, Machine.run, Prog.run_bind_ok _ (Machine.run_get _)]
  cases f s.globals <;> rfl

theorem run_mapRootTable (h : Paged image s) (ht : RootTable image s root) (henough : Enough s 0) :
    ∃ t, s.run (mapRootTable image root) =
        t.run (mapEntries image (s.rootTable root) s.globals.stride (s.rootCount root)) ∧
      Rewritten image s root 0 t := by
  obtain ⟨hlen, hlt⟩ := henough 0 (Nat.zero_le _)
  have hpage : s.servedPage 0 < 1024 * 1024 := Nat.lt_trans hlt (by decide)
  have hfree : s.globals.freePages = s.servedPage 0 :: s.globals.freePages.drop 1 := by
    rw [Machine.servedPage_eq hlen]
    exact List.drop_eq_getElem_cons hlen
  have hu := h.enter hfree hlt (aligned_and_mask root)
  obtain ⟨_, _, _, hglobals⟩ := hu.globals
  have hversion := congrArg Globals.acpiVersion hglobals
  rw [mapRootTable, Machine.run, Prog.run_bind_ok _ (Paged.run_findFreeVirtaddr hfree),
    Prog.run_bind_ok _ (h.run_mapPage _ _), Prog.run_bind_ok _ (Machine.run_flag _), hversion]
  cases hv : s.globals.acpiVersion with
  | true =>
    have hstride : s.globals.stride = 2 := by rw [Globals.stride, hv, if_pos rfl]
    have hr := run_rootTable hu ht hpage (f := fun g => { g with xsdt := s.rootTable root })
      ⟨rfl, rfl, rfl, rfl⟩ rfl (by rw [Globals.rootTable]; exact if_pos (hversion.trans hv))
    rw [hstride] at hr ⊢
    exact hr
  | false =>
    have hstride : s.globals.stride = 1 := by rw [Globals.stride, hv]; rfl
    have hr := run_rootTable hu ht hpage (f := fun g => { g with rsdt := s.rootTable root })
      ⟨rfl, rfl, rfl, rfl⟩
      rfl (by rw [Globals.rootTable]; exact if_neg (by rw [hversion, hv]; exact Bool.false_ne_true))
    rw [hstride] at hr ⊢
    exact hr

end Loop

end PekOS
