import PekOS.Firmware
import PekOS.Lookups

/-! The accesses of rsdt.c to the entries of a root table, and the length the
table says it has. -/

namespace PekOS

open OpTree

/-- What is done before entry `k` of a table of `length` bytes is read or written,
entries being counted in words. -/
abbrev Check := (length : Word) → (k : Nat) → Code Unit

def unchecked : Check := fun _ _ => return ()

/-- The run is stopped at an entry that does not lie in the first `length` bytes. -/
def inTable : Check := fun length k => if 36 + 4 * k + 4 ≤ length.toNat then return () else Code.halt

section Image

variable (image : KernelImage)

/-- An iteration of `init_rsdt`'s loops. -/
def mapEntry (check : Check) (table : Word) (stride : Nat) (length : Word) (entry : Nat) : Code Unit := do
  check length (stride * entry)
  let sdtHeader ← Code.load (table + 36#32 + 4#32 * BitVec.ofNat 32 (stride * entry))
  let pageVirtLocation ← Code.globals findFreeVirtaddr
  mapPage image (sdtHeader &&& ~~~0xFFF#32) pageVirtLocation 3#32
  check length entry
  Code.store (table + 36#32 + 4#32 * BitVec.ofNat 32 entry) (pageVirtLocation + (sdtHeader &&& 0xFFF#32))
  check length entry
  let sdtHeader ← Code.load (table + 36#32 + 4#32 * BitVec.ofNat 32 entry)
  readSignature sdtHeader

/-- The root table mapped: its address, how many words an entry of it has, and its length. -/
def openRootTable (rsdtPhysaddr : Word) : Code (Word × Nat × Word) := do
  let pageVirtLocation ← Code.globals findFreeVirtaddr
  mapPage image (rsdtPhysaddr &&& ~~~0xFFF#32) pageVirtLocation 3#32
  let table := pageVirtLocation + (rsdtPhysaddr &&& 0xFFF#32)
  let acpiVersion ← Code.flag (·.acpiVersion)
  if acpiVersion then
    Code.modify fun g => { g with xsdt := table }
    readSignature table
    let length ← Code.load (table + 4#32)
    return (table, 2, length)
  else
    Code.modify fun g => { g with rsdt := table }
    readSignature table
    let length ← Code.load (table + 4#32)
    return (table, 1, length)

def mapEntriesWith (check : Check) (table : Word) (stride : Nat) (length : Word) : Code Unit := do
  let entries := (length - 36#32) / BitVec.ofNat 32 (4 * stride)
  Code.modify fun g => { g with entries := entries }
  Prog.forUp entries.toNat () fun entry _ => mapEntry image check table stride length entry

/-- `init_rsdt` with a check before each of its accesses to an entry. -/
def initRsdtWith (check : Check) : Code Unit := do
  let rsdtPhysaddr ← findRoot
  let (table, stride, length) ← openRootTable image rsdtPhysaddr
  mapEntriesWith image check table stride length

theorem initRsdt_eq_unchecked : initRsdt image = initRsdtWith image unchecked := by
  rw [initRsdt_eq, initRsdtWith]
  refine congrArg (findRoot >>= ·) (funext fun root => ?_)
  simp only [mapRootTable, openRootTable, Prog.bind_assoc]
  refine congrArg (Code.globals findFreeVirtaddr >>= ·) (funext fun page =>
    congrArg (_ >>= ·) (funext fun _ =>
    congrArg (_ >>= ·) (funext fun acpiVersion => ?_)))
  cases acpiVersion with
  | false => rfl
  | true => rfl

end Image

/-- `find_by_header` with a check. -/
def findByHeaderWith (check : Check) (head : List Byte) : Code Word := do
  let acpiVersion ← Code.flag (·.acpiVersion)
  if acpiVersion then return 0#32
  else
    let rsdt ← Code.get (·.rsdt)
    let length ← Code.load (rsdt + 4#32)
    let entries := (length - 36#32) / 4#32
    Code.modify fun g => { g with entries := entries }
    let found ← Prog.search (fun entry => check length entry >>=
      fun _ => tableEntry rsdt head entry) 0 entries.toNat
    return found.getD 0#32

theorem findByHeader_eq_unchecked (head : List Byte) :
    findByHeader head = findByHeaderWith unchecked head := rfl

/-- `find_entry_in_RSDT` with a check. -/
def findEntryInRSDTWith (check : Check) (signature : List Byte) : Code Word := do
  let rsdt ← Code.get (·.rsdt)
  let length ← Code.load (rsdt + 4#32)
  let entries := (length - 36#32) / 4#32
  let found ← Prog.search (fun i => check length 0 >>=
    fun _ => pointedEntry rsdt signature i) 0 entries.toNat
  return found.getD 0#32

theorem findEntryInRSDT_eq_unchecked (signature : List Byte) :
    findEntryInRSDT signature = findEntryInRSDTWith unchecked signature := rfl

def Op.Goes : Op → Prop
  | .halt => False
  | _ => True

/-- The run is stopped by no check. -/
abbrev Stays {α : Type} (image : KernelImage) (n : Nat) (p : Code α) (s : Machine) : Prop :=
  Prog.Performs (Machine.demand image n) Op.Goes p s

/-! The programs as they stand stop nowhere themselves. -/

namespace Goes

theorem load (a : Word) : Prog.All Op.Goes (Code.load a) := Prog.all_perform.mpr trivial

theorem store (a v : Word) : Prog.All Op.Goes (Code.store a v) := Prog.all_perform.mpr trivial

theorem globals (f : Globals → Word × Globals) : Prog.All Op.Goes (Code.globals f) :=
  Prog.all_perform.mpr trivial

theorem modify (f : Globals → Globals) : Prog.All Op.Goes (Code.modify f) :=
  (globals _).bind fun _ => trivial

theorem of_searching {α : Type} {p : Code α} (h : Searching p) : Prog.All Op.Goes p := by
  refine h.mono fun o ho => ?_
  cases o with
  | load | loadByte | globals => trivial
  | _ => exact ho.elim

theorem findRoot : Prog.All Op.Goes findRoot := by
  refine findRoot_finding.mono fun o ho => ?_
  cases o with
  | load | loadByte | globals | deref => trivial
  | _ => exact ho.elim

theorem mapPage (image : KernelImage) (p v : Word) : Prog.All Op.Goes (PekOS.mapPage image p v 3#32) := by
  refine (mapPage_all image p v 3#32).mono fun o ho => ?_
  cases o with
  | load | store | globals | allocated => trivial
  | _ => exact ho.elim

theorem openRootTable (image : KernelImage) (root : Word) :
    Prog.All Op.Goes (openRootTable image root) := by
  have hrest (table : Word) (f : Globals → Globals) (stride : Nat) :
    Prog.All Op.Goes (Code.modify f >>= fun _ =>
      readSignature table >>= fun _ => Code.load (table + 4#32) >>= fun length =>
        (return (table, stride, length) : Code (Word × Nat × Word))) :=
    (modify f).bind fun _ => (of_searching (Searching.readSignature table)).bind fun _ =>
      (load _).bind fun _ => trivial
  refine (globals _).bind fun page => (mapPage image _ _).bind fun _ =>
    (of_searching (Searching.flag _)).bind fun acpiVersion => ?_
  cases acpiVersion with
  | false => exact hrest _ _ 1
  | true => exact hrest _ _ 2

theorem tableEntry (rsdt : Word) (head : List Byte) (entry : Nat) :
    Prog.All Op.Goes (tableEntry rsdt head entry) :=
  (load _).bind fun _ =>
    (of_searching (Searching.memcmp (Searching.bytesAt _) (Searching.literal _) 0 4)).bind fun _ =>
      trivial

theorem pointedEntry (rsdt : Word) (signature : List Byte) (i : Nat) :
    Prog.All Op.Goes (pointedEntry rsdt signature i) :=
  (load _).bind fun _ => (load _).bind fun _ =>
    (of_searching (Searching.strncmp (Searching.bytesAt _) (Searching.literal _) 0 4)).bind fun _ =>
      trivial

theorem inTable {length : Word} {k : Nat} (h : 36 + 4 * k + 4 ≤ length.toNat) :
    Prog.All Op.Goes (inTable length k) := by
  rw [PekOS.inTable, if_pos h]
  trivial

theorem mapEntry (image : KernelImage) (table : Word) {stride entry : Nat} {length : Word}
    (hstride : 1 ≤ stride) (h : 36 + 4 * (stride * entry) + 4 ≤ length.toNat) :
    Prog.All Op.Goes (PekOS.mapEntry image PekOS.inTable table stride length entry) := by
  have hle : entry ≤ stride * entry := Nat.le_mul_of_pos_left entry hstride
  have hentry : 36 + 4 * entry + 4 ≤ length.toNat := by omega
  exact (inTable h).bind fun _ => (load _).bind fun _ => (globals _).bind fun _ =>
    (mapPage image _ _).bind fun _ =>
    (inTable hentry).bind fun _ => (store _ _).bind fun _ => (inTable hentry).bind fun _ =>
      (load _).bind fun _ =>
      of_searching (Searching.readSignature _)

end Goes

section Counts

variable {length : Word}

/-- An entry that is counted lies in a table that is no shorter than its header. -/
theorem entry_in_table (h : 36 ≤ length.toNat) {stride entry : Nat} (hstride : stride = 1 ∨ stride = 2)
    (hlt : entry < ((length - 36#32) / BitVec.ofNat 32 (4 * stride)).toNat) :
    36 + 4 * (stride * entry) + 4 ≤ length.toNat := by
  have hlength := length.isLt
  rw [BitVec.toNat_udiv, BitVec.toNat_sub_of_le (by rw [BitVec.le_def]; exact h)] at hlt
  rcases hstride with rfl | rfl
  · simp only [BitVec.toNat_ofNat, Nat.reducePow, Nat.reduceMul, Nat.reduceMod] at hlt
    omega
  · simp only [BitVec.toNat_ofNat, Nat.reducePow, Nat.reduceMul, Nat.reduceMod] at hlt
    omega

/-- The difference wraps for a table that is shorter than its header. -/
theorem counts_of_short (h : length.toNat < 36) {stride : Nat} (hstride : stride = 1 ∨ stride = 2) :
    0 < ((length - 36#32) / BitVec.ofNat 32 (4 * stride)).toNat := by
  rw [BitVec.toNat_udiv, BitVec.toNat_sub]
  rcases hstride with rfl | rfl
  · simp only [BitVec.toNat_ofNat, Nat.reducePow, Nat.reduceMul, Nat.reduceMod]
    omega
  · simp only [BitVec.toNat_ofNat, Nat.reducePow, Nat.reduceMul, Nat.reduceMod]
    omega

end Counts

section Stays

variable {image : KernelImage} {n : Nat} {s : Machine} {length : Word}

theorem not_stays_inTable {α : Type} {k : Nat} (h : length.toNat < 36) (f : Unit → Code α) :
    ¬ Stays image n (inTable length k >>= f) s := by
  intro hstays
  have hcheck := ((Prog.performs_bind_iff _ _).mp hstays).1
  rw [inTable, if_neg (by omega)] at hcheck
  exact (Prog.along_perform _ _).mp hcheck

theorem stays_mapEntriesWith {table : Word} {stride : Nat} (hstride : stride = 1 ∨ stride = 2) :
    Stays image n (mapEntriesWith image inTable table stride length) s ↔ 36 ≤ length.toNat := by
  have hpos : 1 ≤ stride := by omega
  constructor
  · intro h
    by_contra hlt
    have hshort : length.toNat < 36 := Nat.lt_of_not_le hlt
    obtain ⟨count, hcount⟩ := Nat.exists_eq_succ_of_ne_zero (counts_of_short hshort hstride).ne'
    have hloop := ((Prog.performs_bind_iff _ _).mp h).2 _ _ (ran_modify _)
    rw [hcount] at hloop
    exact not_stays_inTable hshort _ ((Prog.performs_bind_iff _ _).mp hloop).1
  · intro h
    exact Prog.All.performs _ ((Goes.modify _).bind fun _ => Prog.All.forUp_of_lt (fun entry hlt _ =>
      Goes.mapEntry image table hpos (entry_in_table h hstride hlt)) ()) s

theorem stays_search {α : Type} {body : Nat → Code (Option α)} (hbody : ∀ i, Prog.All Op.Goes (body i))
    {k : Nat → Nat} (hk : ∀ i, k i ≤ i) :
    Stays image n (Prog.search (fun i => inTable length (k i) >>= fun _ => body i) 0
      ((length - 36#32) / 4#32).toNat) s ↔ 36 ≤ length.toNat := by
  have hcounted : (length - 36#32) / 4#32 = (length - 36#32) / BitVec.ofNat 32 (4 * 1) := rfl
  rw [hcounted]
  constructor
  · intro h
    by_contra hlt
    have hshort : length.toNat < 36 := Nat.lt_of_not_le hlt
    obtain ⟨count, hcount⟩ := Nat.exists_eq_succ_of_ne_zero (counts_of_short hshort (Or.inl rfl)).ne'
    rw [hcount] at h
    exact not_stays_inTable hshort _ ((Prog.performs_bind_iff _ _).mp h).1
  · intro h
    refine Prog.All.performs _ (Prog.All.search_of_lt (fun i _ hlt => ?_)) s
    have hin := entry_in_table h (Or.inl rfl) (Nat.zero_add _ ▸ hlt)
    have hle := hk i
    exact (Goes.inTable (by omega)).bind fun _ => hbody i

/-- The length `init_rsdt` reads, and how many words it takes an entry for. -/
theorem stride_of_openRootTable {root table length : Word} {stride : Nat} {t : Machine}
    (h : Ran image n (openRootTable image root) s (table, stride, length) t) :
    stride = 1 ∨ stride = 2 := by
  obtain ⟨page, u, -, h⟩ := Prog.of_run_bind _ h
  obtain ⟨-, v, -, h⟩ := Prog.of_run_bind _ h
  obtain ⟨acpiVersion, w, -, h⟩ := Prog.of_run_bind _ h
  have hlast {table' : Word} {stride' : Nat} {f : Globals → Globals}
    (h : Ran image n (Code.modify f >>= fun _ =>
      readSignature table' >>= fun _ => Code.load (table' + 4#32) >>= fun length =>
        (return (table', stride', length) : Code (Word × Nat × Word))) w
          (table, stride, length) t) : stride = stride' := by
    obtain ⟨_, _, _, h⟩ := Prog.of_run_bind _ h
    obtain ⟨_, _, _, h⟩ := Prog.of_run_bind _ h
    obtain ⟨_, _, _, h⟩ := Prog.of_run_bind _ h
    simp only [Prog.pure_eq, Prog.run_ret, Except.ok.injEq, Prod.mk.injEq] at h
    exact h.1.2.1.symm
  cases acpiVersion with
  | false => exact Or.inl (hlast h)
  | true => exact Or.inr (hlast h)

theorem stays_initRsdtWith : Stays image n (initRsdtWith image inTable) s ↔
    ∀ root table stride length t u, Ran image n findRoot s root t →
      Ran image n (openRootTable image root) t (table, stride, length) u → 36 ≤ length.toNat := by
  rw [Stays, initRsdtWith, Prog.performs_bind_right _ Goes.findRoot]
  constructor
  · intro h root table stride length t u hfind hopen
    have hrest := (Prog.performs_bind_right _ (Goes.openRootTable image root)).mp
      (h root t hfind) _ u hopen
    exact (stays_mapEntriesWith (stride_of_openRootTable hopen)).mp hrest
  · intro h root t hfind
    refine (Prog.performs_bind_right _ (Goes.openRootTable image root)).mpr fun r u hopen => ?_
    exact (stays_mapEntriesWith (stride_of_openRootTable hopen)).mpr
      (h root r.1 r.2.1 r.2.2 t u hfind hopen)

theorem stays_findByHeaderWith {head : List Byte} : Stays image n (findByHeaderWith inTable head) s ↔
    s.globals.acpiVersion = true ∨
      ∀ length u, Ran image n (Code.load (s.globals.rsdt + 4#32)) s length u → 36 ≤ length.toNat := by
  rw [Stays, findByHeaderWith,
    Prog.performs_bind_of_run _ (Goes.of_searching (Searching.flag _)) (ran_flag _)]
  cases s.globals.acpiVersion with
  | true => exact iff_of_true (Prog.performs_ret _ _ _ _) (Or.inl rfl)
  | false =>
    have hsearch (rsdt length : Word) (t : Machine) : Stays image n (Code.modify (fun g => { g with
        entries := (length - 36#32) / 4#32 }) >>= fun _ =>
        Prog.search (fun entry => inTable length entry >>= fun _ =>
          tableEntry rsdt head entry) 0 ((length - 36#32) / 4#32).toNat >>= fun found =>
            return found.getD 0#32) t ↔
        36 ≤ length.toNat := by
      rw [Stays, Prog.performs_bind_of_run _ (Goes.modify _) (ran_modify _)]
      refine (Prog.performs_bind_left _ fun found => ?_).trans
        (stays_search (Goes.tableEntry rsdt head) fun i => Nat.le_refl i)
      exact Prog.all_ret _
    rw [if_neg Bool.false_ne_true,
      Prog.performs_bind_of_run _ (Goes.of_searching (Searching.get _)) (ran_get _),
      Prog.performs_bind_right _ (Goes.load _), or_iff_right Bool.false_ne_true]
    exact forall_congr' fun length => forall_congr' fun u => imp_congr_right fun _ => hsearch _ _ _

theorem stays_findEntryInRSDTWith {signature : List Byte} :
    Stays image n (findEntryInRSDTWith inTable signature) s ↔
    ∀ length u, Ran image n (Code.load (s.globals.rsdt + 4#32)) s length u → 36 ≤ length.toNat := by
  rw [Stays, findEntryInRSDTWith,
    Prog.performs_bind_of_run _ (Goes.of_searching (Searching.get _)) (ran_get _),
    Prog.performs_bind_right _ (Goes.load _)]
  refine forall_congr' fun length => forall_congr' fun u => imp_congr_right fun _ => ?_
  refine (Prog.performs_bind_left _ fun found => ?_).trans
    (stays_search (Goes.pointedEntry s.globals.rsdt signature) fun i => Nat.zero_le i)
  exact Prog.all_ret _

/-- None of the three accesses an entry beyond the length of a root table if and only if
that length, where it is read at all, is no shorter than the header. -/
theorem entries_stay_in_table (image : KernelImage) (n : Nat) (s : Machine) (head : List Byte) :
    (Stays image n (initRsdtWith image inTable) s ↔
      ∀ root table stride length t u, Ran image n findRoot s root t →
      Ran image n (openRootTable image root) t (table, stride, length) u → 36 ≤ length.toNat) ∧
    (Stays image n (findByHeaderWith inTable head) s ↔ s.globals.acpiVersion = true ∨
      ∀ length t, Ran image n (Code.load (s.globals.rsdt + 4#32)) s length t → 36 ≤ length.toNat) ∧
    (Stays image n (findEntryInRSDTWith inTable head) s ↔
      ∀ length t, Ran image n (Code.load (s.globals.rsdt + 4#32)) s length t → 36 ≤ length.toNat) :=
  ⟨stays_initRsdtWith, stays_findByHeaderWith, stays_findEntryInRSDTWith⟩

end Stays

section Short

variable {image : KernelImage} {s u : Machine} {root : Word}

/-- Either branch, `f` being the assignment of `rsdt` or `xsdt`. -/
theorem run_rootLength {table : Word} (hmaps : u.Maps table root) (hin : root.toNat % 4096 + 8 ≤ 4096)
    (f : Globals → Globals) (stride : Nat) :
    ∃ t, u.run (do
      Code.modify f
      readSignature table
      let length ← Code.load (table + 4#32)
      return (table, stride, length)) = .ok ((table, stride, u.word (root + 4#32)), t) := by
  have hv := Maps.withGlobals hmaps (f u.globals)
  have hsignature := run_readSignature fun k hk => ⟨_, (hv.add (k := k) (by omega)).translate⟩
  have hload := Machine.run_load_word (hv.reads (k := 4) (by omega))
  refine ⟨u.withGlobals (f u.globals), (Prog.run_bind_ok _ (Machine.run_modify f)).trans ?_⟩
  exact (Prog.run_bind_ok _ hsignature).trans (Prog.run_bind_ok _ hload)

/-- What `init_rsdt` takes for the length of the root table. -/
theorem run_openRootTable (h : Paged image s) (hout : root.toNat < 0x100000 ∨ image.size ≤ root.toNat)
    (hin : root.toNat % 4096 + 8 ≤ 4096) (henough : Enough s 0) :
    ∃ stride t, s.run (openRootTable image root) =
      .ok ((s.rootTable root, stride, s.word (root + 4#32)), t) := by
  obtain ⟨hlen, hlt⟩ := henough 0 (Nat.zero_le _)
  have hpage : s.servedPage 0 < 1024 * 1024 := Nat.lt_trans hlt (by decide)
  have hfree : s.globals.freePages = s.servedPage 0 :: s.globals.freePages.drop 1 := by
    rw [Machine.servedPage_eq hlen]
    exact List.drop_eq_getElem_cons hlen
  have hu := h.enter hfree hlt (aligned_and_mask root)
  have hmaps := hu.maps_self hpage
  have hbyte {k : Nat} (hk : k < 8) :
      (s.takePage.afterMap image (root &&& ~~~0xFFF#32) (pageAddr (s.servedPage 0)) 3#32).byte
      (root + BitVec.ofNat 32 k) =
        s.byte (root + BitVec.ofNat 32 k) := by
    refine hu.byte ?_
    rw [Machine.frameOf_add (by omega)]
    exact KernelImage.apart_of_outside hout
  have hword : (s.takePage.afterMap image (root &&& ~~~0xFFF#32)
      (pageAddr (s.servedPage 0)) 3#32).word (root + 4#32) =
      s.word (root + 4#32) := by
    refine LittleEndian.word_congr (hbyte (k := 4) (by decide)) fun k hk => ?_
    have hk' := hbyte (k := 4 + k) (by omega)
    rwa [BitVec.ofNat_add, ← BitVec.add_assoc] at hk'
  rw [openRootTable, Machine.run, Prog.run_bind_ok _ (Paged.run_findFreeVirtaddr hfree),
    Prog.run_bind_ok _ (h.run_mapPage _ _), Prog.run_bind_ok _ (Machine.run_flag _), ← hword]
  split
  · exact ⟨2, run_rootLength hmaps hin _ 2⟩
  · exact ⟨1, run_rootLength hmaps hin _ 1⟩

end Short

/-- An RSDP that points to an RSDT of 20 bytes. -/
def shortFirmware : Firmware where
  words := [(0x0#32, 0x20445352#32), (0x4#32, 0x20525450#32), (0x8#32, 0x61#32), (0x10#32, 0x00800000#32),
    (0x800000#32, 0x54445352#32), (0x800004#32, 20#32)]
  beside := rfl
  segment := 0#16
  segment_lt := Firmware.zeroSegment_lt
  segment_eq := by decide
  signature := by decide
  checksum := by decide

/-- `init_rsdt` goes on to an entry the table does not have. -/
theorem short_table_entered :
    ∃ s₀ s : Machine, Booted alignedImage s₀ ∧ s₀.run findRoot = .ok (0x00800000#32, s) ∧
    s.word 0x00800004#32 = 20#32 ∧
    ∀ n, ¬ Stays alignedImage n (initRsdtWith alignedImage inTable) s₀ := by
  obtain ⟨s₀, s, hb, hfind, -, hbyte⟩ := shortFirmware.exists_findRoot alignedImage
  have hroot : shortFirmware.root = 0x00800000#32 := by decide
  have ha := alike_of_findRoot hfind
  have hword : s.word (shortFirmware.root + 4#32) = 20#32 :=
    (LittleEndian.word_congr (hbyte _ (by decide)) fun k hk => hbyte _ (by revert k; decide)).trans
      (by decide)
  have hout : alignedImage.size ≤ shortFirmware.root.toNat :=
    Nat.le_trans (KernelImage.size_le _) (by decide)
  obtain ⟨stride, t, hopen⟩ := run_openRootTable (hb.paged.of_alike ha) (Or.inr hout) (by decide)
    (hb.enough_of_le ha (Nat.zero_le _))
  rw [hword] at hopen
  refine ⟨s₀, s, hb, hroot ▸ hfind, ?_, fun n hstays => ?_⟩
  · rwa [hroot] at hword
  · have hlength := stays_initRsdtWith.mp hstays _ _ _ _ _ _ (ran_of_run hfind) (ran_of_run hopen)
    exact absurd hlength (by decide)

end PekOS
