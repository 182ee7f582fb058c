import PekOS.FindByHeader
import PekOS.Reading

/-! `find_entry_in_RSDT`, which takes the words of the first listed table for
the pointers to the tables, beside `find_by_header`. -/

namespace PekOS

open OpTree FirstFit

/-- `strncmp` against a literal without a NUL, whatever each reading of a byte may change. -/
theorem run_strncmp {σ ε : Type} {exec : (o : Op) → σ → Except ε (o.Res × σ)} {I : σ → Prop}
    {str : Nat → Code Byte} {head : List Byte} {same : Nat → Prop} {m : Nat}
    (hnul : ∀ k < m, head.getD k 0#8 ≠ 0#8) (hread : ∀ k < m, ∀ t, I t →
      ∃ b u, Prog.run exec (str k) t = .ok (b, u) ∧ I u ∧ (b = head.getD k 0#8 ↔ same k))
    {i n : Nat} (hle : i + n ≤ m) {t : σ} (ht : I t) :
    ∃ c u, Prog.run exec (strncmp str (literal head) i n) t = .ok (c, u) ∧ I u ∧
      (c = 0 ↔ ∀ k, i ≤ k → k < i + n → same k) := by
  induction n generalizing i t with
  | zero => exact ⟨0, t, rfl, ht, ⟨fun _ k hk hlt => absurd hk (by omega), fun _ => rfl⟩⟩
  | succ n ih =>
    have hi : i < m := by omega
    have hliteral (s : σ) : Prog.run exec (literal head i) s = .ok (head.getD i 0#8, s) := rfl
    obtain ⟨b, u, hb, hu, hiff⟩ := hread i hi t ht
    rw [strncmp, Prog.run_bind_ok _ hb]
    by_cases hsame : same i
    · obtain rfl := hiff.mpr hsame
      obtain ⟨c, v, hc, hv, hrest⟩ := ih (i := i + 1) (by omega) hu
      refine ⟨c, v, ?_, hv, hrest.trans
        ⟨fun h k hk hlt => ?_, fun h k hk hlt => h k (by omega) (by omega)⟩⟩
      · rw [if_neg (hnul i hi), Prog.run_bind_ok _ (hliteral u), Prog.pure_eq, Prog.ret_bind]
        show Prog.run exec
          (if decide (head.getD i 0#8 ≠ 0#8 ∧ head.getD i 0#8 = head.getD i 0#8) = true then
          _ else _) u = _
        rwa [if_pos (decide_eq_true ⟨hnul i hi, rfl⟩)]
      · rcases Nat.eq_or_lt_of_le hk with rfl | hlt'
        · exact hsame
        · exact h k hlt' (by omega)
    · have hne : b ≠ head.getD i 0#8 := fun he => hsame (hiff.mp he)
      -- the byte is read once more
      obtain ⟨b', v, hb', hv, hiff'⟩ := hread i hi u hu
      have hne' : b' ≠ head.getD i 0#8 := fun he => hsame (hiff'.mp he)
      refine ⟨(b'.toNat : Int) - (head.getD i 0#8).toNat, v, ?_, hv, ⟨fun hc => ?_, fun h => ?_⟩⟩
      · have hend : Prog.run exec (str i >>= fun a => literal head i >>= fun b =>
            (return (a.toNat : Int) - b.toNat : Code Int)) u =
              .ok ((b'.toNat : Int) - (head.getD i 0#8).toNat, v) := by
          rw [Prog.run_bind_ok _ hb', Prog.run_bind_ok _ (hliteral v)]
          rfl
        by_cases hzero : b = 0#8
        · rw [if_pos hzero]
          exact hend
        · rw [if_neg hzero, Prog.run_bind_ok _ (hliteral u), Prog.pure_eq, Prog.ret_bind]
          show Prog.run exec (if decide (head.getD i 0#8 ≠ 0#8 ∧ b = head.getD i 0#8) = true then
            _ else _) u = _
          rwa [if_neg (by rw [decide_eq_true_eq]; exact fun h => hne h.2)]
      · exact absurd (BitVec.eq_of_toNat_eq (by omega)) hne'
      · exact absurd (h i (Nat.le_refl i) (by omega)) hsame

section Stands

variable {image : KernelImage} {D : Finset Index} {s t : Machine} {v : Word} {head : List Byte} {n : Nat}

/-- The signature stands at `v`, in pages that are mapped. -/
def Machine.Stands (s : Machine) (v : Word) (head : List Byte) : Prop :=
  ∀ k < 4, ∃ q, s.translate (v + BitVec.ofNat 32 k) = some q ∧ s.byte q = head.getD k 0#8

/-- The frames still to be handed out hold no byte of the signature. -/
def Machine.Fresh (s : Machine) (head : List Byte) : Prop :=
  ∀ q, s.globals.curPhysaddr.toNat / 4096 ≤ (frameOf q).toNat → ∀ k < 4, s.byte q ≠ head.getD k 0#8

/-- `v` is outside the window, and what is mapped there belongs to no page table. -/
structure Followed (image : KernelImage) (s : Machine) (v : Word) : Prop where
  outside : ∀ k < 4, dirOf (v + BitVec.ofNat 32 k) ≠ selfDir
  apart : ∀ k < 4, ∀ q, s.translate (v + BitVec.ofNat 32 k) = some q → image.Apart (frameOf q)

/-- The comparison at `v` finds the signature where it stands, through whatever page faults. -/
theorem Grown.ran_strncmp (hg : Grown image D s t) (hcounter : 0x10000000 ≤ s.globals.curPhysaddr.toNat)
    (hfresh : s.Fresh head) (hnul : ∀ k < 4, head.getD k 0#8 ≠ 0#8) (hv : Followed image s v)
    (hD : ∀ k < 4, dirOf (v + BitVec.ofNat 32 k) ∈ D) (n : Nat) :
    ∃ c u, Ran image (n + 1) (strncmp (bytesAt v) (literal head) 0 4) t c u ∧ Grown image D s u ∧
      (c = 0 ↔ s.Stands v head) := by
  have hread (k : Nat) (hk : k < 4) (t : Machine) (ht : Grown image D s t) : ∃ b u,
      Ran image (n + 1) (bytesAt v k) t b u ∧ Grown image D s u ∧
        (b = head.getD k 0#8 ↔ ∃ q, s.translate (v + BitVec.ofNat 32 k) = some q ∧
          s.byte q = head.getD k 0#8) := by
    obtain ⟨q, u, hr, hu, hq⟩ := ht.ran_loadByte hcounter (hD k hk) (hv.outside k hk) (hv.apart k hk) n
    refine ⟨s.byte q, u, hr, hu, ?_⟩
    rcases hq with hq | ⟨hq, hle⟩
    · simp [hq]
    · exact iff_of_false (hfresh q hle k hk) fun ⟨q', hq', _⟩ =>
        Option.some_ne_none q' (hq'.symm.trans hq)
  obtain ⟨c, u, hr, hu, hiff⟩ := run_strncmp hnul hread (Nat.le_refl (0 + 4)) hg
  exact ⟨c, u, hr, hu, hiff.trans ⟨fun h k hk => h k (Nat.zero_le k) (by omega),
    fun h k _ hk => h k (by omega)⟩⟩

end Stands

/-- The `i`-th word of the first table listed in `s`, as it stands in `t`. -/
def Machine.pointer (s t : Machine) (root : Word) (i : Nat) : Word :=
  t.word (s.rootEntry root 0 + BitVec.ofNat 32 (4 * i))

/-- The directory entries these words lead through. -/
def Machine.pointerDirs (s t : Machine) (root : Word) : Finset Index :=
  (Finset.range (s.rootCount root)).biUnion fun i =>
    (Finset.range 4).image fun k => dirOf (s.pointer t root i + BitVec.ofNat 32 k)

/-- The words lie in the page of the first table, and can be followed: outside the window and the
page tables, with page tables left for them, and to no frame that shows the signature by chance. -/
structure Followable (image : KernelImage) (s t : Machine) (root : Word) (head : List Byte) : Prop where
  inPage : ∀ i < s.rootCount root, (s.rootEntry root 0).toNat % 4096 + 4 * i + 4 ≤ 4096
  apart : image.Apart (frameOf (s.rootEntry root 0))
  followed : ∀ i < s.rootCount root, Followed image t (s.pointer t root i)
  room : Room (s.pointerDirs t root) t
  fresh : t.Fresh head

section Image

variable {image : KernelImage} {m n : Nat} {s₀ s t u : Machine} {root r : Word} {head : List Byte}

theorem apart_add {q : Word} (hq : image.Apart (frameOf q)) {k : Nat}
    (hk : q.toNat % 4096 + k + 4 ≤ 4096) (j : Nat) (hj : j < 4) :
    image.Apart (frameOf (q + BitVec.ofNat 32 k + BitVec.ofNat 32 j)) := by
  rwa [BitVec.add_assoc, ← BitVec.ofNat_add, Machine.frameOf_add (by omega)]

/-- One iteration follows one word. -/
theorem Rewritten.ran_pointedEntry (h : Rewritten image s root (s.rootCount root) t)
    (ht : RootTable image s root) (hf : Followable image s t root head)
    (hnul : ∀ k < 4, head.getD k 0#8 ≠ 0#8) (hcounter : 0x10000000 ≤ t.globals.curPhysaddr.toNat)
    {i : Nat} (hi : i < s.rootCount root) (hu : Grown image (s.pointerDirs t root) t u) (n : Nat) :
    ∃ r w, Ran image (n + 1) (pointedEntry (s.rootTable root) head i) u r w ∧
      Grown image (s.pointerDirs t root) t w ∧
      (t.Stands (s.pointer t root i) head ∧ r = some (s.pointer t root i) ∨
        ¬ t.Stands (s.pointer t root i) head ∧ r = none) := by
  have hzero : 0 < s.rootCount root := by omega
  have hin := ht.inPage
  have hlen := ht.length
  have hentry := ht.entry_le hzero
  have hpage := hf.inPage i hi
  have hslot : t.word (root + BitVec.ofNat 32 36) = s.entryTable root 0 := h.slots 0 hzero
  have hfirst := hu.ran_load (h.table.reads (k := 36) (by omega))
    (apart_add ht.apart (k := 36) (by omega)) (n + 1)
  have hword := hu.ran_load ((h.tables 0 hzero).reads (k := 4 * i) (by omega))
    (apart_add hf.apart (k := 4 * i) (by omega)) (n + 1)
  have hmul : 4#32 * BitVec.ofNat 32 i = BitVec.ofNat 32 (4 * i) := by
    apply BitVec.eq_of_toNat_eq
    simp only [BitVec.toNat_mul, BitVec.toNat_ofNat]
    omega
  have hD (k : Nat) (hk : k < 4) :
      dirOf (s.pointer t root i + BitVec.ofNat 32 k) ∈ s.pointerDirs t root :=
    Finset.mem_biUnion.mpr ⟨i, Finset.mem_range.mpr hi, Finset.mem_image.mpr
      ⟨k, Finset.mem_range.mpr hk, rfl⟩⟩
  obtain ⟨c, w, hc, hw, hiff⟩ := hu.ran_strncmp hcounter hf.fresh hnul (hf.followed i hi) hD n
  rw [hslot] at hfirst
  refine ⟨if c = 0 then some (s.pointer t root i) else none, w, ?_, hw, ?_⟩
  · rw [pointedEntry, Ran, Prog.run_bind_ok _ hfirst, hmul, Prog.run_bind_ok _ hword]
    exact (Prog.run_bind_ok _ hc).trans rfl
  · by_cases hzero : c = 0
    · exact Or.inl ⟨hiff.mp hzero, if_pos hzero⟩
    · exact Or.inr ⟨fun hs => hzero (hiff.mpr hs), if_neg hzero⟩

/-- `find_entry_in_RSDT` returns the first of the words the signature stands at. -/
theorem Rewritten.ran_findEntryInRSDT (h : Rewritten image s root (s.rootCount root) t)
    (ht : RootTable image s root) (hversion : s.globals.acpiVersion = false)
    (hpageable : Pageable image t) (hf : Followable image s t root head)
    (hnul : ∀ k < 4, head.getD k 0#8 ≠ 0#8) (n : Nat) :
    ∃ r u, Ran image (n + 1) (findEntryInRSDT head) t r u ∧
      (r = 0#32 ∧ (∀ i < s.rootCount root, ¬ t.Stands (s.pointer t root i) head) ∨
        ∃ i < s.rootCount root, t.Stands (s.pointer t root i) head ∧
          (∀ j < i, ¬ t.Stands (s.pointer t root j) head) ∧ r = s.pointer t root i) := by
  have hrsdt := h.rsdt_eq hversion
  have hcount : s.rootCount root = ((s.word (root + 4#32) - 36#32) / 4#32).toNat := by
    rw [Machine.rootCount, Globals.stride, hversion]
    rfl
  have hload : Ran image (n + 1) (Code.load (t.globals.rsdt + 4#32)) t (s.word (root + 4#32)) t := by
    rw [hrsdt]
    exact ran_of_run (Machine.run_load_iff.mpr ⟨rfl, h.readsLength ht⟩)
  obtain ⟨r, u, hr, -, hcases⟩ := Prog.run_search_first (Machine.demand image (n + 1))
    (pointedEntry (s.rootTable root) head) (fun u => Grown image (s.pointerDirs t root) t u)
    (fun i => t.Stands (s.pointer t root i) head) (s.pointer t root) (i := 0) (n := s.rootCount root)
    (.refl hpageable hf.room) fun i u _ hi hu =>
      h.ran_pointedEntry ht hf hnul hpageable.counter (by omega) hu n
  refine ⟨r.getD 0#32, u, ?_, ?_⟩
  · rw [findEntryInRSDT, Ran, Prog.run_bind_ok _ (ran_get _), Prog.run_bind_ok _ hload, hrsdt]
    show Prog.run _ (Prog.search _ 0 ((s.word (root + 4#32) - 36#32) / 4#32).toNat >>= _) t = _
    rw [← hcount, Prog.run_bind_ok _ hr]
    rfl
  · rcases hcases with ⟨rfl, hnone⟩ | ⟨i, -, hi, hhit, hbefore, rfl⟩
    · exact Or.inl ⟨rfl, fun i hi => hnone i (Nat.zero_le i) (by omega)⟩
    · exact Or.inr ⟨i, by omega, hhit, fun j hj => hbefore j (Nat.zero_le j) hj, rfl⟩

/-- Both lookups return, and the same. -/
def LookupsAgree (image : KernelImage) (n : Nat) (t : Machine) (signature : List Byte) : Prop :=
  ∃ r u v, Ran image n (findEntryInRSDT signature) t r u ∧ Ran image n (findByHeader signature) t r v

/-- Nothing is mapped at `NULL` before the first page fault. -/
theorem Paged.not_stands_zero (h : Paged image t) : ¬ t.Stands 0#32 head := by
  intro hstands
  obtain ⟨q, hq, -⟩ := hstands 0 (by decide)
  have hd : present (t.pde (dirOf (0#32 + BitVec.ofNat 32 0))) = false := by
    by_contra hd
    exact absurd (h.high _ (eq_true_of_ne_false hd)) (by decide)
  rw [Machine.translate, Machine.walk_eq_none_iff.mpr (Or.inl hd)] at hq
  cases hq

theorem Rewritten.stands_entryTable (h : Rewritten image s root (s.rootCount root) t)
    (hp : Placed image s root) {j : Nat} (hj : j < s.rootCount root)
    (hhas : t.HasSignature (s.rootEntry root j) head) :
    t.Stands (s.entryTable root j) head := by
  intro k hk
  have hin := hp.signatures j hj
  exact ⟨_, ((h.tables j hj).add (k := k) (by omega)).translate, hhas k hk⟩

end Image

/-- What `init_rsdt` makes of the RSDT above: the first word of its FADT, no address of a table,
can be followed. -/
theorem exists_rsdt_followable : ∃ s₀ s t : Machine, Booted alignedImage s₀ ∧
    s₀.run findRoot = .ok (rsdtFirmware.root, s) ∧ s.globals.acpiVersion = false ∧
      Placed alignedImage s rsdtFirmware.root ∧
      s₀.run (initRsdt alignedImage) = .ok ((), t) ∧
      Rewritten alignedImage s rsdtFirmware.root (s.rootCount rsdtFirmware.root) t ∧
      s.rootCount rsdtFirmware.root = 1 ∧
      (∀ head : List Byte, (∀ k < 4, head.getD k 0#8 ≠ 0#8) →
        Followable alignedImage s t rsdtFirmware.root head) ∧
      (∀ head, ¬ t.Stands (s.pointer t rsdtFirmware.root 0) head) ∧
      ∀ k < 4, t.byte (s.rootEntry rsdtFirmware.root 0 + BitVec.ofNat 32 k) = facp.getD k 0#8 := by
  obtain ⟨s₀, s, t, hb, hfind, ⟨hversion, -⟩, -, ht, hcount, hentries, hr, h, hbyte⟩ :=
    rsdtFirmware.exists_initRsdt alignedImage (by decide)
  have hone : s.rootCount rsdtFirmware.root = 1 := hcount.trans (by decide)
  have hentry : s.rootEntry rsdtFirmware.root 0 = 0x00801000#32 :=
    (hentries 0 (by decide)).trans (by decide)
  have hp : Placed alignedImage s rsdtFirmware.root := by
    refine ⟨ht, fun i hi => ?_⟩
    obtain rfl : i = 0 := by omega
    rw [hentry]
    decide
  have hfar (k : Nat) (hk : k < 4) : t.byte (0x00801000#32 + BitVec.ofNat 32 k) = facp.getD k 0#8 := by
    rw [hbyte _ (by revert k; decide) fun _ => by revert k; decide]
    exact (by decide : ∀ k < 4, rsdtFirmware.byte (0x00801000#32 + BitVec.ofNat 32 k) =
      facp.getD k 0#8) k hk
  have hword : s.pointer t rsdtFirmware.root 0 = 0x50434146#32 := by
    rw [Machine.pointer, hentry]
    refine (LittleEndian.word_congr (m := rsdtFirmware.byte) ?_ fun k hk => ?_).trans (by decide)
    · exact hbyte _ (by decide) fun _ => by decide
    · exact hbyte _ (by revert k; decide) fun _ => by revert k; decide
  have habsent (k : Nat) (hk : k < 4) : t.translate (0x50434146#32 + BitVec.ofNat 32 k) = none := by
    have hlow : (dirOf (0x50434146#32 + BitVec.ofNat 32 k)).toNat < 768 := by
      revert k
      decide
    have hd : present (t.pde (dirOf (0x50434146#32 + BitVec.ofNat 32 k))) = false := by
      by_contra hd
      exact absurd (h.paged.high _ (eq_true_of_ne_false hd)) (by omega)
    rw [Machine.translate, Machine.walk_eq_none_iff.mpr (Or.inl hd), Option.map_none]
  have hfresh (head : List Byte) (hnul : ∀ k < 4, head.getD k 0#8 ≠ 0#8) : t.Fresh head := by
    intro q hq k hk
    rw [hb.curPhysaddr_of_initRsdt hfind hr] at hq
    have hzero : rsdtFirmware.byte q = 0#8 := rsdtFirmware.byte_eq_zero (by decide) hq
    have hge : 0x10000000 ≤ q.toNat := by
      rw [frameOf_toNat] at hq
      simp only [BitVec.toNat_ofNat] at hq
      omega
    have hroot : rsdtFirmware.root.toNat = 0x00800000 := by decide
    rw [hbyte q (by omega) fun _ => by
      rw [BitVec.toNat_sub, hroot, show rsdtFirmware.count = 1 by decide]
      have hlt := q.isLt
      omega, hzero]
    exact (hnul k hk).symm
  refine ⟨s₀, s, t, hb, hfind, hversion.trans (by decide), hp, hr, by rw [hcount]; exact h, hone,
    fun head hnul => ⟨fun i hi => ?_, ?_, fun i hi => ?_, h.paged.room ?_, hfresh head hnul⟩,
    fun head hs => ?_, fun k hk => ?_⟩
  · obtain rfl : i = 0 := by omega
    rw [hentry]
    decide
  · rw [hentry]
    exact KernelImage.apart_of_outside (Or.inr (Nat.le_trans (KernelImage.size_le _) (by decide)))
  · obtain rfl : i = 0 := by omega
    rw [hword]
    exact ⟨by decide, fun k hk q hq => absurd ((habsent k hk).symm.trans hq) (by simp)⟩
  · have hdirs : s.pointerDirs t rsdtFirmware.root = {0x141#10} := by
      rw [Machine.pointerDirs, hone, Finset.range_one, Finset.singleton_biUnion, hword]
      decide
    rw [hdirs]
    decide
  · rw [hword] at hs
    obtain ⟨q, hq, -⟩ := hs 0 (by decide)
    exact absurd ((habsent 0 (by decide)).symm.trans hq) (by simp)
  · rw [hentry]
    exact hfar k hk

end PekOS
