import PekOS.Backing
import PekOS.Demand
import PekOS.Bytes

/-! Reading under demand paging: a page that is mapped is read as it stands, and
an absent one shows the frame the page-fault handler hands out for it. -/

namespace PekOS

open OpTree Machine

/-- The page tables left are enough for the entries that have none. -/
def Room (D : Finset Index) (s : Machine) : Prop :=
  s.globals.kernelPTIndex.toNat + (D.filter fun d => present (s.pde d) = false).card ≤ 256

variable {image : KernelImage} {s t u : Machine} {D : Finset Index} {o : Op} {v a x : Word}

/-- `map_page` writes to page tables only, one that is taken for the page included. -/
theorem Tables.mem_afterMap_of_le (h : Tables image s) {p v flags : Word}
    (hle : s.globals.kernelPTIndex.toNat ≤ 256)
    (hk : present (s.pde (dirOf v)) = false → TableLeft s) {f : Frame} (hf : image.Apart f) (i : Index) :
    (s.afterMap image p v flags).mem f i = s.mem f i := by
  by_cases hd : present (s.pde (dirOf v)) = true
  · rw [Machine.afterMap, if_pos hd]
    split
    · rfl
    · rw [put_mem, poke_of_frame_ne (h.unused_of_apart hle hf _ hd).symm]
  · exact h.mem_afterMap (hk (Bool.eq_false_iff.mpr hd)) hf i

theorem Room.tableLeft (hr : Room D s) {d : Index} (hd : d ∈ D) (hp : present (s.pde d) = false) :
    TableLeft s := by
  have hpos : 0 < (D.filter fun d => present (s.pde d) = false).card :=
    Finset.card_pos.mpr ⟨d, Finset.mem_filter.mpr ⟨hd, hp⟩⟩
  unfold Room at hr
  unfold TableLeft
  omega

theorem Room.left (hr : Room D s) (hv : dirOf v ∈ D) (hp : present (s.pde (dirOf v)) = false) :
    TableLeft s :=
  hr.tableLeft hv hp

namespace Pageable

section Fault

variable (h : Pageable image s) (hr : Room D s) (hv : dirOf v ∈ D) (hself : dirOf v ≠ selfDir)

include h hr hv

theorem mem_afterFault {f : Frame} (hf : image.Apart f) (i : Index) :
    (s.afterFault image v).mem f i = s.mem f i := by
  have hle := h.kernelPTIndex
  rw [← Machine.takeFrame_kernelPTIndex] at hle
  rw [h.tables.takeFrame.mem_afterMap_of_le hle (tableLeft_takeFrame (hr.left hv)) hf,
    Machine.takeFrame_mem]

include hself

theorem run_fault {ec : Word} (hec : Resumable ec) :
    s.run (pageFaultHandler image v ec) = .ok ((), s.afterFault image v) := by
  rw [Machine.pageFaultHandler_page hec hself, Machine.run,
    Prog.run_bind_ok Machine.exec (Machine.run_globals _), ← Machine.takeFrame]
  exact h.tables.takeFrame.run_mapPage s.globals.curPhysaddr v 3#32 (tableLeft_takeFrame (hr.left hv))

theorem room_afterFault : Room D (s.afterFault image v) := by
  have hk := tableLeft_takeFrame (hr.left hv)
  have hpde (d : Index) : (s.afterFault image v).pde d =
      if present (s.takeFrame.pde (dirOf v)) = false ∧ d = dirOf v then
        s.takeFrame.nextTable image ||| 3#32
      else s.takeFrame.pde d :=
    h.tables.takeFrame.editable.toSelfMapped.pde_afterMap h.tables.takeFrame.distinct hself
      (fun hd => h.tables.takeFrame.unused_nextTable (hk hd)) d
  unfold Room at hr ⊢
  by_cases hd : present (s.pde (dirOf v)) = true
  · have hsame (d : Index) : (s.afterFault image v).pde d = s.pde d := by
      rw [hpde, pde_takeFrame, pde_takeFrame, if_neg]
      rw [hd]
      exact fun he => Bool.noConfusion he.1
    rw [afterMap_globals, pde_takeFrame, if_pos hd, Machine.takeFrame_kernelPTIndex]
    simpa only [hsame] using hr
  · have hd' := Bool.eq_false_iff.mpr hd
    have hsub : (D.filter fun d => present ((s.afterFault image v).pde d) = false) ⊆
        (D.filter fun d => present (s.pde d) = false).erase (dirOf v) := by
      intro d hmem
      obtain ⟨hdD, hdp⟩ := Finset.mem_filter.mp hmem
      rw [hpde, pde_takeFrame, pde_takeFrame] at hdp
      by_cases he : d = dirOf v
      · rw [if_pos ⟨hd', he⟩, present_or_three] at hdp
        exact Bool.noConfusion hdp
      · rw [if_neg fun h => he h.2] at hdp
        exact Finset.mem_erase.mpr ⟨he, Finset.mem_filter.mpr ⟨hdD, hdp⟩⟩
    have hcard := Finset.card_le_card hsub
    have hmem : dirOf v ∈ D.filter fun d => present (s.pde d) = false := Finset.mem_filter.mpr ⟨hv, hd'⟩
    have hpos := Finset.card_pos.mpr ⟨_, hmem⟩
    rw [Finset.card_erase_of_mem hmem] at hcard
    rw [afterMap_globals, pde_takeFrame, if_neg hd, kernelPTIndex_takeTable (hk (by rwa [pde_takeFrame])),
      Machine.takeFrame_kernelPTIndex]
    omega

end Fault

end Pageable

theorem byteAt_none {x : Word} (hn : s.walk (dirOf x) (tabOf x) = none) :
    s.byteAt x = .error (.notPresent x false) := by
  rw [byteAt, access, hn]

theorem demand_fault {n : Nat} {w : Bool} (he : Machine.exec o s = .error (.notPresent a w))
    (hr : s.run (pageFaultHandler image a (faultCode w)) = .ok ((), t)) :
    Machine.demand image (n + 1) o s = Machine.demand image n o t := by
  have hrun := Prog.run_mono (Machine.demand image n) (fun o s x => demand_of_exec) hr
  rw [Machine.demand, he]
  simp only [hrun]

theorem resumable_faultCode (w : Bool) : Resumable (faultCode w) := by
  cases w with
  | false => exact ⟨rfl, rfl⟩
  | true => exact ⟨rfl, rfl⟩

/-- `t` is `s` but for faults on pages under `D`. -/
structure Grown (image : KernelImage) (D : Finset Index) (s t : Machine) : Prop where
  pageable : Pageable image t
  room : Room D t
  kept : ∀ d i, s.walk d i ≠ none → t.walk d i = s.walk d i
  added : ∀ d i m, d ≠ selfDir → s.walk d i = none → t.walk d i = some m →
    s.globals.curPhysaddr.toNat / 4096 ≤ m.frame.toNat
  memory : ∀ f, image.Apart f → ∀ i, t.mem f i = s.mem f i
  counter : s.globals.curPhysaddr.toNat ≤ t.globals.curPhysaddr.toNat
  globals : ∃ p k, t.globals = { s.globals with curPhysaddr := p, kernelPTIndex := k }

namespace Grown

theorem refl (h : Pageable image s) (hr : Room D s) : Grown image D s s :=
  ⟨h, hr, fun _ _ _ => rfl, fun _ _ _ _ hn hm => absurd (hn.symm.trans hm) (by simp), fun _ _ _ => rfl,
    Nat.le_refl _, _, _, rfl⟩

theorem trans (h : Grown image D s t) (h' : Grown image D t u) : Grown image D s u := by
  have hcounter := h.counter
  refine ⟨h'.pageable, h'.room, fun d i hm => ?_, fun d i m hd hs hm => ?_, fun f hf i => ?_,
    hcounter.trans h'.counter, ?_⟩
  · have ht := h.kept d i hm
    rw [h'.kept d i (by rwa [ht]), ht]
  · cases ht : t.walk d i with
    | none =>
      have hle := h'.added d i m hd ht hm
      omega
    | some m' =>
      have hsame := h'.kept d i (by rw [ht]; exact Option.some_ne_none m')
      exact h.added d i m hd hs (hsame ▸ hm)
  · rw [h'.memory f hf, h.memory f hf]
  · obtain ⟨p, k, hg⟩ := h.globals
    obtain ⟨p', k', hg'⟩ := h'.globals
    exact ⟨p', k', by rw [hg', hg]⟩

theorem afterFault (h : Pageable image s) (hr : Room D s) (hv : dirOf v ∈ D) (hself : dirOf v ≠ selfDir)
    (hn : s.walk (dirOf v) (tabOf v) = none) : Grown image D s (s.afterFault image v) := by
  have hk := hr.left hv
  have hcur := h.curPhysaddr_afterFault v
  refine ⟨h.faulted hk hself hn, h.room_afterFault hr hv hself,
    fun d i hm => h.tables.walk_afterFault_of_mapped h.curPhysaddr hself hk hm, fun d i m hd hs hm => ?_,
    fun f hf i => h.mem_afterFault hr hv hf i, by omega, ?_⟩
  · rw [h.tables.walk_afterFault h.curPhysaddr hself hk hd] at hm
    by_cases he : d = dirOf v ∧ i = tabOf v
    · obtain ⟨rfl, rfl⟩ := he
      rw [enter_same, hn, Option.getD_none] at hm
      obtain rfl := Option.some.inj hm
      rw [frameOf_toNat]
    · rw [enter_of_ne _ _ he, hs] at hm
      cases hm
  · rw [afterMap_globals]
    split
    · rw [Machine.takeFrame, Machine.withGlobals_globals, findFreePhysaddr]
      exact ⟨_, _, rfl⟩
    · rw [Machine.takeTable_globals, Machine.takeFrame, Machine.withGlobals_globals, findFreePhysaddr]
      exact ⟨_, _, rfl⟩

theorem byte (h : Grown image D s t) {q : Word} (hq : image.Apart (frameOf q)) : t.byte q = s.byte q := by
  rw [Machine.byte, Machine.byte, h.memory _ hq]

theorem translate (h : Grown image D s t) {q : Word} (hq : s.translate x = some q) :
    t.translate x = some q := by
  obtain ⟨m, hm, rfl⟩ := translate_eq_some hq
  rw [Machine.translate, h.kept _ _ (by rw [hm]; exact Option.some_ne_none _), hm, Option.map_some]

end Grown

theorem Pageable.withGlobals (h : Pageable image s) {g : Globals}
    (hk : g.kernelPTIndex = s.globals.kernelPTIndex) (hp : g.curPhysaddr = s.globals.curPhysaddr) :
    Pageable image (s.withGlobals g) :=
  ⟨h.tables.of_mem rfl rfl hk, hk ▸ h.kernelPTIndex, hp ▸ h.curPhysaddr, hp ▸ h.counter, hp ▸ h.taken⟩

theorem Paged.pageable (h : Paged image s) (hcur : s.globals.curPhysaddr = 0x10000000#32) :
    Pageable image s := by
  have hleft := h.tableLeft
  unfold TableLeft at hleft
  exact ⟨h.tables, by omega, by rw [hcur]; decide, by rw [hcur]; decide, by
    rw [hcur]; exact Nat.le_add_right _ _⟩

theorem Paged.room (h : Paged image s) (hD : D.card ≤ 2) : Room D s := by
  have hle := h.tables.kernelPTIndex_le h.high
  have hcard := Finset.card_le_card (Finset.filter_subset (fun d => present (s.pde d) = false) D)
  unfold Room
  omega

/-- The physical address that is behind `x` once it has been accessed. -/
def Machine.behind (s : Machine) (x : Word) : Word :=
  (s.translate x).getD (frameOf s.globals.curPhysaddr ++ offsetOf x)

/-- An absent page is mapped to the next frame, and the access goes on. -/
theorem Pageable.ran_loadByte (h : Pageable image s) (hr : Room D s) (hx : dirOf x ∈ D)
    (hself : dirOf x ≠ selfDir) (n : Nat) :
    ∃ t, Ran image (n + 1) (Code.loadByte x) s (s.byte (s.behind x)) t ∧ Grown image D s t ∧
      t.translate x = some (s.behind x) := by
  cases hm : s.walk (dirOf x) (tabOf x) with
  | some m =>
    have htr : s.translate x = some (s.behind x) := by
      rw [Machine.behind, Machine.translate, hm, Option.map_some, Option.getD_some]
    exact ⟨s, ran_of_run (Machine.run_loadByte htr), .refl h hr, htr⟩
  | none =>
    have hbehind : s.behind x = Mapping.phys ⟨frameOf s.globals.curPhysaddr, true⟩ x := by
      rw [Machine.behind, Machine.translate, hm, Option.map_none, Option.getD_none, Mapping.phys]
    have hgrown := Grown.afterFault h hr hx hself hm
    have hwalk := h.tables.walk_afterFault h.curPhysaddr hself (hr.left hx) hself (tabOf x)
    rw [enter_same, hm, Option.getD_none] at hwalk
    have htr : (s.afterFault image x).translate x = some (s.behind x) := by
      rw [hbehind, Machine.translate, hwalk, Option.map_some]
    have hapart : image.Apart (frameOf (s.behind x)) := by
      have hcounter := h.counter
      rw [hbehind, Mapping.phys, frameOf_append]
      refine KernelImage.apart_of_ge ?_
      rw [frameOf_toNat]
      omega
    have hload := Machine.run_loadByte htr
    rw [hgrown.byte hapart, Code.loadByte, Machine.run, Prog.run_perform] at hload
    have hfault : Machine.exec (.loadByte x) s = .error (.notPresent x false) := by
      rw [Machine.exec, byteAt_none hm]
      rfl
    refine ⟨_, ?_, hgrown, htr⟩
    rw [Ran, Code.loadByte, Prog.run_perform, demand_fault (n := n) hfault
      (h.run_fault hr hx hself (resumable_faultCode false))]
    exact demand_of_exec hload

namespace Grown

/-- A byte that is mapped is read as it was; another comes from a frame that was still to be handed
out. -/
theorem ran_loadByte (h : Grown image D s t) (hcounter : 0x10000000 ≤ s.globals.curPhysaddr.toNat)
    (hx : dirOf x ∈ D) (hself : dirOf x ≠ selfDir)
    (hapart : ∀ q, s.translate x = some q → image.Apart (frameOf q)) (n : Nat) :
    ∃ q u, Ran image (n + 1) (Code.loadByte x) t (s.byte q) u ∧ Grown image D s u ∧
      (s.translate x = some q ∨ s.translate x = none ∧
        s.globals.curPhysaddr.toNat / 4096 ≤ (frameOf q).toNat) := by
  obtain ⟨u, hr, hu, htr⟩ := h.pageable.ran_loadByte h.room hx hself n
  have hgrown := h.trans hu
  obtain ⟨m, hm, hq⟩ := translate_eq_some htr
  have hframe : frameOf (t.behind x) = m.frame := by rw [← hq, Mapping.phys, frameOf_append]
  have hbehind : s.translate x = some (t.behind x) ∨
      s.translate x = none ∧ s.globals.curPhysaddr.toNat / 4096 ≤ (frameOf (t.behind x)).toNat := by
    cases hs : s.walk (dirOf x) (tabOf x) with
    | some m' =>
      have hsame := hgrown.kept _ _ (by rw [hs]; exact Option.some_ne_none m')
      exact Or.inl (by rw [Machine.translate, ← hsame, hm, Option.map_some, hq])
    | none =>
      rw [hframe]
      exact Or.inr ⟨by rw [Machine.translate, hs, Option.map_none], hgrown.added _ _ m hself hs hm⟩
  have hbyte : t.byte (t.behind x) = s.byte (t.behind x) := by
    refine h.byte ?_
    rcases hbehind with hs | ⟨-, hle⟩
    · exact hapart _ hs
    · exact KernelImage.apart_of_ge (by omega)
  exact ⟨t.behind x, u, hbyte ▸ hr, hgrown, hbehind⟩

theorem reads (h : Grown image D s t) {q : Word} (hq : s.Reads x q) : t.Reads x q :=
  ⟨h.translate hq.1, fun k hk => h.translate (hq.2 k hk)⟩

/-- A word that is mapped is read as it was. -/
theorem ran_load (h : Grown image D s t) {q : Word} (hq : s.Reads x q)
    (hapart : ∀ k < 4, image.Apart (frameOf (q + BitVec.ofNat 32 k))) (n : Nat) :
    Ran image n (Code.load x) t (s.word q) t := by
  have hzero := hapart 0 (by decide)
  rw [BitVec.add_zero] at hzero
  have hword : t.word q = s.word q := LittleEndian.word_congr (h.byte hzero) fun k hk =>
    h.byte (hapart k hk)
  have hload := Machine.run_load_word (h.reads hq)
  rw [hword] at hload
  exact ran_of_run hload

end Grown

end PekOS
