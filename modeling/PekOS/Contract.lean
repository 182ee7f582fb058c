import PekOS.Invariant

/-! The accesses of `map_page`, and its contract. -/

namespace PekOS

open OpTree

namespace Machine

/-- If the operation is an access, it goes through the window of a directory
still at `c`, to a table that is present, and to `f` when that is the table of `d`. -/
def Windowed (c : Frame) (d : Index) (f : Frame) (x : Op × Machine) : Prop :=
  ∀ a, x.1.address = some a → ∃ d' t, a = pteAddr d' t ∧ x.2.SelfMapped ∧ x.2.cr3 = c ∧
    PekOS.present (x.2.pde d') = true ∧ (d' = d → frameOf (x.2.pde d') = f)

variable {s : Machine} {c f : Frame} {d : Index}

theorem Windowed.of_none {o : Op} (ho : o.address = none) (s : Machine) : Windowed c d f (o, s) :=
  fun a ha => by simp [ho] at ha

theorem SelfMapped.windowed {o : Op} {d' t : Index} (hs : s.SelfMapped) (hc : s.cr3 = c)
    (ho : o.address = some (pteAddr d' t)) (hp : PekOS.present (s.pde d') = true)
    (hf : d' = d → frameOf (s.pde d') = f) : Windowed c d f (o, s) := by
  intro a ha
  exact ⟨d', t, Option.some.inj (ha.symm.trans ho), hs, hc, hp, hf⟩

/-- Sequencing for properties of all accesses. -/
theorem trace_then {α β : Type} {P : Op × Machine → Prop} {p : Code α} {k : α → Code β} {a : α}
    {u : Machine} (hr : s.run p = .ok (a, u)) (hp : ∀ x ∈ s.trace p, P x)
    (hk : ∀ x ∈ u.trace (k a), P x) : ∀ x ∈ s.trace (p >>= k), P x := by
  intro x hx
  rw [trace, Prog.trace_bind_ok exec hr] at hx
  rcases List.mem_append.mp hx with hx | hx
  · exact hp x hx
  · exact hk x hx

theorem trace_single {P : Op × Machine → Prop} {o : Op} (h : P (o, s)) :
    ∀ x ∈ s.trace (Prog.perform o), P x := by
  intro x hx
  rw [trace, Prog.trace_perform, List.mem_singleton] at hx
  exact hx ▸ h

theorem SelfMapped.windowed_load (hs : s.SelfMapped) (hc : s.cr3 = c) {d' : Index}
    (hp : PekOS.present (s.pde d') = true) (hf : d' = d → frameOf (s.pde d') = f) (t : Index) :
    ∀ x ∈ s.trace (Code.load (pteAddr d' t)), Windowed c d f x :=
  trace_single (hs.windowed hc rfl hp hf)

theorem SelfMapped.windowed_store (hs : s.SelfMapped) (hc : s.cr3 = c) {d' : Index}
    (hp : PekOS.present (s.pde d') = true) (hf : d' = d → frameOf (s.pde d') = f) (t : Index) (w : Word) :
    ∀ x ∈ s.trace (Code.store (pteAddr d' t) w), Windowed c d f x :=
  trace_single (hs.windowed hc rfl hp hf)

theorem SelfMapped.windowed_load_pde (hs : s.SelfMapped) (hc : s.cr3 = c) (hd : d ≠ selfDir)
    (t : Index) : ∀ x ∈ s.trace (Code.load (pteAddr selfDir t)), Windowed c d f x :=
  hs.windowed_load hc hs.present (fun h => absurd h.symm hd) t

theorem SelfMapped.windowed_getPhysaddr (hs : s.SelfMapped) (hc : s.cr3 = c) (hd : d ≠ selfDir) (a : Word)
    (hf : PekOS.present (s.pde (dirOf a)) = true → dirOf a = d → frameOf (s.pde (dirOf a)) = f) :
    ∀ x ∈ s.trace (getPhysaddr a), Windowed c d f x := by
  unfold getPhysaddr
  simp only [shiftRight_eq_dirOf, shiftRight_and_eq_tabOf, pd_add_eq_pteAddr, ← pteAddr.eq_1,
    ite_and_one]
  refine trace_then (hs.run_load_pde (dirOf a)) (hs.windowed_load_pde hc hd _) ?_
  by_cases hp : PekOS.present (s.pde (dirOf a)) = true
  · rw [if_pos hp]
    refine trace_then (hs.run_load_pte hp (tabOf a)) (hs.windowed_load hc hp (hf hp) _) ?_
    by_cases ht : PekOS.present (s.pte (dirOf a) (tabOf a)) = true
    · rw [if_pos ht]
      exact trace_then (hs.run_load_pte hp (tabOf a)) (hs.windowed_load hc hp (hf hp) _) (by simp)
    · simp [ht]
  · simp [hp]

section Image

variable {image : KernelImage}

theorem SelfMapped.windowed_allocatePt (hs : s.SelfMapped) (hc : s.cr3 = c) (hd : d ≠ selfDir)
    (hp : PekOS.present (s.pde d) = false) :
    ∀ x ∈ s.trace (allocatePt image), Windowed c d f x := by
  unfold allocatePt
  refine trace_then (hs.run_getPhysaddr _) (hs.windowed_getPhysaddr hc hd _ fun h he => ?_) ?_
  · rw [he, hp] at h
    exact Bool.noConfusion h
  refine trace_then (run_get _) (trace_single (Windowed.of_none rfl _)) ?_
  refine trace_then (run_modify _) ?_
    (trace_then (a := ()) rfl (trace_single (Windowed.of_none rfl _)) (by simp))
  exact trace_then (a := (0#32 : Word)) rfl (trace_single (Windowed.of_none rfl _)) (by simp)

theorem Editable.windowed_createPt (hs : s.Editable) (hc : s.cr3 = c) (hd : d ≠ selfDir)
    (hp : PekOS.present (s.pde d) = false) (hF : frameOf (s.nextTable image) ≠ s.cr3)
    (hf : frameOf (s.nextTable image) = f) :
    ∀ x ∈ s.trace (createPt image (d.setWidth 32)), Windowed c d f x := by
  have ht : s.takeTable.Editable := hs.of_pde rfl rfl
  unfold createPt
  simp only [pd_add_eq_pteAddr]
  refine trace_then (hs.run_allocatePt image) (hs.windowed_allocatePt hc hd hp) ?_
  refine trace_then (ht.run_store_pde d _)
    (ht.windowed_store hc ht.present (fun h => absurd h.symm hd) d _) ?_
  refine Prog.trace_forUp exec
    (fun n _ u => u = (s.enterTable image d).clearTo (frameOf (s.nextTable image)) n)
    _ (by rw [clearTo, zeroTo_zero]; rfl) ?_
  rintro n - u hn rfl
  obtain ⟨hself, hde⟩ := hs.enterTable_clearTo image hp hF n
  rw [newPt_add_eq_pteAddr d hn]
  refine ⟨hself.windowed_store hc (by simp [hde]) (fun _ => by rw [hde, frameOf_or_three, hf]) _ _, ?_⟩
  intro b u hr
  simpa [hs.run_clear image hp hF hn] using hr.symm

theorem SelfMapped.windowed_mapPage_mapped (hs : s.SelfMapped) {p v flags : Word}
    (hv : dirOf v ≠ selfDir) (h : s.walk (dirOf v) (tabOf v) ≠ none) :
    ∀ x ∈ s.trace (mapPage image p v flags), Windowed s.cr3 (dirOf v) (frameOf (s.pde (dirOf v))) x := by
  have hm := not_or.mp (mt walk_eq_none_iff.mpr h)
  have hd := eq_true_of_ne_false hm.1
  have ht := eq_true_of_ne_false hm.2
  unfold mapPage
  simp only [shiftRight_eq_dirOf, shiftRight_and_eq_tabOf, pd_add_eq_pteAddr, ← pteAddr.eq_1,
    ite_and_one]
  refine trace_then (hs.run_load_pde _) (hs.windowed_load_pde rfl hv _) ?_
  rw [if_pos hd, Prog.pure_eq, Prog.ret_bind]
  refine trace_then (hs.run_load_pte hd _) (hs.windowed_load rfl hd (fun _ => rfl) _) ?_
  simp [ht]

theorem Editable.windowed_mapPage (hs : s.Editable) {p v flags : Word} (hv : dirOf v ≠ selfDir)
    (hu : PekOS.present (s.pde (dirOf v)) = false → s.Unused (frameOf (s.nextTable image)))
    (hf : f = if PekOS.present (s.pde (dirOf v)) = true then frameOf (s.pde (dirOf v))
      else frameOf (s.nextTable image)) :
    ∀ x ∈ s.trace (mapPage image p v flags), Windowed s.cr3 (dirOf v) f x := by
  unfold mapPage
  simp only [shiftRight_eq_dirOf, shiftRight_and_eq_tabOf, pd_add_eq_pteAddr, ← pteAddr.eq_1,
    ite_and_one]
  refine trace_then (hs.run_load_pde _) (hs.windowed_load_pde rfl hv _) ?_
  by_cases hd : PekOS.present (s.pde (dirOf v)) = true
  · rw [if_pos hd] at hf ⊢
    rw [Prog.pure_eq, Prog.ret_bind]
    refine trace_then (hs.run_load_pte hd _) (hs.windowed_load rfl hd (fun _ => hf.symm) _) ?_
    by_cases ht : PekOS.present (s.pte (dirOf v) (tabOf v)) = true
    · simp [ht]
    · rw [if_neg ht]
      exact hs.windowed_store rfl hd (fun _ => hf.symm) _ _
  · have hd' := Bool.eq_false_iff.mpr hd
    have hF := (hu hd').ne_cr3 hs.toSelfMapped
    have hn := hs.newTable image hd' hF
    have hnd := pde_newTable_same image hF (dirOf v)
    rw [if_neg hd] at hf ⊢
    have hfd : dirOf v = dirOf v → frameOf ((s.newTable image (dirOf v)).pde (dirOf v)) = f :=
      fun _ => by rw [hnd, frameOf_or_three, hf]
    refine trace_then (hs.run_createPt image hd' hF) (hs.windowed_createPt rfl hv hd' hF hf.symm) ?_
    refine trace_then (hn.run_load_pte (by simp [hnd]) _) (hn.windowed_load rfl (by simp [hnd]) hfd _) ?_
    by_cases ht : PekOS.present ((s.newTable image (dirOf v)).pte (dirOf v) (tabOf v)) = true
    · simp [ht]
    · rw [if_neg ht]
      exact hn.windowed_store rfl (by simp [hnd]) hfd _ _

end Image

end Machine

/-! The contract. -/

section Contract

variable (image : KernelImage)

structure MapPageInput (s : Machine) (physaddr virtualaddr flags : Word) : Prop where
  selfMapped : s.SelfMapped
  tablesDistinct : s.TablesDistinct
  newTable : PekOS.present (s.pde (dirOf virtualaddr)) = false →
    aligned 4096 (s.nextTable image) ∧ s.Unused (frameOf (s.nextTable image))
  physaddr : aligned 4096 physaddr
  virtualaddr : virtualaddr >>> 22 ≠ 1023#32
  flags : present flags = true

/-- What `map_page` promises: `t` is the machine it leaves. -/
structure MapPageOutput (s : Machine) (physaddr virtualaddr flags : Word) (t : Machine) : Prop where
  returns : s.run (mapPage image physaddr virtualaddr flags) = .ok ((), t)
  /-- Every access is to a present page, the one at `0xFFFFF000` being the
  directory and the one at `0xFFC00000 + (pdindex << 12)` the table of `virtualaddr`. -/
  accesses : ∀ x ∈ s.trace (mapPage image physaddr virtualaddr flags), ∀ a, x.1.address = some a →
    ∃ m, x.2.walk (dirOf a) (tabOf a) = some m ∧
      (frameOf a = 0xFFFFF#20 → m.frame = s.cr3) ∧
      (frameOf a = 0xFFC00#20 + (virtualaddr >>> 22).setWidth 20 →
        m.frame = frameOf (t.pde (dirOf virtualaddr)))
  entered : s.walk (dirOf virtualaddr) (tabOf virtualaddr) = none → ∀ o : BitVec 12,
    t.translate (frameOf virtualaddr ++ o) = some (physaddr + o.setWidth 32)
  others : ∀ a : Word, dirOf a ≠ selfDir → frameOf a ≠ frameOf virtualaddr → t.translate a = s.translate a
  fresh : PekOS.present (s.pde (dirOf virtualaddr)) = false → ∀ i, i ≠ tabOf virtualaddr →
    PekOS.present (t.pte (dirOf virtualaddr) i) = false
  dropped : s.walk (dirOf virtualaddr) (tabOf virtualaddr) ≠ none → t.cr3 = s.cr3 ∧ t.mem = s.mem

variable {image} {s : Machine} {p v flags : Word}

theorem Machine.Windowed.access {c : Frame} {d : Index} {f : Frame} {x : Op × Machine} {a : Word}
    (h : Machine.Windowed c d f x) (ha : x.1.address = some a) :
    ∃ m, x.2.walk (dirOf a) (tabOf a) = some m ∧ (frameOf a = 0xFFFFF#20 → m.frame = c) ∧
      (frameOf a = 0xFFC00#20 + d.setWidth 20 → m.frame = f) := by
  obtain ⟨d', t, rfl, hs, hc, hp, hf⟩ := h a ha
  have hframe : frameOf (pteAddr d' t) = 0xFFC00#20 + d'.setWidth 20 := by
    have hd' := d'.isLt
    have ht := t.isLt
    apply BitVec.eq_of_toNat_eq
    simp only [frameOf_toNat, pteAddr_toNat, BitVec.toNat_add, BitVec.toNat_setWidth, BitVec.toNat_ofNat]
    omega
  have hinj {i j : Index} (h : 0xFFC00#20 + i.setWidth 20 = 0xFFC00#20 + j.setWidth 20) : i = j := by
    have hi := i.isLt
    have hj := j.isLt
    have h' := congrArg BitVec.toNat h
    simp only [BitVec.toNat_add, BitVec.toNat_setWidth, BitVec.toNat_ofNat] at h'
    exact BitVec.eq_of_toNat_eq (by omega)
  refine ⟨_, by rw [dirOf_pteAddr, tabOf_pteAddr, hs.walk_window, if_pos hp], fun h => ?_, fun h => ?_⟩
  · obtain rfl : d' = selfDir := hinj (hframe.symm.trans h)
    exact hs.frame.trans hc
  · exact hf (hinj (hframe.symm.trans h))

theorem MapPageInput.dirOf_ne (h : MapPageInput image s p v flags) : dirOf v ≠ selfDir := by
  intro he
  refine h.virtualaddr ?_
  rw [shiftRight_eq_dirOf, he]
  rfl

theorem setWidth_shiftRight (v : Word) : (v >>> 22).setWidth 20 = (dirOf v).setWidth 20 := by
  have hd := (dirOf v).isLt
  rw [shiftRight_eq_dirOf]
  apply BitVec.eq_of_toNat_eq
  simp only [BitVec.toNat_setWidth]
  omega

theorem MapPageInput.output_mapped (h : MapPageInput image s p v flags)
    (hm : s.walk (dirOf v) (tabOf v) ≠ none) : MapPageOutput image s p v flags s := by
  have hv := h.dirOf_ne
  have hp := not_or.mp (mt Machine.walk_eq_none_iff.mpr hm)
  have hd := eq_true_of_ne_false hp.1
  refine ⟨?_, fun x hx a ha => ?_, fun h => absurd h hm, fun _ _ _ => rfl, ?_, fun _ => ⟨rfl, rfl⟩⟩
  · rw [h.selfMapped.run_mapPage_present image p v flags hd, if_pos (eq_true_of_ne_false hp.2)]
  · rw [setWidth_shiftRight]
    exact (h.selfMapped.windowed_mapPage_mapped hv hm x hx).access ha
  · intro hd'
    rw [hd] at hd'
    exact Bool.noConfusion hd'

theorem MapPageInput.output_unmapped (h : MapPageInput image s p v flags)
    (hn : s.walk (dirOf v) (tabOf v) = none) (hself : writable (s.pde selfDir) = true)
    (hw : present (s.pde (dirOf v)) = true → writable (s.pde (dirOf v)) = true) :
    MapPageOutput image s p v flags (s.afterMap image p v flags) := by
  have hs : s.Editable := ⟨h.selfMapped, hself⟩
  have hv := h.dirOf_ne
  have hu := fun hd => (h.newTable hd).2
  have hF := fun hd => (hu hd).ne_cr3 h.selfMapped
  have hwalk := hs.walk_afterMap h.tablesDistinct h.physaddr hv h.flags hw hu
  refine ⟨hs.run_mapPage image p v flags hw hF, fun x hx a ha => ?_, fun _ o => ?_, fun a ha hne => ?_,
    fun hd i hi => ?_, fun hm => absurd hn hm⟩
  · rw [setWidth_shiftRight]
    refine (hs.windowed_mapPage hv hu ?_ x hx).access ha
    rw [hs.pde_afterMap h.tablesDistinct hv hu]
    by_cases hd : present (s.pde (dirOf v)) = true
    · simp [hd]
    · simp [hd]
  · obtain ⟨hdo, hto⟩ := frameOf_eq_iff.mp (frameOf_append (frameOf v) o)
    rw [Machine.translate, hdo, hto, hwalk, enter_same, if_neg fun h => hv h.2.1, hn]
    simp only [Option.getD_none, Option.map_some, Mapping.phys, Machine.mappingOf, offsetOf_append,
      frameOf_append_eq_add h.physaddr]
  · rw [Machine.translate, Machine.translate, hwalk, enter_of_ne, if_neg fun h => ha h.2.1]
    exact fun h => hne (frameOf_eq_iff.mpr h)
  · refine Machine.present_pte_of_walk ?_ ?_
    · rw [hs.pde_afterMap h.tablesDistinct hv hu, if_pos ⟨hd, rfl⟩, present_or_three]
    · rw [hwalk, enter_of_ne _ _ fun h => hi h.2, if_neg fun h => hv h.2.1]
      exact Machine.walk_eq_none_iff.mpr (Or.inl hd)

/-- `map_page` meets its contract wherever the entries it edits through are
writable: CR0.WP is set, so the kernel's own stores obey the R/W bits. -/
theorem mapPage_contract (h : MapPageInput image s p v flags)
    (hw : s.walk (dirOf v) (tabOf v) = none → writable (s.pde selfDir) = true ∧
      (present (s.pde (dirOf v)) = true → writable (s.pde (dirOf v)) = true)) :
    ∃ t, MapPageOutput image s p v flags t := by
  by_cases hn : s.walk (dirOf v) (tabOf v) = none
  · obtain ⟨hself, hd⟩ := hw hn
    exact ⟨_, h.output_unmapped hn hself hd⟩
  · exact ⟨s, h.output_mapped hn⟩

/-- A machine with one page table, entered under `0` as `e`. -/
def oneTable (e : Word) : Machine :=
  { zeroMachine with
    mem := fun f i =>
      if f = 1#20 then if i = selfDir then 0x1003#32 else if i = 0#10 then e else 0#32 else 0#32
    cr3 := 1#20 }

theorem oneTable_input {e : Word} (he : present e = true) (hf : frameOf e = 2#20) :
    MapPageInput alignedImage (oneTable e) 0x5000#32 0#32 3#32 := by
  have hpde (d : Index) : (oneTable e).pde d =
      if d = selfDir then 0x1003#32 else if d = 0#10 then e else 0#32 := rfl
  have hself : (oneTable e).pde selfDir = 0x1003#32 := rfl
  have hzero : (oneTable e).pde 0#10 = e := rfl
  have hp (d : Index) : present ((oneTable e).pde d) = true → d = selfDir ∨ d = 0#10 := by
    rw [hpde]
    intro h
    by_contra hd
    rw [if_neg (not_or.mp hd).1, if_neg (not_or.mp hd).2] at h
    exact Bool.noConfusion h
  have hne : frameOf 0x1003#32 ≠ 2#20 := by decide
  have hsm : (oneTable e).SelfMapped :=
    ⟨show present 0x1003#32 = true by decide, show frameOf 0x1003#32 = 1#20 by decide⟩
  refine ⟨hsm, fun d d' h h' hdd => ?_, fun h => ?_, by decide, by decide, by decide⟩
  · rcases hp d h with rfl | rfl <;> rcases hp d' h' with rfl | rfl
    · rfl
    · rw [hself, hzero, hf] at hdd
      exact absurd hdd hne
    · rw [hself, hzero, hf] at hdd
      exact absurd hdd.symm hne
    · rfl
  · rw [show dirOf 0#32 = 0#10 by decide, hzero, he] at h
    exact Bool.noConfusion h

theorem Booted.mapPageInput (hb : Booted alignedImage s) :
    MapPageInput alignedImage s 0x5000#32 0#32 3#32 := by
  have hw := hb.wellFormed alignedImage_pageAligned
  obtain ⟨m, -, hi⟩ := hb.initialised
  have hk : TableLeft s := by
    rw [TableLeft, hi.kernelPTIndex]
    decide
  have hnext : s.nextTable alignedImage = alignedImage.tableAddr 0 := by
    rw [hw.kernelMapped.nextTable, hi.kernelPTIndex]
    rfl
  refine ⟨hw.editable.toSelfMapped, hw.distinct, fun _ => ⟨?_, hw.unused_nextTable hk⟩, ?_, ?_, ?_⟩
  · rw [hnext]
    decide
  · decide
  · decide
  · decide

/-- A table entered with `| 3`, as `map_page` and `_start` enter theirs;
and a directory entry that is absent, as after boot. -/
theorem mapPage_contract_oneTable :
    (∃ t, MapPageOutput alignedImage (oneTable 0x2003#32) 0x5000#32 0#32 3#32 t) ∧
      ∃ s, Booted alignedImage s ∧ present (s.pde (dirOf 0#32)) = false ∧
        ∃ t, MapPageOutput alignedImage s 0x5000#32 0#32 3#32 t := by
  refine ⟨mapPage_contract (oneTable_input (by decide) (by decide)) fun _ => ⟨by decide,
    fun _ => by decide⟩, ?_⟩
  obtain ⟨s, hb, hi⟩ := exists_booted (loaded_zeroMachine alignedImage)
  have habsent : present (s.pde (dirOf 0#32)) = false :=
    Bool.eq_false_iff.mpr fun h => absurd (hi.present_pde_iff.mp h) (by decide)
  have hself := (hb.wellFormed alignedImage_pageAligned).editable.writable
  exact ⟨s, hb, habsent, mapPage_contract hb.mapPageInput fun _ => ⟨hself,
    fun h => by simp [habsent] at h⟩⟩

/-- Without the write bit `map_page` does not return: its store faults. -/
theorem mapPage_contract_readOnly :
    MapPageInput alignedImage (oneTable 0x2001#32) 0x5000#32 0#32 3#32 ∧
      ¬ ∃ t, MapPageOutput alignedImage (oneTable 0x2001#32) 0x5000#32 0#32 3#32 t := by
  have hin := oneTable_input (e := 0x2001#32) (by decide) (by decide)
  refine ⟨hin, fun ⟨t, h⟩ => ?_⟩
  have hr := h.returns
  rw [hin.selfMapped.run_mapPage_present alignedImage _ _ _ (by decide), if_neg (by decide),
    hin.selfMapped.run_store_pte_protected (by decide) (by decide)] at hr
  cases hr

end Contract

end PekOS
