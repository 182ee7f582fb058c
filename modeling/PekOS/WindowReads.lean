import PekOS.WindowPages
import PekOS.FreePages
import PekOS.AddressSpace

/-! The code that only reads the tables: `get_physaddr`, `get_pe_value` and
`map_virtual_memory`, against the walk of the MMU. -/

namespace PekOS

open OpTree FirstFit

/-- The only memory the operation touches is a page of the window, to read it. -/
def Op.ReadsWindow (o : Op) : Prop := ∀ a, o.address = some a → o = .load a ∧ dirOf a = selfDir

theorem readsWindow_load (d t : Index) : Prog.All Op.ReadsWindow (Code.load (pteAddr d t)) := by
  refine Prog.all_perform.mpr fun a ha => ?_
  obtain rfl : pteAddr d t = a := by simpa [Op.address] using ha
  exact ⟨rfl, dirOf_pteAddr d t⟩

theorem readsWindow_modify (f : Globals → Globals) : Prog.All Op.ReadsWindow (Code.modify f) :=
  (Prog.all_perform.mpr fun a ha => by simp [Op.address] at ha).bind fun _ => trivial

theorem readsWindow_getPhysaddr (v : Word) : Prog.All Op.ReadsWindow (getPhysaddr v) := by
  unfold getPhysaddr
  simp only [shiftRight_eq_dirOf, shiftRight_and_eq_tabOf, pd_add_eq_pteAddr, ← pteAddr.eq_1]
  refine (readsWindow_load _ _).bind fun pde => ?_
  split
  · trivial
  · refine (readsWindow_load _ _).bind fun pte => ?_
    split
    · trivial
    · exact (readsWindow_load _ _).bind fun _ => trivial

theorem readsWindow_getPeValue (v : Word) : Prog.All Op.ReadsWindow (getPeValue v) := by
  unfold getPeValue
  simp only [shiftRight_eq_dirOf, shiftRight_and_eq_tabOf, pd_add_eq_pteAddr, ← pteAddr.eq_1]
  refine (readsWindow_load _ _).bind fun pde => ?_
  split
  · trivial
  · exact (readsWindow_load _ _).bind fun _ => readsWindow_load _ _

theorem readsWindow_groupBits {n group : Nat} (hn : n < 1024) (hg : group < 32) :
    Prog.All Op.ReadsWindow (groupBits (0xFFC00000#32 + (BitVec.ofNat 32 n <<< 12)) group) := by
  refine Prog.All.forUp_of_lt (fun entry he cnt => ?_) _
  rw [ofNat_eq_setWidth hn, ofNat_eq_setWidth (show group * 32 + entry < 1024 by omega), ← pteAddr.eq_1]
  exact (readsWindow_load _ _).bind fun _ => trivial

theorem readsWindow_mapVirtualMemory : Prog.All Op.ReadsWindow mapVirtualMemory := by
  refine Prog.All.forUp_of_lt (fun n hn _ => ?_) _
  simp only [ofNat_eq_setWidth hn, pd_add_eq_pteAddr]
  refine (readsWindow_load _ _).bind fun pde => ?_
  split
  · exact Prog.All.forUp (fun _ _ => readsWindow_modify _) _ _
  · refine Prog.All.forUp_of_lt (fun group hg _ => ?_) _
    rw [← ofNat_eq_setWidth hn]
    exact (readsWindow_groupBits hn hg).bind fun _ => readsWindow_modify _

namespace Machine

variable {s t : Machine} {v : Word}

/-- All memory a run touches are pages of the window that are present, and it
only reads them. -/
def TouchesWindow {α : Type} (s : Machine) (p : Code α) : Prop :=
  ∀ x ∈ s.trace p, ∀ a, x.1.address = some a →
    x.1 = .load a ∧ dirOf a = selfDir ∧ x.2.walk selfDir (tabOf a) ≠ none

theorem touchesWindow_of_run {α : Type} {p : Code α} {r : α} (hr : s.run p = .ok (r, t))
    (hp : Prog.All Op.ReadsWindow p) : s.TouchesWindow p := by
  intro x hx a ha
  obtain ⟨hload, hdir⟩ := hp.trace s x hx a ha
  have hwalk := walk_of_run hr x hx a ha
  exact ⟨hload, hdir, hdir ▸ hwalk⟩

/-- What `get_pe_value` returns. -/
def peOf (s : Machine) (v : Word) : Word :=
  if PekOS.present (s.pde (dirOf v)) then s.pte (dirOf v) (tabOf v) else 0#32

theorem SelfMapped.run_getPeValue (hs : s.SelfMapped) (v : Word) :
    s.run (getPeValue v) = .ok (s.peOf v, s) := by
  unfold getPeValue
  simp only [shiftRight_eq_dirOf, shiftRight_and_eq_tabOf, pd_add_eq_pteAddr, ← pteAddr.eq_1, ite_and_one]
  rw [run, Prog.run_bind_ok exec (hs.run_load_pde (dirOf v))]
  by_cases hp : PekOS.present (s.pde (dirOf v)) = true
  · rw [if_pos hp, Prog.run_bind_ok exec (hs.run_load_pte hp (tabOf v)), peOf, if_pos hp]
    exact hs.run_load_pte hp (tabOf v)
  · simp [hp, peOf]

theorem isSome_walk_pageAddr (s : Machine) {page : Nat} (h : page < 1024 * 1024) :
    (s.walk (dirOf (pageAddr page)) (tabOf (pageAddr page))).isSome = s.mapped page := by
  rw [dirOf_pageAddr h, tabOf_pageAddr h, mapped]

/-- `map_virtual_memory`, whatever the tables and the bitmap hold: it reads the
window only, and the bits it leaves are those `find_free_virtaddr` looks at. -/
theorem mapVirtualMemory_bits (s : Machine) (hs : s.SelfMapped) :
    s.TouchesWindow mapVirtualMemory ∧ ∃ m, s.run mapVirtualMemory = .ok ((), s.withMmap m) ∧
      (∀ page < 1024 * 1024, (m (page / 32)).getLsbD (31 - page % 32) =
        (s.walk (dirOf (pageAddr page)) (tabOf (pageAddr page))).isSome) ∧
      (∀ d : Index, (m ((1023 * 1024 + d.toNat) / 32)).getLsbD (31 - (1023 * 1024 + d.toNat) % 32) =
        PekOS.present (s.pde d)) ∧
      ∀ cursor page, IsLeast {page | cursor * 32 ≤ page ∧ page < 1024 * 1024 ∧
          (m (page / 32)).getLsbD (31 - page % 32) = false} page →
        findFreeVirtaddr { s.globals with virtualMmap := m, curVirtaddrIdx := cursor } =
          (pageAddr page, Globals.takePage
            { s.globals with virtualMmap := m, curVirtaddrIdx := cursor } page) := by
  obtain ⟨m, hr, hm⟩ := hs.run_mapVirtualMemory
  refine ⟨touchesWindow_of_run hr readsWindow_mapVirtualMemory, m, hr, fun page hp => ?_,
    fun d => ?_, fun cursor page h => ?_⟩
  · rw [isSome_walk_pageAddr s hp]
    exact hm page hp
  · have hd := d.isLt
    rw [← hs.mapped_window, ← hm _ (by omega)]
    rfl
  · obtain ⟨rest, hrest⟩ := free_of_isLeast h
    exact findFreeVirtaddr_cons hrest

theorem mapVirtualMemory_bits_booted : ∃ s, start alignedImage zeroMachine = .ok ((), s) ∧
    s.TouchesWindow mapVirtualMemory ∧ ∃ m, s.run mapVirtualMemory = .ok ((), s.withMmap m) := by
  obtain ⟨s, hr, hs⟩ := start_eq (loaded_zeroMachine alignedImage)
  obtain ⟨hw, m, hm, -⟩ := mapVirtualMemory_bits s hs.kernelMapped.editable.toSelfMapped
  exact ⟨s, hr, hw, m, hm⟩

/-- `phys` and `pe` are what the two functions should return for `v`. -/
structure Translated (s : Machine) (v phys pe : Word) : Prop where
  phys_null : phys = 0#32 ↔ s.translate v = none
  pe_null : pe = 0#32 ↔ s.translate v = none
  agree : ∀ p, s.translate v = some p → phys = p ∧ p = (pe &&& ~~~0xFFF#32) + (v &&& 0xFFF#32)

theorem translate_eq (s : Machine) (v : Word) : s.translate v =
    if PekOS.present (s.pde (dirOf v)) && PekOS.present (s.pte (dirOf v) (tabOf v)) then
      some (frameOf (s.pte (dirOf v) (tabOf v)) ++ offsetOf v)
    else none := by
  unfold translate walk
  split <;> rfl

theorem ne_zero_of_present {e : Word} (h : PekOS.present e = true) : e ≠ 0#32 := fun he => by
  simp [he, PekOS.present] at h

theorem translated_iff (s : Machine) (v : Word) : s.Translated v (s.physOf v) (s.peOf v) ↔
    s.translate v ≠ some 0#32 ∧
      (PekOS.present (s.pde (dirOf v)) = true → PekOS.present (s.pte (dirOf v) (tabOf v)) = false →
        s.pte (dirOf v) (tabOf v) = 0#32) := by
  have ht := translate_eq s v
  by_cases hd : PekOS.present (s.pde (dirOf v)) = true
  · have hpe : s.peOf v = s.pte (dirOf v) (tabOf v) := if_pos hd
    by_cases hp : PekOS.present (s.pte (dirOf v) (tabOf v)) = true
    · -- a present page: only its address can be mistaken
      rw [hd, hp, Bool.and_self, if_pos rfl] at ht
      have hphys : s.physOf v = frameOf (s.pte (dirOf v) (tabOf v)) ++ offsetOf v := by
        rw [physOf, ht, Option.getD_some]
      rw [hpe, hphys, ht]
      constructor
      · intro h
        refine ⟨fun hz => ?_, fun _ hn => by simp [hp] at hn⟩
        simpa [ht] using h.phys_null.mp (Option.some.inj hz)
      · rintro ⟨hz, -⟩
        refine ⟨?_, ?_, fun p h => ?_⟩
        · simpa [ht] using fun he => hz (congrArg some he)
        · simpa [ht] using ne_zero_of_present hp
        · rw [ht, Option.some.injEq] at h
          exact ⟨h, h ▸ (mask_add_offset _ v).symm⟩
    · have hp' := Bool.eq_false_iff.mpr hp
      rw [hd, hp', Bool.and_false, if_neg Bool.false_ne_true] at ht
      have hphys : s.physOf v = 0#32 := by rw [physOf, ht, Option.getD_none]
      rw [hpe, hphys, ht]
      constructor
      · intro h
        exact ⟨by simp, fun _ _ => h.pe_null.mpr ht⟩
      · rintro ⟨-, hz⟩
        exact ⟨by simp [ht], by simp [ht, hz hd hp'], fun p h => by simp [ht] at h⟩
  · have hd' := Bool.eq_false_iff.mpr hd
    rw [hd', Bool.false_and, if_neg Bool.false_ne_true] at ht
    have hphys : s.physOf v = 0#32 := by rw [physOf, ht, Option.getD_none]
    have hpe : s.peOf v = 0#32 := if_neg hd
    rw [hpe, hphys, ht]
    exact ⟨fun _ => ⟨by simp, fun h => absurd h hd⟩,
      fun _ => ⟨by simp [ht], by simp [ht], fun p h => by simp [ht] at h⟩⟩

/-- `get_physaddr` and `get_pe_value` tell what the MMU does with an address,
unless it is translated to physical address 0, or its page table has an entry for
it that is neither present nor zero. -/
theorem translations_iff (s : Machine) (hs : s.SelfMapped) (v : Word) :
    s.TouchesWindow (getPhysaddr v) ∧ s.TouchesWindow (getPeValue v) ∧
      ∃ phys pe, s.run (getPhysaddr v) = .ok (phys, s) ∧ s.run (getPeValue v) = .ok (pe, s) ∧
        (s.Translated v phys pe ↔ s.translate v ≠ some 0#32 ∧
          (PekOS.present (s.pde (dirOf v)) = true → PekOS.present (s.pte (dirOf v) (tabOf v)) = false →
            s.pte (dirOf v) (tabOf v) = 0#32)) := by
  have hphys := hs.run_getPhysaddr v
  have hpe := hs.run_getPeValue v
  exact ⟨touchesWindow_of_run hphys (readsWindow_getPhysaddr v),
    touchesWindow_of_run hpe (readsWindow_getPeValue v), _, _, hphys, hpe, translated_iff s v⟩

/-- For a page of the kernel image they do. -/
theorem translations_iff_image : ∃ s, Booted alignedImage s ∧
    ∃ phys pe, s.run (getPhysaddr 0xC0100000#32) = .ok (phys, s) ∧
      s.run (getPeValue 0xC0100000#32) = .ok (pe, s) ∧
      s.Translated 0xC0100000#32 phys pe := by
  obtain ⟨s, hb, hi⟩ := exists_booted (loaded_zeroMachine alignedImage)
  obtain ⟨-, -, phys, pe, hphys, hpe, hiff⟩ :=
    translations_iff s hi.kernelMapped.editable.toSelfMapped 0xC0100000#32
  have hw := hi.kernelMapped.walk_image (a := 0xC0100000#32) (by decide) (by decide)
  refine ⟨s, hb, phys, pe, hphys, hpe, hiff.mpr ⟨?_, fun hd hp => ?_⟩⟩
  · rw [translate, hw, Option.map_some, Ne, Option.some.injEq]
    decide
  · simp [walk, hd, hp] at hw

end Machine

/-- Address 0xC0000000 is translated to 0, which is `NULL`; an entry made
without the present bit is returned all the same. -/
theorem translations_differ : ∃ s t, Booted alignedImage s ∧
    s.run (mapPage alignedImage 0x5000#32 0xC03FE000#32 2#32) = .ok ((), t) ∧ s.SelfMapped ∧
    t.SelfMapped ∧
    (∃ pe, s.run (getPhysaddr 0xC0000000#32) = .ok (0#32, s) ∧
      s.run (getPeValue 0xC0000000#32) = .ok (pe, s) ∧
      ¬ s.Translated 0xC0000000#32 0#32 pe) ∧
    t.run (getPhysaddr 0xC03FE000#32) = .ok (0#32, t) ∧
      t.run (getPeValue 0xC03FE000#32) = .ok (0x5002#32, t) ∧
      ¬ t.Translated 0xC03FE000#32 0#32 0x5002#32 := by
  obtain ⟨s, hb, hi⟩ := exists_booted (loaded_zeroMachine alignedImage)
  have hk := hi.kernelMapped
  have hs := hk.editable
  have hw := hk.walk_image (a := 0xC0000000#32) (by decide) (by decide)
  have hzero : s.translate 0xC0000000#32 = some 0#32 := by rw [Machine.translate, hw]; decide
  have hdir : dirOf 0xC03FE000#32 = 768#10 := by decide
  have htab : tabOf 0xC03FE000#32 = 1022#10 := by decide
  have hd : present (s.pde 768#10) = true := by simp [hk.pde_768]
  have hpte : s.pte 768#10 1022#10 = 0#32 := by
    rw [Machine.pte, hk.frameOf_pde_768, hi.table1]
    decide
  have hr := hs.run_mapPage alignedImage 0x5000#32 0xC03FE000#32 2#32
    (fun _ => by simp [hdir, hk.pde_768]) (fun h => by simp [hdir, hd] at h)
  let t := s.put alignedImage.table1Frame 1022#10 0x5002#32
  have ht : s.afterMap alignedImage 0x5000#32 0xC03FE000#32 2#32 = t := by
    rw [Machine.afterMap, hdir, htab, if_pos hd, hpte, if_neg (by decide), hk.frameOf_pde_768]
    rfl
  have hpde (d : Index) : t.pde d = s.pde d :=
    Machine.pde_put_of_frame_ne
      (by rw [hk.cr3]; exact alignedImage.directoryFrame_ne_table1Frame.symm) _ _ d
  have hself : t.SelfMapped := hs.toSelfMapped.of_pde rfl (hpde selfDir)
  have hentry : t.pte 768#10 1022#10 = 0x5002#32 := by
    rw [Machine.pte, hpde, hk.frameOf_pde_768, show t.mem = _ from Machine.put_mem s _ _ _, poke_same]
  have hnone : t.translate 0xC03FE000#32 = none := by
    rw [Machine.translate_eq, hdir, htab, hentry, Bool.and_comm, show present 0x5002#32 = false by decide]
    rfl
  have hphys := hs.toSelfMapped.run_getPhysaddr 0xC0000000#32
  have hphys' := hself.run_getPhysaddr 0xC03FE000#32
  have hpe' := hself.run_getPeValue 0xC03FE000#32
  rw [Machine.physOf, hzero, Option.getD_some] at hphys
  rw [Machine.physOf, hnone, Option.getD_none] at hphys'
  rw [Machine.peOf, hdir, htab, hpde, if_pos hd, hentry] at hpe'
  refine ⟨s, t, hb, ht ▸ hr, hs.toSelfMapped, hself, ⟨_, hphys, hs.toSelfMapped.run_getPeValue _,
    fun h => ?_⟩, hphys', hpe', fun h => ?_⟩
  · simpa [hzero] using h.phys_null.mp rfl
  · exact absurd (h.pe_null.mpr hnone) (by decide)

end PekOS
