import PekOS.Window

/-! What `get_physaddr`, `allocate_pt` and `map_page` do on a self-mapped
directory: each as an equation for its run, from which everything about the
page tables is derived. -/

namespace PekOS

open OpTree

/-- An operation of `map_page`: of the globals only the table index changes. -/
def Op.MapsPage : Op → Prop
  | .load _ | .store _ _ | .allocated _ => True
  | .globals f => ∀ g, ∃ k, (f g).2 = { g with kernelPTIndex := k }
  | _ => False

section All

variable (image : KernelImage)

theorem getPhysaddr_all (a : Word) : Prog.All Op.MapsPage (getPhysaddr a) := by
  have hload (a : Word) : Prog.All Op.MapsPage (Code.load a) := Prog.all_perform.mpr trivial
  unfold getPhysaddr
  refine (hload _).bind fun pde => ?_
  split
  · trivial
  · refine (hload _).bind fun pte => ?_
    split
    · trivial
    · exact (hload _).bind fun _ => trivial

theorem allocatePt_all : Prog.All Op.MapsPage (allocatePt image) := by
  have hget (f : Globals → Word) : Prog.All Op.MapsPage (Code.get f) :=
    Prog.all_perform.mpr fun g => ⟨g.kernelPTIndex, rfl⟩
  have hindex : Prog.All Op.MapsPage
      (Code.modify fun g => { g with kernelPTIndex := g.kernelPTIndex + 1#32 }) :=
    (Prog.all_perform.mpr fun _ => ⟨_, rfl⟩).bind fun _ => trivial
  have halloc (p : Word) : Prog.All Op.MapsPage (Code.allocated p) := Prog.all_perform.mpr trivial
  exact (getPhysaddr_all _).bind fun _ => (hget _).bind fun _ => hindex.bind fun _ =>
    (halloc _).bind fun _ => trivial

theorem mapPage_all (p v flags : Word) : Prog.All Op.MapsPage (mapPage image p v flags) := by
  have hload (a : Word) : Prog.All Op.MapsPage (Code.load a) := Prog.all_perform.mpr trivial
  have hstore (a w : Word) : Prog.All Op.MapsPage (Code.store a w) := Prog.all_perform.mpr trivial
  have hcreate (d : Word) : Prog.All Op.MapsPage (createPt image d) :=
    (allocatePt_all image).bind fun _ => (hstore _ _).bind fun _ =>
      Prog.All.forUp (fun _ _ => hstore _ _) 1024 ()
  unfold mapPage
  refine (hload _).bind fun pde => Prog.All.bind ?_ fun _ => (hload _).bind fun pte => ?_
  · split
    · exact hcreate _
    · trivial
  · split
    · exact hstore _ _
    · trivial

end All

/-- The stretch of memory the clearing loop of `map_page` has zeroed. -/
def zeroTo (m : Memory) (f : Frame) (n : Nat) : Memory :=
  fun f' i' => if f' = f ∧ i'.toNat < n then 0#32 else m f' i'

theorem zeroTo_zero (m : Memory) (f : Frame) : zeroTo m f 0 = m := by
  funext f' i'
  simp [zeroTo]

theorem zeroTo_of_frame_ne {m : Memory} {f f' : Frame} (h : f' ≠ f) (n : Nat) (i : Index) :
    zeroTo m f n f' i = m f' i := by simp [zeroTo, h]

theorem zeroTo_frame (m : Memory) (f : Frame) (i : Index) : zeroTo m f 1024 f i = 0#32 := by
  have hi := i.isLt
  simp only [zeroTo, true_and]
  rw [if_pos (by omega)]

theorem poke_zeroTo (m : Memory) (f : Frame) {n : Nat} (hn : n < 1024) :
    poke (zeroTo m f n) f (BitVec.ofNat 10 n) 0#32 = zeroTo m f (n + 1) := by
  have hi (i : Index) : i = BitVec.ofNat 10 n ↔ i.toNat = n := by
    rw [← BitVec.toNat_inj, BitVec.toNat_ofNat, Nat.mod_eq_of_lt (by omega)]
  funext f' i'
  simp only [poke, zeroTo, hi]
  by_cases hf : f' = f
  · by_cases he : i'.toNat = n
    · simp [hf, he]
    · simp [hf, he, show i'.toNat < n + 1 ↔ i'.toNat < n by omega]
  · simp [hf]

namespace Machine

/-- The machine after `n` iterations of that loop. -/
def clearTo (s : Machine) (f : Frame) (n : Nat) : Machine := { s with mem := zeroTo s.mem f n }

@[simp] theorem clearTo_cr3 (s : Machine) (f : Frame) (n : Nat) : (s.clearTo f n).cr3 = s.cr3 := rfl
@[simp] theorem clearTo_mem (s : Machine) (f : Frame) (n : Nat) :
    (s.clearTo f n).mem = zeroTo s.mem f n := rfl
@[simp] theorem clearTo_globals (s : Machine) (f : Frame) (n : Nat) :
    (s.clearTo f n).globals = s.globals := rfl

variable {s : Machine}

/-- What `get_physaddr` returns: the MMU's address, or `NULL`. -/
def physOf (s : Machine) (a : Word) : Word := (s.translate a).getD 0#32

theorem run_get (f : Globals → Word) : s.run (Code.get f) = .ok (f s.globals, s) := by
  simp [Code.get, Code.globals, exec]

theorem run_modify (f : Globals → Globals) :
    s.run (Code.modify f) = .ok ((), { s with globals := f s.globals }) := by
  rw [Code.modify, run, Prog.run_bind_ok exec (Prog.run_perform exec _ s)]
  rfl

theorem SelfMapped.run_getPhysaddr (hs : s.SelfMapped) (a : Word) :
    s.run (getPhysaddr a) = .ok (s.physOf a, s) := by
  unfold getPhysaddr
  simp only [shiftRight_eq_dirOf, shiftRight_and_eq_tabOf, pd_add_eq_pteAddr, ← pteAddr.eq_1,
    ite_and_one]
  rw [run, Prog.run_bind_ok exec (hs.run_load_pde (dirOf a))]
  by_cases hp : PekOS.present (s.pde (dirOf a)) = true
  · rw [if_pos hp, Prog.run_bind_ok exec (hs.run_load_pte hp (tabOf a))]
    by_cases ht : PekOS.present (s.pte (dirOf a) (tabOf a)) = true
    · rw [if_pos ht, Prog.run_bind_ok exec (hs.run_load_pte hp (tabOf a))]
      simp only [Prog.pure_eq, Prog.run_ret, physOf, translate, walk, hp, ht, Bool.and_self, if_true,
        Option.map_some, Option.getD_some, Mapping.phys, mask_add_offset]
    · simp [ht, physOf, translate, walk]
  · simp [hp, physOf, translate, walk]

section Image

variable (image : KernelImage)

/-- The address `allocate_pt` hands out next. -/
def nextTable (s : Machine) : Word := s.physOf image.kernelPTs + s.globals.kernelPTIndex * 0x1000#32

def takeTable (s : Machine) : Machine :=
  { s with globals := { s.globals with kernelPTIndex := s.globals.kernelPTIndex + 1#32 } }

@[simp] theorem takeTable_mem (s : Machine) : s.takeTable.mem = s.mem := rfl
@[simp] theorem takeTable_cr3 (s : Machine) : s.takeTable.cr3 = s.cr3 := rfl
@[simp] theorem takeTable_globals (s : Machine) :
    s.takeTable.globals = { s.globals with kernelPTIndex := s.globals.kernelPTIndex + 1#32 } := rfl

theorem SelfMapped.run_allocatePt (hs : s.SelfMapped) :
    s.run (allocatePt image) = .ok (s.nextTable image, s.takeTable) := by
  unfold allocatePt
  rw [run, Prog.run_bind_ok exec (hs.run_getPhysaddr _), Prog.run_bind_ok exec (run_get _),
    Prog.run_bind_ok exec (run_modify _)]
  rfl

/-- The machine once `map_page` has entered a page table under `d`, before it
clears the table. -/
def enterTable (s : Machine) (d : Index) : Machine :=
  s.takeTable.put s.cr3 d (s.nextTable image ||| 3#32)

/-- The machine after the `PD entry not present` branch of `map_page`. -/
def newTable (s : Machine) (d : Index) : Machine :=
  (s.enterTable image d).clearTo (frameOf (s.nextTable image)) 1024

theorem pde_put_of_ne {d d' : Index} (h : d' ≠ d) (w : Word) :
    (s.put s.cr3 d w).pde d' = s.pde d' := by
  simp only [pde, put_mem, put_cr3, poke_of_index_ne h]

theorem SelfMapped.of_pde {t : Machine} (hs : s.SelfMapped) (hc : t.cr3 = s.cr3)
    (hp : t.pde selfDir = s.pde selfDir) : t.SelfMapped :=
  ⟨hp ▸ hs.present, by rw [hp, hc, hs.frame]⟩

theorem Editable.of_pde {t : Machine} (hs : s.Editable) (hc : t.cr3 = s.cr3)
    (hp : t.pde selfDir = s.pde selfDir) : t.Editable :=
  ⟨hs.toSelfMapped.of_pde hc hp, hp ▸ hs.writable⟩

/-- The clearing loop does not touch the directory, so the window stays. -/
theorem Editable.enterTable_clearTo (hs : s.Editable) {d : Index}
    (hd : PekOS.present (s.pde d) = false) (hF : frameOf (s.nextTable image) ≠ s.cr3) (n : Nat) :
    ((s.enterTable image d).clearTo (frameOf (s.nextTable image)) n).Editable ∧
      ((s.enterTable image d).clearTo (frameOf (s.nextTable image)) n).pde d = s.nextTable image |||
      3#32 := by
  have hne : selfDir ≠ d := fun he => by simp [← he, hs.present] at hd
  have hclear (d' : Index) : ((s.enterTable image d).clearTo (frameOf (s.nextTable image)) n).pde d' =
      (s.enterTable image d).pde d' := zeroTo_of_frame_ne (Ne.symm hF) n d'
  have ht : s.takeTable.Editable := hs.of_pde rfl rfl
  refine ⟨ht.of_pde rfl ((hclear selfDir).trans (pde_put_of_ne (s := s.takeTable) hne _)), ?_⟩
  rw [hclear]
  simp [enterTable, pde]

theorem Editable.run_clear (hs : s.Editable) {d : Index} (hd : PekOS.present (s.pde d) = false)
    (hF : frameOf (s.nextTable image) ≠ s.cr3) {n : Nat} (hn : n < 1024) :
    ((s.enterTable image d).clearTo (frameOf (s.nextTable image)) n).run
        (Code.store (pteAddr d (BitVec.ofNat 10 n)) 0#32) =
      .ok ((), (s.enterTable image d).clearTo (frameOf (s.nextTable image)) (n + 1)) := by
  obtain ⟨hself, hde⟩ := hs.enterTable_clearTo image hd hF n
  rw [hself.run_store_pte (by simp [hde]) (by simp [hde]), hde, frameOf_or_three]
  simp only [put, clearTo]
  rw [poke_zeroTo _ _ hn]

/-- The addresses of the clearing loop are those of the new table's entries. -/
theorem newPt_add_eq_pteAddr (d : Index) {n : Nat} (hn : n < 1024) :
    0xFFC00000#32 + (d.setWidth 32 <<< 12) + 4#32 * BitVec.ofNat 32 n = pteAddr d
    (BitVec.ofNat 10 n) := by
  rw [ofNat_eq_setWidth hn, pteAddr]

theorem Editable.run_createPt (hs : s.Editable) {d : Index}
    (hd : PekOS.present (s.pde d) = false) (hF : frameOf (s.nextTable image) ≠ s.cr3) :
    s.run (createPt image (d.setWidth 32)) = .ok ((), s.newTable image d) := by
  have ht : s.takeTable.Editable := hs.of_pde rfl rfl
  unfold createPt
  simp only [pd_add_eq_pteAddr]
  rw [run, Prog.run_bind_ok exec (hs.run_allocatePt image),
    Prog.run_bind_ok exec (ht.run_store_pde d _)]
  have hloop : ∃ b u, (s.enterTable image d).run (Prog.forUp 1024 () fun i _ =>
      Code.store (0xFFC00000#32 + (d.setWidth 32 <<< 12) + 4#32 * BitVec.ofNat 32 i) 0#32) = .ok (b, u) ∧
      u = (s.enterTable image d).clearTo (frameOf (s.nextTable image)) 1024 := by
    refine Prog.run_forUp exec _
      (fun n _ u => u = (s.enterTable image d).clearTo (frameOf (s.nextTable image)) n)
      (by simp [clearTo, zeroTo_zero]) ?_
    rintro n - u hn rfl
    rw [newPt_add_eq_pteAddr d hn]
    exact ⟨(), _, hs.run_clear image hd hF hn, rfl⟩
  obtain ⟨b, u, hr, rfl⟩ := hloop
  exact hr

/-- The machine after `map_page(p, v, flags)`. -/
def afterMap (s : Machine) (p v flags : Word) : Machine :=
  if PekOS.present (s.pde (dirOf v)) then
    if PekOS.present (s.pte (dirOf v) (tabOf v)) then s
    else s.put (frameOf (s.pde (dirOf v))) (tabOf v) (p ||| (flags &&& 0xFFF#32))
  else
    (s.newTable image (dirOf v)).put (frameOf (s.nextTable image)) (tabOf v) (p ||| (flags &&& 0xFFF#32))

theorem pde_newTable_same (hF : frameOf (s.nextTable image) ≠ s.cr3) (d : Index) :
    (s.newTable image d).pde d = s.nextTable image ||| 3#32 := by
  simp [newTable, enterTable, pde, zeroTo_of_frame_ne (Ne.symm hF)]

theorem pde_newTable_of_ne (hF : frameOf (s.nextTable image) ≠ s.cr3) {d d' : Index} (h : d' ≠ d) :
    (s.newTable image d).pde d' = s.pde d' := by
  simp [newTable, enterTable, pde, zeroTo_of_frame_ne (Ne.symm hF), poke_of_index_ne h]

theorem Editable.newTable (hs : s.Editable) {d : Index}
    (hd : PekOS.present (s.pde d) = false) (hF : frameOf (s.nextTable image) ≠ s.cr3) :
    (s.newTable image d).Editable :=
  hs.of_pde rfl (pde_newTable_of_ne image hF fun he => by simp [← he, hs.present] at hd)

theorem SelfMapped.run_mapPage_present (hs : s.SelfMapped) (p v flags : Word)
    (hd : PekOS.present (s.pde (dirOf v)) = true) :
    s.run (mapPage image p v flags) =
      if PekOS.present (s.pte (dirOf v) (tabOf v)) = true then .ok ((), s)
      else s.run (Code.store (pteAddr (dirOf v) (tabOf v)) (p ||| (flags &&& 0xFFF#32))) := by
  unfold mapPage
  simp only [shiftRight_eq_dirOf, shiftRight_and_eq_tabOf, pd_add_eq_pteAddr, ← pteAddr.eq_1,
    ite_and_one]
  rw [run, Prog.run_bind_ok exec (hs.run_load_pde (dirOf v)), if_pos hd,
    Prog.pure_eq, Prog.ret_bind, Prog.run_bind_ok exec (hs.run_load_pte hd (tabOf v))]
  split <;> rfl

/-- Every run of `map_page` that is not stopped by a read-only table. -/
theorem Editable.run_mapPage (hs : s.Editable) (p v flags : Word)
    (hw : PekOS.present (s.pde (dirOf v)) = true → PekOS.writable (s.pde (dirOf v)) = true)
    (hF : PekOS.present (s.pde (dirOf v)) = false → frameOf (s.nextTable image) ≠ s.cr3) :
    s.run (mapPage image p v flags) = .ok ((), s.afterMap image p v flags) := by
  by_cases hd : PekOS.present (s.pde (dirOf v)) = true
  · rw [hs.run_mapPage_present image p v flags hd, hs.run_store_pte hd (hw hd), afterMap, if_pos hd]
    split <;> rfl
  · have hd' := Bool.eq_false_iff.mpr hd
    have hn := hs.newTable image hd' (hF hd')
    have hnd := pde_newTable_same image (hF hd') (dirOf v)
    have hz : PekOS.present ((s.newTable image (dirOf v)).pte (dirOf v) (tabOf v)) = false := by
      rw [pte, hnd, frameOf_or_three, Machine.newTable, clearTo_mem, zeroTo_frame]
      rfl
    unfold mapPage
    simp only [shiftRight_eq_dirOf, shiftRight_and_eq_tabOf, pd_add_eq_pteAddr, ← pteAddr.eq_1,
      ite_and_one]
    rw [run, Prog.run_bind_ok exec (hs.run_load_pde (dirOf v)), if_neg hd,
      Prog.run_bind_ok exec (hs.run_createPt image hd' (hF hd')),
      Prog.run_bind_ok exec (hn.run_load_pte (by simp [hnd]) (tabOf v)), hz]
    rw [if_neg Bool.false_ne_true, ← run, hn.run_store_pte (by simp [hnd]) (by simp [hnd]), hnd,
      frameOf_or_three, afterMap, if_neg hd]

end Image

end Machine

end PekOS
