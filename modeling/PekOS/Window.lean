import PekOS.Paging

/-! The recursive window. With the directory's last entry mapping the directory
onto itself, the word at `0xFFC00000 + (d << 12) + 4 * t` is entry `t` of the
page table of directory index `d`, and of the directory itself for `d = 1023`. -/

namespace PekOS

open OpTree

/-- The directory index of the window, and of the entry that maps the directory. -/
def selfDir : Index := 1023#10

/-- The virtual address of entry `t` in the page table of directory index `d`. -/
def pteAddr (d t : Index) : Word := 0xFFC00000#32 + (d.setWidth 32 <<< 12) + 4#32 * t.setWidth 32

theorem pteAddr_toNat (d t : Index) :
    (pteAddr d t).toNat = 0xFFC00000 + d.toNat * 4096 + 4 * t.toNat := by
  have hd := d.isLt
  have ht := t.isLt
  simp only [pteAddr, BitVec.toNat_add, BitVec.toNat_mul, BitVec.toNat_shiftLeft,
    BitVec.toNat_setWidth, BitVec.toNat_ofNat, Nat.shiftLeft_eq]
  omega

theorem dirOf_pteAddr (d t : Index) : dirOf (pteAddr d t) = selfDir := by
  have hd := d.isLt
  have ht := t.isLt
  apply BitVec.eq_of_toNat_eq
  rw [dirOf_toNat, pteAddr_toNat, selfDir, BitVec.toNat_ofNat]
  omega

theorem tabOf_pteAddr (d t : Index) : tabOf (pteAddr d t) = d := by
  have hd := d.isLt
  have ht := t.isLt
  apply BitVec.eq_of_toNat_eq
  rw [tabOf_toNat, pteAddr_toNat]
  omega

theorem wordOf_pteAddr (d t : Index) : wordOf (pteAddr d t) = t := by
  have hd := d.isLt
  have ht := t.isLt
  apply BitVec.eq_of_toNat_eq
  rw [wordOf_toNat, pteAddr_toNat]
  omega

theorem aligned_pteAddr (d t : Index) : aligned 4 (pteAddr d t) := by
  rw [aligned, pteAddr_toNat]
  omega

theorem pd_add_eq_pteAddr (d : Index) : 0xFFFFF000#32 + 4#32 * d.setWidth 32 = pteAddr selfDir d := by
  have hd := d.isLt
  apply BitVec.eq_of_toNat_eq
  simp only [pteAddr_toNat, selfDir, BitVec.toNat_add, BitVec.toNat_mul, BitVec.toNat_setWidth,
    BitVec.toNat_ofNat]
  omega

namespace Machine

abbrev run {α : Type} (s : Machine) (p : Code α) : Except Stop (α × Machine) :=
  Prog.run exec p s

abbrev trace {α : Type} (s : Machine) (p : Code α) : List (Op × Machine) :=
  Prog.trace exec p s

def put (s : Machine) (f : Frame) (i : Index) (w : Word) : Machine :=
  { s with mem := poke s.mem f i w }

@[simp] theorem put_mem (s : Machine) (f : Frame) (i : Index) (w : Word) :
    (s.put f i w).mem = poke s.mem f i w := rfl
@[simp] theorem put_cr3 (s : Machine) (f : Frame) (i : Index) (w : Word) :
    (s.put f i w).cr3 = s.cr3 := rfl
@[simp] theorem put_globals (s : Machine) (f : Frame) (i : Index) (w : Word) :
    (s.put f i w).globals = s.globals := rfl

theorem run_load {s : Machine} {a : Word} (ha : aligned 4 a) {m : Mapping}
    (hw : s.walk (dirOf a) (tabOf a) = some m) :
    s.run (Code.load a) = .ok (s.mem m.frame (wordOf a), s) := by
  simp [Code.load, exec, access, ha, hw]

theorem run_store {s : Machine} {a : Word} (ha : aligned 4 a) {f : Frame}
    (hw : s.walk (dirOf a) (tabOf a) = some ⟨f, true⟩) (v : Word) :
    s.run (Code.store a v) = .ok ((), s.put f (wordOf a) v) := by
  simp [Code.store, exec, access, ha, hw, put]

theorem walk_of_access {s : Machine} {a : Word} {write : Bool} {m : Mapping}
    (h : s.access a write = .ok m) : s.walk (dirOf a) (tabOf a) ≠ none := by
  intro hn
  simp [access, hn] at h

theorem walk_of_byteAt {s : Machine} {a : Word} {b : Byte} (h : s.byteAt a = .ok b) :
    s.walk (dirOf a) (tabOf a) ≠ none := by
  unfold byteAt at h
  split at h
  · next hm => exact walk_of_access hm
  · cases h

theorem walk_of_putByte {s t : Machine} {a : Word} {b : Byte} (h : s.putByte a b = .ok t) :
    s.walk (dirOf a) (tabOf a) ≠ none := by
  unfold putByte at h
  split at h
  · next hm => exact walk_of_access hm
  · cases h

theorem ok_of_map {α β : Type} {x : Except Stop α} {f : α → β} {b : β} (h : x.map f = .ok b) :
    ∃ a, x = .ok a := by
  cases x with
  | error e => cases h
  | ok a => exact ⟨a, rfl⟩

theorem walk_of_exec {s : Machine} {o : Op} {x : o.Res × Machine} (h : exec o s = .ok x) {a : Word}
    (ha : o.address = some a) : s.walk (dirOf a) (tabOf a) ≠ none := by
  cases o with
  | load b =>
    obtain rfl : b = a := by simpa [Op.address] using ha
    simp only [exec] at h
    split at h
    · split at h
      · next hm => exact walk_of_access hm
      · cases h
    · obtain ⟨w, hw⟩ := ok_of_map h
      cases hb : s.byteAt b with
      | error e => simp [wordAt, hb, bind, Except.bind] at hw
      | ok b₀ => exact walk_of_byteAt hb
  | store b v =>
    obtain rfl : b = a := by simpa [Op.address] using ha
    simp only [exec] at h
    split at h
    · split at h
      · next hm => exact walk_of_access hm
      · cases h
    · obtain ⟨t, ht⟩ := ok_of_map h
      cases hb : s.putByte b (v.extractLsb' 0 8) with
      | error e => simp [putWord, hb, bind, Except.bind] at ht
      | ok u => exact walk_of_putByte hb
  | loadByte b =>
    obtain rfl : b = a := by simpa [Op.address] using ha
    obtain ⟨b₀, hb⟩ := ok_of_map h
    exact walk_of_byteAt hb
  | storeByte b v =>
    obtain rfl : b = a := by simpa [Op.address] using ha
    obtain ⟨t, ht⟩ := ok_of_map h
    exact walk_of_putByte ht
  | _ => simp [Op.address] at ha

/-- A run that returns has touched mapped pages only. -/
theorem walk_of_run {α : Type} {p : Code α} {s t : Machine} {r : α} (h : s.run p = .ok (r, t)) :
    ∀ x ∈ s.trace p, ∀ a, x.1.address = some a → x.2.walk (dirOf a) (tabOf a) ≠ none := by
  induction p generalizing s with
  | ret _ => simp
  | op o k ih =>
    intro x hx a ha
    rw [run, Prog.run] at h
    rw [trace, Prog.trace] at hx
    cases he : exec o s with
    | error e => simp [he] at h
    | ok y =>
      simp only [he] at h hx
      rcases List.mem_cons.mp hx with rfl | hx
      · exact walk_of_exec he ha
      · exact ih y.1 h x hx a ha

/-- The directory's last entry maps the directory. -/
structure SelfMapped (s : Machine) : Prop where
  present : present (s.pde selfDir) = true
  frame : frameOf (s.pde selfDir) = s.cr3

/-- It maps it for writing, so that the tables can be edited through the window. -/
structure Editable (s : Machine) : Prop extends SelfMapped s where
  writable : PekOS.writable (s.pde selfDir) = true

variable {s : Machine}

theorem SelfMapped.pte_eq_pde (hs : s.SelfMapped) (d : Index) : s.pte selfDir d = s.pde d := by
  rw [pte, hs.frame, pde]

theorem SelfMapped.walk_window (hs : s.SelfMapped) (d : Index) :
    s.walk selfDir d = if PekOS.present (s.pde d) then
      some ⟨frameOf (s.pde d), PekOS.writable (s.pde selfDir) && PekOS.writable (s.pde d)⟩ else none := by
  simp only [walk, hs.pte_eq_pde, hs.present, Bool.true_and]

theorem SelfMapped.run_load_pte (hs : s.SelfMapped) {d : Index}
    (hp : PekOS.present (s.pde d) = true) (t : Index) :
    s.run (Code.load (pteAddr d t)) = .ok (s.pte d t, s) := by
  have hw := hs.walk_window d
  rw [if_pos hp, ← dirOf_pteAddr d t] at hw
  rw [run_load (aligned_pteAddr d t) (by rw [tabOf_pteAddr, hw]), wordOf_pteAddr, pte]

theorem SelfMapped.run_load_pde (hs : s.SelfMapped) (d : Index) :
    s.run (Code.load (pteAddr selfDir d)) = .ok (s.pde d, s) := by
  rw [hs.run_load_pte hs.present, hs.pte_eq_pde]

theorem Editable.run_store_pte (hs : s.Editable) {d : Index}
    (hp : PekOS.present (s.pde d) = true) (hw : PekOS.writable (s.pde d) = true) (t : Index)
    (v : Word) :
    s.run (Code.store (pteAddr d t) v) = .ok ((), s.put (frameOf (s.pde d)) t v) := by
  have hwalk := hs.walk_window d
  rw [if_pos hp, hs.writable, hw, Bool.and_self, ← dirOf_pteAddr d t] at hwalk
  rw [run_store (aligned_pteAddr d t) (by rw [tabOf_pteAddr, hwalk]), wordOf_pteAddr]

theorem Editable.run_store_pde (hs : s.Editable) (d : Index) (v : Word) :
    s.run (Code.store (pteAddr selfDir d) v) = .ok ((), s.put s.cr3 d v) := by
  rw [hs.run_store_pte hs.present hs.writable, hs.frame]

/-- A page table entered without the write bit cannot be filled in: the store
is a protection fault. -/
theorem SelfMapped.run_store_pte_protected (hs : s.SelfMapped) {d : Index}
    (hp : PekOS.present (s.pde d) = true) (hw : PekOS.writable (s.pde d) = false) (t : Index)
    (v : Word) :
    s.run (Code.store (pteAddr d t) v) = .error (.protection (pteAddr d t)) := by
  simp [Code.store, exec, access, aligned_pteAddr, dirOf_pteAddr, tabOf_pteAddr,
    hs.walk_window, hp, hw]

end Machine

end PekOS
