import Mathlib.Algebra.Group.Nat.Defs
import PekOS.Machine

/-! Arithmetic of addresses and table entries: the fields the MMU extracts
against the shifts and masks of the C code. -/

namespace PekOS

theorem frameOf_toNat (a : Word) : (frameOf a).toNat = a.toNat / 4096 := by
  have h := a.isLt
  simp only [frameOf, BitVec.extractLsb'_toNat, Nat.shiftRight_eq_div_pow]
  omega

theorem dirOf_toNat (a : Word) : (dirOf a).toNat = a.toNat / 4194304 := by
  have h := a.isLt
  simp only [dirOf, BitVec.extractLsb'_toNat, Nat.shiftRight_eq_div_pow]
  omega

theorem tabOf_toNat (a : Word) : (tabOf a).toNat = a.toNat / 4096 % 1024 := by
  simp only [tabOf, BitVec.extractLsb'_toNat, Nat.shiftRight_eq_div_pow]

theorem wordOf_toNat (a : Word) : (wordOf a).toNat = a.toNat / 4 % 1024 := by
  simp only [wordOf, BitVec.extractLsb'_toNat, Nat.shiftRight_eq_div_pow]

theorem offsetOf_toNat (a : Word) : (offsetOf a).toNat = a.toNat % 4096 := by
  simp only [offsetOf, BitVec.extractLsb'_toNat, Nat.shiftRight_zero]

theorem append_toNat (f : Frame) (o : BitVec 12) :
    (f ++ o : Word).toNat = f.toNat * 4096 + o.toNat := by
  rw [BitVec.toNat_append, ← Nat.shiftLeft_add_eq_or_of_lt o.isLt, Nat.shiftLeft_eq]

theorem frameOf_ne_iff {a b : Word} : frameOf a ≠ frameOf b ↔ a.toNat / 4096 ≠ b.toNat / 4096 := by
  rw [Ne, ← BitVec.toNat_inj, frameOf_toNat, frameOf_toNat]

theorem and_ones_toNat (a : Word) {k : Nat} (hk : k ≤ 32) :
    (a &&& BitVec.ofNat 32 (2 ^ k - 1)).toNat = a.toNat % 2 ^ k := by
  have hle : 2 ^ k ≤ 2 ^ 32 := Nat.pow_le_pow_right (by omega) hk
  have hpos : 0 < 2 ^ k := Nat.two_pow_pos k
  rw [BitVec.toNat_and, BitVec.toNat_ofNat, Nat.mod_eq_of_lt (by omega), Nat.and_two_pow_sub_one_eq_mod]

/-! Indices as paging.c computes them. -/

theorem shiftRight_eq_dirOf (a : Word) : a >>> 22 = (dirOf a).setWidth 32 := by
  have ha := a.isLt
  apply BitVec.eq_of_toNat_eq
  rw [BitVec.toNat_setWidth, dirOf_toNat, BitVec.toNat_ushiftRight, Nat.shiftRight_eq_div_pow]
  omega

theorem shiftRight_and_eq_tabOf (a : Word) : a >>> 12 &&& 0x03FF#32 = (tabOf a).setWidth 32 := by
  apply BitVec.eq_of_toNat_eq
  rw [show 0x03FF#32 = BitVec.ofNat 32 (2 ^ 10 - 1) from rfl, and_ones_toNat _ (by omega),
    BitVec.toNat_setWidth, tabOf_toNat, BitVec.toNat_ushiftRight, Nat.shiftRight_eq_div_pow]
  omega

theorem ofNat_eq_setWidth {i : Nat} (hi : i < 1024) :
    BitVec.ofNat 32 i = (BitVec.ofNat 10 i).setWidth 32 := by
  apply BitVec.eq_of_toNat_eq
  simp only [BitVec.toNat_ofNat, BitVec.toNat_setWidth]
  omega

theorem and_one_toNat (e : Word) : (e &&& 1#32).toNat = e.toNat % 2 :=
  and_ones_toNat e (k := 1) (by omega)

theorem present_eq (e : Word) : present e = decide (e.toNat % 2 = 1) := by
  simp [present, BitVec.getLsbD]

theorem and_one_eq_zero_iff (e : Word) : e &&& 1#32 = 0#32 ↔ present e = false := by
  rw [← BitVec.toNat_inj, and_one_toNat, present_eq, decide_eq_false_iff_not, BitVec.toNat_ofNat]
  omega

/-- The test `!(e & 1)` of paging.c. -/
theorem ite_and_one {α : Type} (e : Word) (x y : α) :
    (if e &&& 1#32 = 0#32 then x else y) = if present e then y else x := by
  by_cases h : present e = true
  · rw [if_neg (by rw [and_one_eq_zero_iff, h]; exact Bool.noConfusion), if_pos h]
  · rw [if_pos ((and_one_eq_zero_iff e).mpr (Bool.eq_false_iff.mpr h)), if_neg h]

theorem and_one_eq_one_iff (e : Word) : e &&& 1#32 = 1#32 ↔ present e = true := by
  rw [← BitVec.toNat_inj, and_one_toNat, present_eq, decide_eq_true_eq, BitVec.toNat_ofNat]

theorem and_low_toNat (a : Word) : (a &&& 0xFFF#32).toNat = a.toNat % 4096 :=
  and_ones_toNat a (k := 12) (by omega)

theorem and_mask_toNat (e : Word) : (e &&& ~~~0xFFF#32).toNat = e.toNat / 4096 * 4096 := by
  have h : ~~~0xFFF#32 = BitVec.allOnes 32 <<< 12 := by decide
  have he := e.isLt
  rw [h, ← BitVec.shiftLeft_ushiftRight]
  simp only [BitVec.toNat_shiftLeft, BitVec.toNat_ushiftRight, Nat.shiftLeft_eq,
    Nat.shiftRight_eq_div_pow]
  omega

/-- The sum `get_physaddr` returns is the address the MMU forms. -/
theorem mask_add_offset (e a : Word) :
    (e &&& ~~~0xFFF#32) + (a &&& 0xFFF#32) = frameOf e ++ offsetOf a := by
  have he := e.isLt
  apply BitVec.eq_of_toNat_eq
  rw [BitVec.toNat_add, and_mask_toNat, and_low_toNat, append_toNat, frameOf_toNat, offsetOf_toNat]
  omega

theorem frameOf_eq_iff {a b : Word} : frameOf a = frameOf b ↔ dirOf a = dirOf b ∧ tabOf a = tabOf b := by
  have ha := a.isLt
  have hb := b.isLt
  rw [← BitVec.toNat_inj, ← BitVec.toNat_inj, ← BitVec.toNat_inj, frameOf_toNat, frameOf_toNat,
    dirOf_toNat, dirOf_toNat, tabOf_toNat, tabOf_toNat]
  omega

theorem frameOf_append (f : Frame) (o : BitVec 12) : frameOf (f ++ o : Word) = f := by
  have ho := o.isLt
  apply BitVec.eq_of_toNat_eq
  rw [frameOf_toNat, append_toNat]
  omega

theorem offsetOf_append (f : Frame) (o : BitVec 12) : offsetOf (f ++ o : Word) = o := by
  have ho := o.isLt
  apply BitVec.eq_of_toNat_eq
  rw [offsetOf_toNat, append_toNat]
  omega

theorem frameOf_append_self (p : Word) : (frameOf p ++ offsetOf p : Word) = p := by
  have hlt := p.isLt
  apply BitVec.eq_of_toNat_eq
  rw [append_toNat, frameOf_toNat, offsetOf_toNat]
  omega

theorem frameOf_append_eq_add {p : Word} (hp : aligned 4096 p) (o : BitVec 12) :
    (frameOf p ++ o : Word) = p + o.setWidth 32 := by
  have h := p.isLt
  have ho := o.isLt
  unfold aligned at hp
  apply BitVec.eq_of_toNat_eq
  rw [append_toNat, BitVec.toNat_add, BitVec.toNat_setWidth, frameOf_toNat]
  omega

theorem frameOf_append_offsetOf {p : Word} (hp : aligned 4096 p) (a : Word) :
    (frameOf p ++ offsetOf a : Word) = p + (a &&& 0xFFF#32) := by
  have h := p.isLt
  unfold aligned at hp
  apply BitVec.eq_of_toNat_eq
  rw [append_toNat, BitVec.toNat_add, and_low_toNat, frameOf_toNat, offsetOf_toNat]
  omega

/-! Entries as paging.c composes them, `address | flags`. -/

theorem frameOf_or_low (p f : Word) : frameOf (p ||| (f &&& 0xFFF#32)) = frameOf p := by
  have hz : frameOf (f &&& 0xFFF#32) = 0#20 := by
    apply BitVec.eq_of_toNat_eq
    rw [frameOf_toNat, and_low_toNat, BitVec.toNat_ofNat]
    omega
  rw [frameOf, BitVec.extractLsb'_or, ← frameOf, ← frameOf, hz, BitVec.or_zero]

theorem present_or (a b : Word) : present (a ||| b) = (present a || present b) := by
  simp [present]

theorem writable_or (a b : Word) : writable (a ||| b) = (writable a || writable b) := by
  simp [writable]

theorem present_and_low (f : Word) : present (f &&& 0xFFF#32) = present f := by
  simp [present]

theorem writable_and_low (f : Word) : writable (f &&& 0xFFF#32) = writable f := by
  simp [writable]

theorem writable_of_aligned {p : Word} (hp : aligned 4096 p) : writable p = false := by
  unfold aligned at hp
  rw [writable, BitVec.getLsbD, Nat.testBit_succ, Nat.testBit_zero, decide_eq_false_iff_not]
  omega

@[simp] theorem present_or_three (p : Word) : present (p ||| 3#32) = true := by
  simp [present]

@[simp] theorem writable_or_three (p : Word) : writable (p ||| 3#32) = true := by
  simp [writable]

@[simp] theorem frameOf_or_three (p : Word) : frameOf (p ||| 3#32) = frameOf p :=
  frameOf_or_low p 3#32

end PekOS
