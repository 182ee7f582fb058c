import PekOS.Library.LittleEndian
import Mathlib.Data.Nat.Basic

/-! The layout of structs in C: every member goes to the next multiple of its
alignment, or, in a packed struct, right behind the one before it. -/

namespace StructLayout

/-- A type of C, by what its place in a struct depends on. -/
structure CType where
  size : Nat
  align : Nat
  align_pos : 0 < align

def CType.array (t : CType) (n : Nat) : CType := ⟨n * t.size, t.align, t.align_pos⟩

def alignUp (a x : Nat) : Nat := (x + a - 1) / a * a

theorem le_alignUp {a : Nat} (ha : 0 < a) (x : Nat) : x ≤ alignUp a x := by
  have hdiv := Nat.div_add_mod' (x + a - 1) a
  have hmod := Nat.mod_lt (x + a - 1) ha
  rw [alignUp]
  omega

theorem alignUp_eq_self_iff {a x : Nat} (ha : 0 < a) : alignUp a x = x ↔ a ∣ x := by
  constructor
  · intro h
    exact ⟨(x + a - 1) / a, by rw [Nat.mul_comm]; exact h.symm⟩
  · intro h
    have hdvd : a ∣ alignUp a x - x := Nat.dvd_sub (Nat.dvd_mul_left a _) h
    have hle := le_alignUp ha x
    have hlt : alignUp a x - x < a := by
      have hdiv := Nat.div_mul_le_self (x + a - 1) a
      rw [alignUp]
      omega
    have hzero := Nat.eq_zero_of_dvd_of_lt hdvd hlt
    omega

/-- Where the `i`-th of some members starts, the first of them coming after `x` bytes. -/
def offset (packed : Bool) : Nat → List CType → Nat → Nat
  | x, [], _ => x
  | x, t :: _, 0 => if packed then x else alignUp t.align x
  | x, t :: ts, i + 1 => offset packed ((if packed then x else alignUp t.align x) + t.size) ts i

/-- Behind a byte of padding everything is shifted. -/
theorem offset_lt {x y : Nat} (h : y < x) (ts : List CType) (i : Nat) :
    offset true y ts i < offset false x ts i := by
  induction ts generalizing x y i with
  | nil =>
    rw [offset, offset]
    exact h
  | cons t ts ih =>
    have hle := le_alignUp t.align_pos x
    cases i with
    | zero => exact Nat.lt_of_lt_of_le h hle
    | succ i => exact ih (Nat.add_lt_add_right (Nat.lt_of_lt_of_le h hle) t.size) i

def alignOf (ts : List CType) (i : Nat) : Nat := (ts[i]?.map CType.align).getD 1

/-- A member starts where it would in a packed struct if and only if that needs no padding up to
there. -/
theorem offset_eq_packed_iff {ts : List CType} {x i : Nat} :
    offset false x ts i = offset true x ts i ↔ ∀ j ≤ i, alignOf ts j ∣ offset true x ts j := by
  induction ts generalizing x i with
  | nil =>
    rw [offset, offset]
    exact iff_of_true rfl fun j _ => Nat.one_dvd _
  | cons t ts ih =>
    by_cases hdvd : t.align ∣ x
    · have heq : alignUp t.align x = x := (alignUp_eq_self_iff t.align_pos).mpr hdvd
      cases i with
      | zero =>
        refine iff_of_true heq fun j hj => ?_
        obtain rfl := Nat.le_zero.mp hj
        exact hdvd
      | succ i =>
        have hrest : offset false x (t :: ts) (i + 1) = offset false (x + t.size) ts i := by
          rw [offset, if_neg Bool.false_ne_true, heq]
        rw [hrest]
        refine ih.trans ⟨fun h j hj => ?_, fun h j hj => h (j + 1) (by omega)⟩
        cases j with
        | zero => exact hdvd
        | succ j => exact h j (by omega)
    · have hlt : x < alignUp t.align x := Nat.lt_of_le_of_ne (le_alignUp t.align_pos x) fun h =>
        hdvd ((alignUp_eq_self_iff t.align_pos).mp h.symm)
      refine iff_of_false ?_ fun h => hdvd (h 0 (Nat.zero_le _))
      cases i with
      | zero => exact Nat.ne_of_gt hlt
      | succ i => exact Nat.ne_of_gt (offset_lt (Nat.add_lt_add_right hlt t.size) ts i)

def widthOf (ts : List CType) (i : Nat) : Nat := (ts[i]?.map CType.size).getD 0

/-- Every byte of a packed struct is one of a member. -/
theorem exists_member {ts : List CType} {x j : Nat} (hx : x ≤ j) (hj : j < offset true x ts ts.length) :
    ∃ i < ts.length, offset true x ts i ≤ j ∧ j < offset true x ts i + widthOf ts i := by
  induction ts generalizing x with
  | nil =>
    rw [offset] at hj
    omega
  | cons t ts ih =>
    by_cases hin : j < x + t.size
    · exact ⟨0, Nat.succ_pos _, hx, hin⟩
    · obtain ⟨i, hi, hle, hlt⟩ := ih (x := x + t.size) (by omega) hj
      exact ⟨i + 1, Nat.succ_lt_succ hi, hle, hlt⟩

structure Struct where
  packed : Bool
  members : List (String × CType)

namespace Struct

variable (S : Struct)

def types : List CType := S.members.map (·.2)

def offset (i : Nat) : Nat := StructLayout.offset S.packed 0 S.types i

def width (i : Nat) : Nat := widthOf S.types i

def align : Nat := if S.packed then 1 else S.types.foldr (fun t a => max t.align a) 1

theorem align_pos : 0 < S.align := by
  rw [align]
  split
  · exact Nat.one_pos
  · induction S.types with
    | nil => exact Nat.one_pos
    | cons t ts ih => exact Nat.lt_of_lt_of_le t.align_pos (Nat.le_max_left _ _)

def type : CType := ⟨alignUp S.align (S.offset S.types.length), S.align, S.align_pos⟩

end Struct

section Reads

open LittleEndian

variable {w : Nat}

/-- Two places hold the same in every memory only if they are the same place. -/
theorem value_eq_iff_offset {o o' n : Nat} (hn : 0 < n) (ho : o < 2 ^ w) (ho' : o' < 2 ^ w) :
    (∀ (m : BitVec w → BitVec 8) p, value m (p + BitVec.ofNat w o) n =
      value m (p + BitVec.ofNat w o') n) ↔ o = o' := by
  constructor
  · intro h
    by_contra hne
    have hplace : BitVec.ofNat w o ≠ BitVec.ofNat w o' := fun he => hne (by
      have hnat := congrArg BitVec.toNat he
      rwa [BitVec.toNat_ofNat, BitVec.toNat_ofNat, Nat.mod_eq_of_lt ho, Nat.mod_eq_of_lt ho'] at hnat)
    have hsame := value_eq_iff.mp (h (fun x => if x = BitVec.ofNat w o then 1#8 else 0#8) 0#w) 0 hn
    simp [hplace.symm] at hsame
  · rintro rfl m p
    rfl

end Reads

end StructLayout
