import Mathlib.Data.Nat.Basic

/-! Packed structs and bit-fields of C: the members take their bits in the order of
declaration, the lowest first, each right behind the one before it. -/

namespace BitFields

section Assign

variable {w m : Nat}

/-- `x` once `v` has been assigned to the `n` bits from the `o`-th on. -/
def assign (x : BitVec w) (o n : Nat) (v : BitVec m) : BitVec w :=
  x &&& ~~~((BitVec.allOnes n).setWidth w <<< o) ||| (v.setWidth n).setWidth w <<< o

variable {x : BitVec w} {v : BitVec m} {o n o' n' i : Nat}

theorem getLsbD_assign (hi : i < w) : (assign x o n v).getLsbD i =
    if o ≤ i ∧ i < o + n then v.getLsbD (i - o) else x.getLsbD i := by
  simp only [assign, BitVec.getLsbD_or, BitVec.getLsbD_and, BitVec.getLsbD_not, BitVec.getLsbD_shiftLeft,
    BitVec.getLsbD_setWidth, BitVec.getLsbD_allOnes]
  by_cases hlt : i < o
  · simp [hi, hlt, show ¬ (o ≤ i ∧ i < o + n) by omega]
  · by_cases hin : i < o + n
    · simp [hi, hlt, show o ≤ i ∧ i < o + n by omega, show i - o < n by omega, show i - o < w by omega]
    · simp [hi, hlt, show ¬ (o ≤ i ∧ i < o + n) by omega, show ¬ i - o < n by omega]

theorem extract_assign (h : o + n ≤ w) : (assign x o n v).extractLsb' o n = v.setWidth n := by
  apply BitVec.eq_of_getLsbD_eq
  intro i hi
  rw [BitVec.getLsbD_extractLsb', decide_eq_true hi, Bool.true_and, getLsbD_assign (by omega),
    if_pos (by omega), Nat.add_sub_cancel_left, BitVec.getLsbD_setWidth, decide_eq_true hi, Bool.true_and]

theorem extract_assign_of_disjoint (h' : o' + n' ≤ w) (h : o' + n' ≤ o ∨ o + n ≤ o') :
    (assign x o n v).extractLsb' o' n' = x.extractLsb' o' n' := by
  apply BitVec.eq_of_getLsbD_eq
  intro i hi
  rw [BitVec.getLsbD_extractLsb', BitVec.getLsbD_extractLsb', decide_eq_true hi,
    getLsbD_assign (by omega), if_neg (by omega)]

end Assign

/-- Members, each with the number of its bits. -/
abbrev Layout (ι : Type) := List (ι × Nat)

namespace Layout

variable {ι : Type} [DecidableEq ι]

def bits : Layout ι → Nat
  | [] => 0
  | (_, n) :: l => n + bits l

def start : Layout ι → ι → Nat
  | [], _ => 0
  | (g, n) :: l, f => if g = f then 0 else n + start l f

def width : Layout ι → ι → Nat
  | [], _ => 0
  | (g, n) :: l, f => if g = f then n else width l f

theorem start_add_width_le (l : Layout ι) (f : ι) : l.start f + l.width f ≤ l.bits := by
  induction l with
  | nil => exact Nat.le_refl 0
  | cons a l ih =>
    rw [start, width, bits]
    split <;> omega

theorem disjoint (l : Layout ι) {f g : ι} (h : f ≠ g) :
    l.start f + l.width f ≤ l.start g ∨ l.start g + l.width g ≤ l.start f := by
  induction l with
  | nil => exact Or.inl (Nat.le_refl 0)
  | cons a l ih =>
    have hf := start_add_width_le l f
    have hg := start_add_width_le l g
    simp only [start, width]
    grind

variable (l : Layout ι)

abbrev Value := BitVec l.bits

def field (f : ι) (x : Value l) : BitVec (l.width f) := x.extractLsb' (l.start f) (l.width f)

def set {m : Nat} (f : ι) (v : BitVec m) (x : Value l) : Value l := assign x (l.start f) (l.width f) v

variable {l} {m : Nat}

@[simp] theorem field_set (f : ι) (v : BitVec m) (x : Value l) :
    l.field f (l.set f v x) = v.setWidth (l.width f) :=
  extract_assign (l.start_add_width_le f)

@[simp] theorem field_set_of_ne {f g : ι} (h : f ≠ g) (v : BitVec m) (x : Value l) :
    l.field f (l.set g v x) = l.field f x :=
  extract_assign_of_disjoint (l.start_add_width_le f) (l.disjoint h)

end Layout

end BitFields
