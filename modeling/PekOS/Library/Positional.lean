import Mathlib.Data.Nat.Digits.Defs

/-! Reading positional numerals, over any alphabet of digits. -/

namespace Positional

variable {α : Type} (value : α → Option Nat) (base : Nat)

/-- The digits are read on from `n`. -/
def readFrom : Nat → List α → Option Nat
  | n, [] => some n
  | n, a :: l => (value a).bind fun d => if d < base then readFrom (n * base + d) l else none

/-- The number a numeral stands for. -/
def read : List α → Option Nat
  | [] => none
  | l => readFrom value base 0 l

variable {value base} {digit : Nat → α}

theorem readFrom_append (n : Nat) (l l' : List α) :
    readFrom value base n (l ++ l') = (readFrom value base n l).bind fun m =>
    readFrom value base m l' := by
  induction l generalizing n with
  | nil => rfl
  | cons a l ih =>
    rw [List.cons_append, readFrom, readFrom]
    cases value a with
    | none => rfl
    | some d =>
      by_cases hd : d < base
      · simp only [Option.bind_some, if_pos hd, ih]
      · simp only [Option.bind_some, if_neg hd, Option.bind_none]

theorem readFrom_digit (hdigit : ∀ d < base, value (digit d) = some d) (n : Nat) {d : Nat}
    (hd : d < base) : readFrom value base n [digit d] = some (n * base + d) := by
  rw [readFrom, hdigit d hd]
  exact if_pos hd

theorem readFrom_digits (hbase : 1 < base) (hdigit : ∀ d < base, value (digit d) = some d) (n : Nat) :
    readFrom value base 0 ((Nat.digits base n).reverse.map digit) = some n := by
  induction n using Nat.strong_induction_on with
  | _ n ih =>
    by_cases h0 : n = 0
    · subst h0
      rw [Nat.digits_zero]
      rfl
    · have hpos : 0 < n := Nat.pos_of_ne_zero h0
      rw [Nat.digits_def' hbase hpos, List.reverse_cons, List.map_append, readFrom_append,
        ih (n / base) (Nat.div_lt_self hpos hbase)]
      refine (readFrom_digit hdigit (n / base) (Nat.mod_lt n (by omega))).trans ?_
      rw [Nat.mul_comm, Nat.div_add_mod]

theorem getLast?_digits_ne_zero (hbase : 1 < base) (n : Nat) : (Nat.digits base n).getLast? ≠ some 0 := by
  induction n using Nat.strong_induction_on with
  | _ n ih =>
    by_cases h0 : n = 0
    · subst h0
      simp
    · have hpos : 0 < n := Nat.pos_of_ne_zero h0
      rw [Nat.digits_def' hbase hpos]
      by_cases hdiv : n / base = 0
      · have hlt : n < base := (Nat.div_eq_zero_iff.mp hdiv).resolve_left (by omega)
        rw [hdiv, Nat.digits_zero, List.getLast?_singleton, Nat.mod_eq_of_lt hlt]
        exact fun h => h0 (Option.some.inj h)
      · rw [List.getLast?_cons_of_ne_nil (Nat.digits_ne_nil_iff_ne_zero.mpr hdiv)]
        exact ih (n / base) (Nat.div_lt_self hpos hbase)

theorem read_of_ne_nil {l : List α} (h : l ≠ []) : read value base l = readFrom value base 0 l := by
  cases l with
  | nil => exact absurd rfl h
  | cons a l => rfl

end Positional
