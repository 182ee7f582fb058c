import Mathlib.Logic.Function.Basic
import Mathlib.Data.List.Basic

/-! Copying within one memory, one element after the other. -/

namespace InPlace

variable {ι α β : Type} [DecidableEq α] (dst src : ι → α)

/-- The memory after the elements have been copied in the order of the list. -/
def copy (l : List ι) (m : α → β) : α → β := l.foldl (fun m i => Function.update m (dst i) (m (src i))) m

/-- In this order nothing is written that is still to be read, and nothing is written twice. -/
def Fresh (l : List ι) : Prop := l.Pairwise fun i j => dst i ≠ src j ∧ dst i ≠ dst j

variable {dst src} {l : List ι}

theorem copy_cons (i : ι) (l : List ι) (m : α → β) :
    copy dst src (i :: l) m = copy dst src l (Function.update m (dst i) (m (src i))) := rfl

theorem copy_append (l l' : List ι) (m : α → β) :
    copy dst src (l ++ l') m = copy dst src l' (copy dst src l m) :=
  List.foldl_append

theorem copy_of_ne {a : α} (h : ∀ i ∈ l, a ≠ dst i) (m : α → β) : copy dst src l m a = m a := by
  induction l generalizing m with
  | nil => rfl
  | cons i l ih =>
    rw [copy_cons, ih fun j hj => h j (List.mem_cons_of_mem i hj),
      Function.update_of_ne (h i List.mem_cons_self)]

/-- Every element arrives as it was before the first of them was copied. -/
theorem Fresh.copy_dst (h : Fresh dst src l) {i : ι} (hi : i ∈ l) (m : α → β) :
    copy dst src l m (dst i) = m (src i) := by
  induction l generalizing m with
  | nil => exact absurd hi List.not_mem_nil
  | cons j l ih =>
    obtain ⟨hj, hl⟩ := List.pairwise_cons.mp h
    rw [copy_cons]
    rcases List.mem_cons.mp hi with rfl | hi
    · rw [copy_of_ne (fun k hk => (hj k hk).2), Function.update_self]
    · rw [ih hl hi, Function.update_of_ne (hj i hi).1.symm]

end InPlace
