import PekOS.Machine
import PekOS.Library.InPlace
import PekOS.Library.LittleEndian

/-! string.h, on a memory without paging. -/

namespace PekOS

open OpTree Code

/-- The functions of string.h access memory and nothing else. -/
def Flat.exec : (o : Op) → (Word → Byte) → Except Stop (o.Res × (Word → Byte))
  | .load a, m => .ok (LittleEndian.word m a, m)
  | .store a v, m => .ok ((), LittleEndian.put m a v)
  | .loadByte a, m => .ok (m a, m)
  | .storeByte a b, m => .ok ((), Function.update m a b)
  | _, _ => .error .halt

section Memmove

variable (dst src : Word)

/-- The body of both loops of `memmove`. -/
def moveByte (i : Nat) : Code Unit := do
  let b ← loadByte (src + BitVec.ofNat 32 i)
  storeByte (dst + BitVec.ofNat 32 i) b

def copyDown : Nat → Code Unit
  | 0 => return ()
  | i + 1 => do
    moveByte dst src i
    copyDown i

def memmove (size : Word) : Code Word := do
  (if dst < src then Prog.forUp size.toNat () fun i _ => moveByte dst src i
  else copyDown dst src size.toNat)
  return dst

end Memmove

section Moves

variable {dst src : Word}

abbrev moved (dst src : Word) (l : List Nat) (m : Word → Byte) : Word → Byte :=
  InPlace.copy (fun i => dst + BitVec.ofNat 32 i) (fun i => src + BitVec.ofNat 32 i) l m

theorem run_moveByte (i : Nat) (m : Word → Byte) :
    Prog.run Flat.exec (moveByte dst src i) m = .ok ((), moved dst src [i] m) := rfl

theorem run_copyUp (n : Nat) (m : Word → Byte) :
    Prog.run Flat.exec (Prog.forUp n () fun i _ => moveByte dst src i) m =
      .ok ((), moved dst src (List.range n) m) := by
  obtain ⟨_, m', hr, hm⟩ := Prog.run_forUp Flat.exec (fun i (_ : Unit) => moveByte dst src i)
    (n := n) (b := ()) (s := m)
    (fun i _ m' => m' = moved dst src (List.range i) m) rfl fun i _ m' _ hm => by
      refine ⟨(), _, run_moveByte i m', ?_⟩
      rw [hm, List.range_succ]
      exact (InPlace.copy_append _ _ m).symm
  rw [hr, hm]

theorem run_copyDown (n : Nat) (m : Word → Byte) :
    Prog.run Flat.exec (copyDown dst src n) m = .ok ((), moved dst src (List.range n).reverse m) := by
  induction n generalizing m with
  | zero => rfl
  | succ n ih =>
    rw [copyDown, Prog.run_bind_ok _ (run_moveByte n m), ih, List.range_succ, List.reverse_append, moved,
      ← InPlace.copy_append]
    rfl

theorem add_ne_add {p q : Word} {i j : Nat} (hi : p.toNat + i < 2 ^ 32) (hj : q.toNat + j < 2 ^ 32)
    (h : p.toNat + i ≠ q.toNat + j) : p + BitVec.ofNat 32 i ≠ q + BitVec.ofNat 32 j := by
  rw [Ne, ← BitVec.toNat_inj, BitVec.toNat_add, BitVec.toNat_add, BitVec.toNat_ofNat, BitVec.toNat_ofNat]
  omega

variable {n : Nat} (hdst : dst.toNat + n ≤ 2 ^ 32) (hsrc : src.toNat + n ≤ 2 ^ 32)

include hdst hsrc

/-- Upwards, what has been written lies below what is still to be read. -/
theorem fresh_up (h : dst < src) :
    InPlace.Fresh (fun i => dst + BitVec.ofNat 32 i) (fun i => src + BitVec.ofNat 32 i)
    (List.range n) := by
  rw [BitVec.lt_def] at h
  refine (List.pairwise_lt_range (n := n)).imp_of_mem fun {i j} hi hj hij => ?_
  rw [List.mem_range] at hi hj
  exact ⟨add_ne_add (by omega) (by omega) (by omega), add_ne_add (by omega) (by omega) (by omega)⟩

theorem fresh_down (h : ¬ dst < src) :
    InPlace.Fresh (fun i => dst + BitVec.ofNat 32 i) (fun i => src + BitVec.ofNat 32 i)
    (List.range n).reverse := by
  rw [BitVec.lt_def] at h
  refine List.pairwise_reverse.mpr
    ((List.pairwise_lt_range (n := n)).imp_of_mem fun {i j} hi hj hij => ?_)
  rw [List.mem_range] at hi hj
  exact ⟨add_ne_add (by omega) (by omega) (by omega), add_ne_add (by omega) (by omega) (by omega)⟩

omit hsrc in
theorem moved_outside {l : List Nat} (hl : ∀ i ∈ l, i < n) {a : Word}
    (ha : a.toNat < dst.toNat ∨ dst.toNat + n ≤ a.toNat) (m : Word → Byte) :
    moved dst src l m a = m a := by
  refine InPlace.copy_of_ne (fun i hi => ?_) m
  have hlt := hl i hi
  rw [Ne, ← BitVec.toNat_inj, BitVec.toNat_add, BitVec.toNat_ofNat]
  omega

end Moves

/-- `memmove` moves the bytes as they were, however the ranges overlap. -/
theorem memmove_moves (m : Word → Byte) {dst src size : Word} (hdst : dst.toNat + size.toNat ≤ 2 ^ 32)
    (hsrc : src.toNat + size.toNat ≤ 2 ^ 32) :
    ∃ m', Prog.run Flat.exec (memmove dst src size) m = .ok (dst, m') ∧
      (∀ i < size.toNat, m' (dst + BitVec.ofNat 32 i) = m (src + BitVec.ofNat 32 i)) ∧
      ∀ a : Word, a.toNat < dst.toNat ∨ dst.toNat + size.toNat ≤ a.toNat → m' a = m a := by
  by_cases h : dst < src
  · refine ⟨moved dst src (List.range size.toNat) m, ?_, fun i hi => ?_, fun a ha => ?_⟩
    · rw [memmove, if_pos h, Prog.run_bind_ok _ (run_copyUp size.toNat m)]
      rfl
    · exact (fresh_up hdst hsrc h).copy_dst (List.mem_range.mpr hi) m
    · exact moved_outside hdst (fun i hi => List.mem_range.mp hi) ha m
  · refine ⟨moved dst src (List.range size.toNat).reverse m, ?_, fun i hi => ?_, fun a ha => ?_⟩
    · rw [memmove, if_neg h, Prog.run_bind_ok _ (run_copyDown size.toNat m)]
      rfl
    · exact (fresh_down hdst hsrc h).copy_dst (List.mem_reverse.mpr (List.mem_range.mpr hi)) m
    · exact moved_outside hdst (fun i hi => List.mem_range.mp (List.mem_reverse.mp hi)) ha m

/-- Three bytes, one byte further. -/
theorem memmove_moves_overlapping : ∃ m',
    Prog.run Flat.exec (memmove 0x1001#32 0x1000#32 3#32) (fun a => a.setWidth 8) = .ok (0x1001#32, m') ∧
      (∀ i < (3#32).toNat, m' (0x1001#32 + BitVec.ofNat 32 i) =
        (0x1000#32 + BitVec.ofNat 32 i : Word).setWidth 8) ∧
      ∀ a : Word, a.toNat < (0x1001#32).toNat ∨ (0x1001#32).toNat + (3#32).toNat ≤ a.toNat →
      m' a = a.setWidth 8 :=
  memmove_moves (fun a => a.setWidth 8) (by decide) (by decide)

end PekOS
