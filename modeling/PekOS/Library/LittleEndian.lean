import Mathlib.Algebra.Group.Nat.Defs

/-! Words of four bytes, the lowest first, in a memory of bytes whose addresses
wrap around. -/

namespace LittleEndian

variable {n : Nat}

def word (m : BitVec n → BitVec 8) (p : BitVec n) : BitVec 32 :=
  m (p + BitVec.ofNat n 3) ++ m (p + BitVec.ofNat n 2) ++ m (p + BitVec.ofNat n 1) ++ m p

/-- The memory once `v` has been written at `p`. -/
def put (m : BitVec n → BitVec 8) (p : BitVec n) (v : BitVec 32) : BitVec n → BitVec 8 := fun x =>
  if (x - p).toNat < 4 then v.extractLsb' (8 * (x - p).toNat) 8 else m x

variable {m m' : BitVec n → BitVec 8} {p q : BitVec n}

theorem word_congr (h0 : m' p = m p) (h : ∀ k < 4, m' (p + BitVec.ofNat n k) = m (p + BitVec.ofNat n k)) :
    word m' p = word m p := by
  rw [word, word, h0, h 1 (by decide), h 2 (by decide), h 3 (by decide)]

theorem add_sub_toNat (p : BitVec n) {k : Nat} (hk : k < 2 ^ n) :
    (p + BitVec.ofNat n k - p).toNat = k := by
  rw [BitVec.add_comm, BitVec.add_sub_cancel, BitVec.toNat_ofNat, Nat.mod_eq_of_lt hk]

theorem put_add (hn : 2 ≤ n) (m : BitVec n → BitVec 8) (p : BitVec n) (v : BitVec 32) {k : Nat}
    (hk : k < 4) : put m p v (p + BitVec.ofNat n k) = v.extractLsb' (8 * k) 8 := by
  have hpow : 2 ^ 2 ≤ 2 ^ n := Nat.pow_le_pow_right (by decide) hn
  rw [put, add_sub_toNat p (by omega), if_pos hk]

/-- The bytes of a word, put together. -/
theorem append_extract (v : BitVec 32) :
    v.extractLsb' 24 8 ++ v.extractLsb' 16 8 ++ v.extractLsb' 8 8 ++ v.extractLsb' 0 8 = v := by
  apply BitVec.eq_of_getLsbD_eq
  intro i hi
  simp only [BitVec.getLsbD_append, BitVec.getLsbD_extractLsb']
  grind

theorem append_extract_eight (v : BitVec 64) :
    v.extractLsb' 56 8 ++ v.extractLsb' 48 8 ++ v.extractLsb' 40 8 ++ v.extractLsb' 32 8 ++
    v.extractLsb' 24 8 ++
      v.extractLsb' 16 8 ++ v.extractLsb' 8 8 ++ v.extractLsb' 0 8 = v := by
  apply BitVec.eq_of_getLsbD_eq
  intro i hi
  simp only [BitVec.getLsbD_append, BitVec.getLsbD_extractLsb']
  grind

theorem word_put (hn : 2 ≤ n) (m : BitVec n → BitVec 8) (p : BitVec n) (v : BitVec 32) :
    word (put m p v) p = v := by
  have h0 := put_add hn m p v (k := 0) (by decide)
  rw [BitVec.add_zero] at h0
  rw [word, put_add hn m p v (by decide), put_add hn m p v (by decide), put_add hn m p v (by decide), h0]
  exact append_extract v

/-- The number that `k` bytes from `p` on hold. -/
def value (m : BitVec n → BitVec 8) (p : BitVec n) : Nat → Nat
  | 0 => 0
  | k + 1 => value m p k + (m (p + BitVec.ofNat n k)).toNat * 256 ^ k

theorem value_lt (m : BitVec n → BitVec 8) (p : BitVec n) (k : Nat) : value m p k < 256 ^ k := by
  induction k with
  | zero => exact Nat.one_pos
  | succ k ih =>
    have hbyte := (m (p + BitVec.ofNat n k)).isLt
    calc value m p k + (m (p + BitVec.ofNat n k)).toNat * 256 ^ k
      _ < 256 ^ k + 255 * 256 ^ k := Nat.add_lt_add_of_lt_of_le ih (Nat.mul_le_mul_right _ (by omega))
      _ = 256 ^ (k + 1) := by rw [Nat.pow_succ]; omega

theorem value_eq_iff {k : Nat} : value m p k = value m' q k ↔
    ∀ i < k, m (p + BitVec.ofNat n i) = m' (q + BitVec.ofNat n i) := by
  induction k with
  | zero => exact ⟨fun _ i hi => absurd hi (Nat.not_lt_zero i), fun _ => rfl⟩
  | succ k ih =>
    have hlt := value_lt m p k
    have hlt' := value_lt m' q k
    constructor
    · intro h
      rw [value, value] at h
      have hlow := congrArg (· % 256 ^ k) h
      have hhigh := congrArg (· / 256 ^ k) h
      simp only [Nat.add_mul_mod_self_right, Nat.mod_eq_of_lt hlt, Nat.mod_eq_of_lt hlt'] at hlow
      simp only [Nat.add_mul_div_right _ _ (Nat.pow_pos (by decide : 0 < 256)), Nat.div_eq_of_lt hlt,
        Nat.div_eq_of_lt hlt', Nat.zero_add] at hhigh
      intro i hi
      rcases Nat.lt_succ_iff_lt_or_eq.mp hi with hi | rfl
      · exact ih.mp hlow i hi
      · exact BitVec.eq_of_toNat_eq hhigh
    · intro h
      rw [value, value, ih.mpr fun i hi => h i (Nat.lt_succ_of_lt hi), h k (Nat.lt_succ_self k)]

/-- The memory once the bytes of `x` have been written at `p`. -/
def write {w : Nat} (m : BitVec n → BitVec 8) (p : BitVec n) (x : BitVec w) : BitVec n → BitVec 8 :=
  fun y =>
  if (y - p).toNat < w / 8 then x.extractLsb' (8 * (y - p).toNat) 8 else m y

theorem write_add {w k : Nat} (hw : w / 8 ≤ 2 ^ n) (m : BitVec n → BitVec 8) (p : BitVec n)
    (x : BitVec w) (hk : k < w / 8) :
    write m p x (p + BitVec.ofNat n k) = x.extractLsb' (8 * k) 8 := by
  rw [write, add_sub_toNat p (by omega), if_pos hk]

/-- A word of what has been written. -/
theorem word_write {w i : Nat} (hw : w / 8 ≤ 2 ^ n) (hi : 4 * i + 3 < w / 8)
    (m : BitVec n → BitVec 8) (p : BitVec n) (x : BitVec w) :
    word (write m p x) (p + BitVec.ofNat n (4 * i)) = x.extractLsb' (32 * i) 32 := by
  have hbyte (k : Nat) (hk : k < 4) : write m p x (p + BitVec.ofNat n (4 * i) + BitVec.ofNat n k) =
      (x.extractLsb' (32 * i) 32).extractLsb' (8 * k) 8 := by
    rw [BitVec.add_assoc, ← BitVec.ofNat_add, write_add hw m p x (by omega)]
    apply BitVec.eq_of_getLsbD_eq
    intro j hj
    simp only [BitVec.getLsbD_extractLsb', decide_eq_true hj, Bool.true_and,
      decide_eq_true (show 8 * k + j < 32 by omega)]
    exact congrArg _ (by omega)
  have h0 := hbyte 0 (by decide)
  rw [BitVec.add_zero] at h0
  rw [word, hbyte 3 (by decide), hbyte 2 (by decide), hbyte 1 (by decide), h0]
  exact append_extract _

/-- Two stretches of memory without a byte in common. -/
def Apart (p : BitVec n) (a : Nat) (q : BitVec n) (b : Nat) : Prop :=
  ∀ i < a, ∀ j < b, p + BitVec.ofNat n i ≠ q + BitVec.ofNat n j

theorem Apart.symm {a b : Nat} (h : Apart p a q b) : Apart q b p a :=
  fun i hi j hj he => h j hj i hi he.symm

theorem apart_of_le {a b : Nat} (h : p.toNat + a ≤ q.toNat) (hq : q.toNat + b ≤ 2 ^ n) :
    Apart p a q b := by
  intro i hi j hj he
  have hnat := congrArg BitVec.toNat he
  rw [BitVec.toNat_add, BitVec.toNat_add, BitVec.toNat_ofNat, BitVec.toNat_ofNat,
    Nat.mod_eq_of_lt (show i < 2 ^ n by omega), Nat.mod_eq_of_lt (show j < 2 ^ n by omega),
    Nat.mod_eq_of_lt (by omega), Nat.mod_eq_of_lt (by omega)] at hnat
  omega

theorem write_apart {w b k : Nat} {m : BitVec n → BitVec 8} (h : Apart p (w / 8) q b) (x : BitVec w)
    (hk : k < b) : write m p x (q + BitVec.ofNat n k) = m (q + BitVec.ofNat n k) := by
  refine if_neg fun hlt => h _ hlt k hk ?_
  rw [BitVec.ofNat_toNat, BitVec.setWidth_eq, BitVec.add_comm, BitVec.sub_add_cancel]

end LittleEndian
