import PekOS.FindByHeader
import PekOS.Memmove

/-! `strncmp` and `memcmp` against the order of byte strings. -/

namespace PekOS

open OpTree

def bytes (m : Word → Byte) (p : Word) (n : Nat) : List Byte :=
  (List.range' 0 n).map fun i => m (p + BitVec.ofNat 32 i)

/-- A string of bytes up to its first NUL, and with it. -/
def upToNul : List Byte → List Byte
  | [] => []
  | b :: l => b :: if b = 0#8 then [] else upToNul l

/-- A byte at an offset `i` from one of the pointers is read, where `R i`. -/
def ReadsOffsets (p q : Word) (R : Nat → Prop) : Op → Prop
  | .loadByte a => ∃ i, R i ∧ (a = p + BitVec.ofNat 32 i ∨ a = q + BitVec.ofNat 32 i)
  | _ => False

theorem compare_eq_lt {a b : Byte} : compare a b = .lt ↔ a < b := compareOfLessAndEq_eq_lt

theorem compare_eq_gt {a b : Byte} : compare a b = .gt ↔ b < a := by
  show compareOfLessAndEq a b = .gt ↔ b < a
  unfold compareOfLessAndEq
  simp only [BitVec.lt_def, ← BitVec.toNat_inj]
  grind

theorem compare_sub (a b : Byte) : compare ((a.toNat : Int) - b.toNat) 0 = compare a b := by
  show compareOfLessAndEq ((a.toNat : Int) - b.toNat) 0 = compareOfLessAndEq a b
  unfold compareOfLessAndEq
  simp only [BitVec.lt_def, ← BitVec.toNat_inj]
  grind

theorem compare_cons_of_ne {a b : Byte} (h : a ≠ b) (l l' : List Byte) :
    compare (a :: l) (b :: l') = compare a b := by
  rw [List.compare_cons_cons]
  rcases hc : compare a b with _ | _ | _
  · rfl
  · exact absurd (Std.LawfulEqOrd.compare_eq_iff_eq.mp hc) h
  · rfl

theorem compare_cons_self (a : Byte) (l l' : List Byte) : compare (a :: l) (a :: l') = compare l l' := by
  rw [List.compare_cons_cons, Std.LawfulEqOrd.compare_eq_iff_eq.mpr rfl]
  rfl

theorem upToNul_eq_self {l : List Byte} (h : 0#8 ∉ l) : upToNul l = l := by
  induction l with
  | nil => rfl
  | cons b l ih =>
    obtain ⟨hb, hl⟩ := not_or.mp (mt List.mem_cons.mpr h)
    rw [upToNul, if_neg (Ne.symm hb), ih hl]

section Readers

variable {σ ε : Type} {exec : (o : Op) → σ → Except ε (o.Res × σ)} {P : Op → Prop} {s : σ}
  {a b : Nat → Code Byte} {x y : Nat → Byte} {i n : Nat}

theorem memcmp_returns (ha : ∀ j, i ≤ j → j < i + n → Prog.Returns exec P (a j) s (x j) s)
    (hb : ∀ j, i ≤ j → j < i + n → Prog.Returns exec P (b j) s (y j) s) :
    ∃ c, Prog.Returns exec P (memcmp a b i n) s c s ∧
      compare c 0 = compare ((List.range' i n).map x) ((List.range' i n).map y) := by
  induction n generalizing i with
  | zero => exact ⟨0, Prog.returns_ret 0 s, rfl⟩
  | succ n ih =>
    obtain ⟨c, hc, hcompare⟩ := ih (i := i + 1) (fun j hj hlt => ha j (by omega) (by omega))
      fun j hj hlt => hb j (by omega) (by omega)
    have hx := ha i (Nat.le_refl i) (by omega)
    have hy := hb i (Nat.le_refl i) (by omega)
    rw [List.range'_succ, List.map_cons, List.map_cons]
    by_cases hlt : x i < y i
    · refine ⟨-1, hx.bind (hy.bind ?_), ?_⟩
      · rw [if_pos hlt]
        exact Prog.returns_ret _ s
      · rw [compare_cons_of_ne (BitVec.ne_of_lt hlt), compare_eq_lt.mpr hlt]
        rfl
    · by_cases hgt : y i < x i
      · refine ⟨1, hx.bind (hy.bind ?_), ?_⟩
        · rw [if_neg hlt, if_pos hgt]
          exact Prog.returns_ret _ s
        · rw [compare_cons_of_ne (BitVec.ne_of_lt hgt).symm, compare_eq_gt.mpr hgt]
          rfl
      · have heq : x i = y i := BitVec.le_antisymm (BitVec.not_lt.mp hgt) (BitVec.not_lt.mp hlt)
        refine ⟨c, hx.bind (hy.bind ?_), by rw [heq, compare_cons_self, hcompare]⟩
        rw [if_neg hlt, if_neg hgt]
        exact hc

/-- Both strings go on after the `k`-th byte. -/
def Continues (x y : Nat → Byte) (k : Nat) : Prop := x k ≠ 0#8 ∧ y k ≠ 0#8 ∧ x k = y k

instance (x y : Nat → Byte) (k : Nat) : Decidable (Continues x y k) := inferInstanceAs (Decidable (_ ∧ _))

theorem continues_returns (hb : Prog.Returns exec P (b i) s (y i) s) {k : Bool → Code Int} {c : Int}
    (h : Prog.Returns exec P (k (decide (Continues x y i))) s c s) :
    Prog.Returns exec P (if x i = 0#8 then pure false >>= k else
      b i >>= fun c => pure (c ≠ 0#8 ∧ x i = c : Bool) >>= k) s c s := by
  by_cases hzero : x i = 0#8
  · rw [decide_eq_false fun h => h.1 hzero] at h
    rw [if_pos hzero]
    exact h
  · have hdecide : decide (Continues x y i) = decide (y i ≠ 0#8 ∧ x i = y i) :=
      decide_eq_decide.mpr (and_iff_right hzero)
    rw [hdecide] at h
    rw [if_neg hzero]
    exact hb.bind h

theorem strncmp_returns
    (ha : ∀ j, i ≤ j → j < i + n → (∀ k, i ≤ k → k < j → Continues x y k) →
      Prog.Returns exec P (a j) s (x j) s)
    (hb : ∀ j, i ≤ j → j < i + n → (∀ k, i ≤ k → k < j → Continues x y k) →
      Prog.Returns exec P (b j) s (y j) s) :
    ∃ c, Prog.Returns exec P (strncmp a b i n) s c s ∧
      compare c 0 = compare (upToNul ((List.range' i n).map x)) (upToNul ((List.range' i n).map y)) := by
  induction n generalizing i with
  | zero => exact ⟨0, Prog.returns_ret 0 s, rfl⟩
  | succ n ih =>
    have hx := ha i (Nat.le_refl i) (by omega) fun k hk hlt => absurd hlt (by omega)
    have hy := hb i (Nat.le_refl i) (by omega) fun k hk hlt => absurd hlt (by omega)
    rw [List.range'_succ, List.map_cons, List.map_cons, upToNul, upToNul]
    by_cases hgo : Continues x y i
    · obtain ⟨hne, hne', heq⟩ := id hgo
      have hstep (j : Nat) (h : ∀ k, i + 1 ≤ k → k < j → Continues x y k) (k : Nat) (hk : i ≤ k)
          (hlt : k < j) : Continues x y k := by
        rcases Nat.eq_or_lt_of_le hk with rfl | hk
        · exact ⟨hne, hne', heq⟩
        · exact h k hk hlt
      obtain ⟨c, hc, hcompare⟩ := ih (i := i + 1) (fun j hj hlt h => ha j (by omega) (by omega)
        (hstep j h)) fun j hj hlt h => hb j (by omega) (by omega) (hstep j h)
      refine ⟨c, hx.bind (continues_returns hy ?_), ?_⟩
      · rw [decide_eq_true hgo]
        exact hc
      · rw [if_neg hne, if_neg hne', heq, compare_cons_self, hcompare]
    · refine ⟨(x i).toNat - (y i).toNat, hx.bind (continues_returns hy ?_), ?_⟩
      · rw [decide_eq_false hgo]
        exact hx.bind (hy.bind (Prog.returns_ret _ s))
      · rw [compare_sub]
        by_cases heq : x i = y i
        · have hzero : x i = 0#8 := by_contra fun hne => hgo ⟨hne, heq ▸ hne, heq⟩
          rw [← heq, if_pos hzero, if_pos hzero, Std.LawfulEqOrd.compare_eq_iff_eq.mpr rfl,
            Std.LawfulEqOrd.compare_eq_iff_eq.mpr rfl]
        · rw [compare_cons_of_ne heq]

end Readers

theorem Machine.run_candidate_iff {s t : Machine} {location : Word} {r : Option Word} :
    s.run (candidate location) = .ok (r, t) ↔
      s.Agrees location rsdPtr 0 8 ∧
        s.run (doChecksumRSDP location >>= fun valid => return if valid then some location else none) =
          .ok (r, t) ∨
      s.Diverges location rsdPtr 0 8 ∧ r = none ∧ t = s := by
  have hcompares : s.Compares location rsdPtr 0 8 (strncmp (bytesAt location) (literal rsdPtr) 0 8) :=
    strncmp_compares s location (by decide)
  constructor
  · intro h
    rw [candidate, run] at h
    obtain ⟨c, u, hc, hr⟩ := Prog.of_run_bind Machine.exec h
    obtain ⟨rfl, ⟨hzero, ha⟩ | ⟨hne, hd⟩⟩ := hcompares.of_run c u hc
    · rw [if_pos hzero] at hr
      exact Or.inl ⟨ha, hr⟩
    · rw [if_neg hne] at hr
      cases hr
      exact Or.inr ⟨hd, rfl, rfl⟩
  · rintro (⟨ha, hr⟩ | ⟨hd, rfl, rfl⟩)
    · rw [candidate, run, Prog.run_bind_ok _ (hcompares.agrees ha), if_pos rfl]
      exact hr
    · obtain ⟨c, hne, hc⟩ := hcompares.diverges hd
      rw [candidate, run, Prog.run_bind_ok _ hc, if_neg hne]
      rfl

theorem bytesAt_returns (m : Word → Byte) (p : Word) {P : Op → Prop} {i : Nat}
    (h : P (.loadByte (p + BitVec.ofNat 32 i))) :
    Prog.Returns Flat.exec P (bytesAt p i) m (m (p + BitVec.ofNat 32 i)) m :=
  Prog.returns_perform (o := Op.loadByte (p + BitVec.ofNat 32 i)) rfl h

/-- `memcmp` reads the first `n` bytes only, and returns as they compare. -/
theorem memcmp_order (m : Word → Byte) (p q : Word) (n : Nat) :
    ∃ c, Prog.Returns Flat.exec (ReadsOffsets p q (· < n)) (memcmp (bytesAt p) (bytesAt q) 0 n) m c m ∧
      compare c 0 = compare (bytes m p n) (bytes m q n) :=
  memcmp_returns (fun j _ hj => bytesAt_returns m p ⟨j, by omega, Or.inl rfl⟩)
    fun j _ hj => bytesAt_returns m q ⟨j, by omega, Or.inr rfl⟩

/-- The offsets up to the first NUL or difference. -/
def Shared (m : Word → Byte) (p q : Word) (n i : Nat) : Prop :=
  i < n ∧ ∀ j < i, Continues (fun i => m (p + BitVec.ofNat 32 i)) (fun i => m (q + BitVec.ofNat 32 i)) j

theorem strncmp_order (m : Word → Byte) (p q : Word) (n : Nat) :
    ∃ c, Prog.Returns Flat.exec (ReadsOffsets p q (Shared m p q n))
    (strncmp (bytesAt p) (bytesAt q) 0 n) m c m ∧
      compare c 0 = compare (upToNul (bytes m p n)) (upToNul (bytes m q n)) :=
  strncmp_returns (fun j _ hj h => bytesAt_returns m p
    ⟨j, ⟨by omega, fun k hk => h k (Nat.zero_le k) hk⟩, Or.inl rfl⟩) fun j _ hj h =>
    bytesAt_returns m q ⟨j, ⟨by omega, fun k hk => h k (Nat.zero_le k) hk⟩, Or.inr rfl⟩

/-- The three tests of a signature agree on what the signature is. -/
structure SignatureTests (s : Machine) : Prop where
  findRSDP : ∀ location r t, s.run (candidate location) = .ok (r, t) ↔
    s.Agrees location rsdPtr 0 8 ∧
      s.run (doChecksumRSDP location >>= fun valid => return if valid then some location else none) =
        .ok (r, t) ∨
    s.Diverges location rsdPtr 0 8 ∧ r = none ∧ t = s
  findEntryInRSDT : ∀ rsdt signature i r t, (∀ k < 4, signature.getD k 0#8 ≠ 0#8) →
    (s.run (pointedEntry rsdt signature i) = .ok (r, t) ↔ t = s ∧ ∃ v,
      (∃ p, s.ReadsWord (slot rsdt 0) p ∧ s.ReadsWord (p + 4#32 * BitVec.ofNat 32 i) v) ∧
        (r = some v ∧ s.Agrees v signature 0 4 ∨ r = none ∧ s.Diverges v signature 0 4))
  findByHeader : ∀ rsdt head i r t, s.run (tableEntry rsdt head i) = .ok (r, t) ↔
    t = s ∧ ∃ v, s.ReadsWord (slot rsdt i) v ∧
      (r = some v ∧ s.Agrees v head 0 4 ∨ r = none ∧ s.Diverges v head 0 4)

theorem comparisons_order :
    (∀ (m : Word → Byte) (p q : Word) (n : Nat), ∃ c c',
      Prog.Returns Flat.exec (ReadsOffsets p q (· < n)) (memcmp (bytesAt p) (bytesAt q) 0 n) m c m ∧
      compare c 0 = compare (bytes m p n) (bytes m q n) ∧
      Prog.Returns Flat.exec (ReadsOffsets p q (Shared m p q n))
      (strncmp (bytesAt p) (bytesAt q) 0 n) m c' m ∧
      compare c' 0 = compare (upToNul (bytes m p n)) (upToNul (bytes m q n)) ∧
      (0#8 ∉ bytes m p n → 0#8 ∉ bytes m q n → compare c 0 = compare c' 0)) ∧
    ∀ s : Machine, SignatureTests s := by
  refine ⟨fun m p q n => ?_, fun s => ⟨fun _ _ _ => Machine.run_candidate_iff, fun _ _ _ _ _ hnul =>
    Machine.run_pointedEntry_iff hnul, fun _ _ _ _ _ => Machine.run_tableEntry_iff⟩⟩
  obtain ⟨c, hc, hcompare⟩ := memcmp_order m p q n
  obtain ⟨c', hc', hcompare'⟩ := strncmp_order m p q n
  refine ⟨c, c', hc, hcompare, hc', hcompare', fun hp hq => ?_⟩
  rw [hcompare, hcompare', upToNul_eq_self hp, upToNul_eq_self hq]

end PekOS
