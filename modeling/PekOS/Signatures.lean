import PekOS.Rsdt
import PekOS.Bytes
import PekOS.Library.Loops

/-! Comparing the signature of a table, with `memcmp` as `find_by_header` does or
with `strncmp` as `find_entry_in_RSDT` does. -/

namespace PekOS

open OpTree

namespace Machine

variable {s t : Machine} {v : Word} {head : List Byte} {i n : Nat}

/-- The kernel reads `b` at `a`, without a page fault. -/
def ReadsByte (s : Machine) (a : Word) (b : Byte) : Prop := s.byteAt a = .ok b

def loadAt (s : Machine) (a : Word) : Except Stop Word :=
  if aligned 4 a then (s.access a false).map fun m => s.mem m.frame (wordOf a) else s.wordAt a

def ReadsWord (s : Machine) (a w : Word) : Prop := s.loadAt a = .ok w

theorem ReadsByte.unique {a : Word} {b c : Byte} (h : s.ReadsByte a b) (h' : s.ReadsByte a c) : b = c :=
  Except.ok.inj (h.symm.trans h')

theorem run_loadByte_iff {a : Word} {b : Byte} :
    s.run (Code.loadByte a) = .ok (b, t) ↔ t = s ∧ s.ReadsByte a b := by
  rw [Code.loadByte, run, Prog.run_perform, exec, ReadsByte]
  cases s.byteAt a with
  | error e => simp [Except.map]
  | ok c => simp [Except.map, and_comm, eq_comm]

theorem run_load_iff {a w : Word} : s.run (Code.load a) = .ok (w, t) ↔ t = s ∧ s.ReadsWord a w := by
  have hexec : s.run (Code.load a) = (s.loadAt a).map fun w => (w, s) := by
    rw [Code.load, run, Prog.run_perform, exec, loadAt]
    split
    · cases s.access a false <;> rfl
    · rfl
  rw [hexec, ReadsWord]
  cases s.loadAt a with
  | error e => simp [Except.map]
  | ok v => simp [Except.map, and_comm, eq_comm]

/-- The bytes at `v`, from the `i`-th to the one before the `n`-th after it, are those of `head`. -/
def Agrees (s : Machine) (v : Word) (head : List Byte) (i n : Nat) : Prop :=
  ∀ k, i ≤ k → k < i + n → s.ReadsByte (v + BitVec.ofNat 32 k) (head.getD k 0#8)

/-- They are up to one, which is another. -/
def Diverges (s : Machine) (v : Word) (head : List Byte) (i n : Nat) : Prop :=
  ∃ k, i ≤ k ∧ k < i + n ∧ (∀ j, i ≤ j → j < k → s.ReadsByte (v + BitVec.ofNat 32 j) (head.getD j 0#8)) ∧
    ∃ b, s.ReadsByte (v + BitVec.ofNat 32 k) b ∧ b ≠ head.getD k 0#8

theorem agrees_zero : s.Agrees v head i 0 := fun k hk hk' => by omega

theorem not_diverges_zero : ¬ s.Diverges v head i 0 := by
  rintro ⟨k, hk, hk', -⟩
  omega

theorem agrees_succ : s.Agrees v head i (n + 1) ↔
    s.ReadsByte (v + BitVec.ofNat 32 i) (head.getD i 0#8) ∧ s.Agrees v head (i + 1) n := by
  constructor
  · intro h
    exact ⟨h i (Nat.le_refl i) (by omega), fun k hk hk' => h k (by omega) (by omega)⟩
  · intro h k hk hk'
    rcases Nat.eq_or_lt_of_le hk with rfl | hlt
    · exact h.1
    · exact h.2 k hlt (by omega)

theorem diverges_succ : s.Diverges v head i (n + 1) ↔
    (∃ b, s.ReadsByte (v + BitVec.ofNat 32 i) b ∧ b ≠ head.getD i 0#8) ∨
      s.ReadsByte (v + BitVec.ofNat 32 i) (head.getD i 0#8) ∧ s.Diverges v head (i + 1) n := by
  constructor
  · rintro ⟨k, hk, hk', hbefore, hlast⟩
    rcases Nat.eq_or_lt_of_le hk with rfl | hlt
    · exact Or.inl hlast
    · exact Or.inr ⟨hbefore i (Nat.le_refl i) hlt, k, hlt, by omega,
        fun j hj hj' => hbefore j (by omega) hj', hlast⟩
  · rintro (hlast | ⟨hfirst, k, hk, hk', hbefore, hlast⟩)
    · exact ⟨i, Nat.le_refl i, by omega, fun j hj hj' => by omega, hlast⟩
    · refine ⟨k, by omega, by omega, fun j hj hj' => ?_, hlast⟩
      rcases Nat.eq_or_lt_of_le hj with rfl | hlt
      · exact hfirst
      · exact hbefore j hlt hj'

theorem Agrees.not_diverges (h : s.Agrees v head i n) : ¬ s.Diverges v head i n := by
  rintro ⟨k, hk, hk', -, b, hb, hne⟩
  exact hne (hb.unique (h k hk hk'))

/-- `p` compares the `n` bytes at `v` from the `i`-th on with those of `head`. -/
structure Compares (s : Machine) (v : Word) (head : List Byte) (i n : Nat) (p : Code Int) : Prop where
  of_run : ∀ c t, s.run p = .ok (c, t) → t = s ∧
    (c = 0 ∧ s.Agrees v head i n ∨ c ≠ 0 ∧ s.Diverges v head i n)
  agrees : s.Agrees v head i n → s.run p = .ok (0, s)
  diverges : s.Diverges v head i n → ∃ c ≠ 0, s.run p = .ok (c, s)

/-- A comparison that goes on at an equal byte, and not at another. -/
theorem compares_of_steps {p : Nat → Nat → Code Int} {m : Nat} (hzero : ∀ i, s.run (p i 0) = .ok (0, s))
    (hsame : ∀ i n, i < m → s.ReadsByte (v + BitVec.ofNat 32 i) (head.getD i 0#8) →
      s.run (p i (n + 1)) = s.run (p (i + 1) n))
    (hother : ∀ i n b, i < m → s.ReadsByte (v + BitVec.ofNat 32 i) b → b ≠ head.getD i 0#8 →
      ∃ c ≠ 0, s.run (p i (n + 1)) = .ok (c, s))
    (hread : ∀ i n c t, s.run (p i (n + 1)) = .ok (c, t) → ∃ b, s.ReadsByte (v + BitVec.ofNat 32 i) b)
    (hle : i + n ≤ m) : s.Compares v head i n (p i n) := by
  induction n generalizing i with
  | zero =>
    refine ⟨fun c t h => ?_, fun _ => hzero i, fun h => absurd h not_diverges_zero⟩
    have heq := h.symm.trans (hzero i)
    simp only [Except.ok.injEq, Prod.mk.injEq] at heq
    exact ⟨heq.2, Or.inl ⟨heq.1, agrees_zero⟩⟩
  | succ n ih =>
    have hi : i < m := by omega
    have hrest := ih (i := i + 1) (by omega)
    refine ⟨fun c t h => ?_, fun h => ?_, fun h => ?_⟩
    · obtain ⟨b, hb⟩ := hread i n c t h
      rw [agrees_succ, diverges_succ]
      by_cases hne : b = head.getD i 0#8
      · subst hne
        rw [hsame i n hi hb] at h
        obtain ⟨ht, hc⟩ := hrest.of_run c t h
        exact ⟨ht, hc.imp (fun hc => ⟨hc.1, hb, hc.2⟩) fun hc => ⟨hc.1, Or.inr ⟨hb, hc.2⟩⟩⟩
      · obtain ⟨c', hc', hr⟩ := hother i n b hi hb hne
        have heq := h.symm.trans hr
        simp only [Except.ok.injEq, Prod.mk.injEq] at heq
        obtain ⟨rfl, rfl⟩ := heq
        exact ⟨rfl, Or.inr ⟨hc', Or.inl ⟨b, hb, hne⟩⟩⟩
    · obtain ⟨hb, hagrees⟩ := agrees_succ.mp h
      rw [hsame i n hi hb]
      exact hrest.agrees hagrees
    · rcases diverges_succ.mp h with ⟨b, hb, hne⟩ | ⟨hb, hdiverges⟩
      · exact hother i n b hi hb hne
      · rw [hsame i n hi hb]
        exact hrest.diverges hdiverges

theorem run_bytesAt {b : Byte} (h : s.ReadsByte (v + BitVec.ofNat 32 i) b) :
    Prog.run Machine.exec (bytesAt v i) s = .ok (b, s) := run_loadByte_iff.mpr ⟨rfl, h⟩

theorem memcmp_compares (s : Machine) (v : Word) (head : List Byte) (i n : Nat) :
    s.Compares v head i n (memcmp (bytesAt v) (literal head) i n) := by
  -- what is left once the `i`-th byte has been read
  have hrun (i n : Nat) {b : Byte} (hb : s.ReadsByte (v + BitVec.ofNat 32 i) b) :
      s.run (memcmp (bytesAt v) (literal head) i (n + 1)) =
        if b < head.getD i 0#8 then .ok (-1, s) else if head.getD i 0#8 < b then .ok (1, s)
          else s.run (memcmp (bytesAt v) (literal head) (i + 1) n) := by
    rw [memcmp, run, Prog.run_bind_ok _ (run_bytesAt hb)]
    show Prog.run Machine.exec
      (if b < head.getD i 0#8 then return -1 else if head.getD i 0#8 < b then return 1
      else memcmp (bytesAt v) (literal head) (i + 1) n) s = _
    split
    · rfl
    · split <;> rfl
  refine compares_of_steps (m := i + n) (fun _ => rfl) (fun i n _ hb => ?_) (fun i n b _ hb hne => ?_)
    (fun i n c t h => ?_) (Nat.le_refl _)
  · rw [hrun i n hb, if_neg (BitVec.lt_irrefl _), if_neg (BitVec.lt_irrefl _)]
  · rw [hrun i n hb]
    by_cases hlt : b < head.getD i 0#8
    · exact ⟨-1, by decide, if_pos hlt⟩
    · have hgt : head.getD i 0#8 < b := by
        have hne' : b.toNat ≠ (head.getD i 0#8).toNat := fun h => hne (BitVec.eq_of_toNat_eq h)
        rw [BitVec.lt_def] at hlt ⊢
        exact Nat.lt_of_le_of_ne (Nat.le_of_not_lt hlt) hne'.symm
      exact ⟨1, by decide, by rw [if_neg hlt, if_pos hgt]⟩
  · rw [memcmp] at h
    obtain ⟨b, u, hb, -⟩ := Prog.of_run_bind Machine.exec h
    exact ⟨b, (run_loadByte_iff.mp hb).2⟩

/-- `strncmp` does the same as long as it meets no NUL in the literal. -/
theorem strncmp_compares (s : Machine) (v : Word) {head : List Byte} {i n : Nat}
    (hnul : ∀ k < i + n, head.getD k 0#8 ≠ 0#8) :
    s.Compares v head i n (strncmp (bytesAt v) (literal head) i n) := by
  have hrun (i n : Nat) (hi : head.getD i 0#8 ≠ 0#8) {b : Byte}
      (hb : s.ReadsByte (v + BitVec.ofNat 32 i) b) :
      s.run (strncmp (bytesAt v) (literal head) i (n + 1)) =
        if b = head.getD i 0#8 then s.run (strncmp (bytesAt v) (literal head) (i + 1) n)
          else .ok ((b.toNat : Int) - (head.getD i 0#8).toNat, s) := by
    have hend : s.run (bytesAt v i >>= fun a => literal head i >>= fun b =>
        (return (a.toNat : Int) - b.toNat : Code Int)) =
          .ok ((b.toNat : Int) - (head.getD i 0#8).toNat, s) := by
      rw [run, Prog.run_bind_ok _ (run_bytesAt hb)]
      rfl
    have hgo (same : Bool) : s.run (if same = true then strncmp (bytesAt v) (literal head) (i + 1) n else
        bytesAt v i >>= fun a => literal head i >>= fun b =>
        (return (a.toNat : Int) - b.toNat : Code Int)) =
        if same = true then s.run (strncmp (bytesAt v) (literal head) (i + 1) n)
          else .ok ((b.toNat : Int) - (head.getD i 0#8).toNat, s) := by
      cases same with
      | true => rfl
      | false => exact hend
    rw [strncmp, run, Prog.run_bind_ok _ (run_bytesAt hb)]
    by_cases hzero : b = 0#8
    · have hne : b ≠ head.getD i 0#8 := fun h => hi (h ▸ hzero)
      rw [if_pos hzero, if_neg hne]
      exact hgo false
    · rw [if_neg hzero]
      refine (hgo (decide (head.getD i 0#8 ≠ 0#8 ∧ b = head.getD i 0#8))).trans ?_
      simp only [hi, ne_eq, not_false_eq_true, true_and, decide_eq_true_eq]
  refine compares_of_steps (m := i + n) (fun _ => rfl) (fun i n hi hb => ?_) (fun i n b hi hb hne => ?_)
    (fun i n c t h => ?_) (Nat.le_refl _)
  · rw [hrun i n (hnul i hi) hb, if_pos rfl]
  · refine ⟨_, fun he => hne (BitVec.eq_of_toNat_eq ?_), by rw [hrun i n (hnul i hi) hb, if_neg hne]⟩
    omega
  · rw [strncmp] at h
    obtain ⟨b, u, hb, -⟩ := Prog.of_run_bind Machine.exec h
    exact ⟨b, (run_loadByte_iff.mp hb).2⟩

theorem agrees_iff {p : Word}
    (h : ∀ k < n, s.translate (v + BitVec.ofNat 32 k) = some (p + BitVec.ofNat 32 k)) :
    s.Agrees v head 0 n ↔ ∀ k < n, s.byte (p + BitVec.ofNat 32 k) = head.getD k 0#8 := by
  constructor
  · intro ha k hk
    exact ReadsByte.unique (byteAt_eq (h k hk)) (ha k (Nat.zero_le k) (by omega))
  · intro hs k _ hk
    rw [← hs k (by omega)]
    exact byteAt_eq (h k (by omega))

theorem diverges_iff {p : Word}
    (h : ∀ k < n, s.translate (v + BitVec.ofNat 32 k) = some (p + BitVec.ofNat 32 k)) :
    s.Diverges v head 0 n ↔ ¬ ∀ k < n, s.byte (p + BitVec.ofNat 32 k) = head.getD k 0#8 := by
  constructor
  · intro hd hs
    exact ((agrees_iff h).mpr hs).not_diverges hd
  · intro hs
    -- the first byte that is another
    have hother : ∃ k, k < n ∧ s.byte (p + BitVec.ofNat 32 k) ≠ head.getD k 0#8 := by
      by_contra hnone
      exact hs fun k hk => by_contra fun hne => hnone ⟨k, hk, hne⟩
    obtain ⟨hlt, hne⟩ := Nat.find_spec hother
    refine ⟨Nat.find hother, Nat.zero_le _, by omega, fun j _ hj => ?_, _, byteAt_eq (h _ hlt), hne⟩
    have hsame : s.byte (p + BitVec.ofNat 32 j) = head.getD j 0#8 :=
      by_contra fun hne => Nat.find_min hother hj ⟨by omega, hne⟩
    rw [← hsame]
    exact byteAt_eq (h j (by omega))

/-- The first of `n` pointers that leads to the signature is `r`, or none does and `r` is `NULL`. -/
def LeadsTo (s : Machine) (head : List Byte) (pointer : Nat → Word → Prop) (n : Nat) (r : Word) : Prop :=
  (r = 0#32 ∧ ∀ i < n, ∃ v, pointer i v ∧ s.Diverges v head 0 4) ∨
    ∃ i < n, pointer i r ∧ s.Agrees r head 0 4 ∧ ∀ j < i, ∃ v, pointer j v ∧ s.Diverges v head 0 4

/-- A loop that looks at one pointer after the other. -/
theorem run_lookup_iff {pointer : Nat → Word → Prop} {body : Nat → Code (Option Word)} {r : Word}
    (hbody : ∀ i r t, s.run (body i) = .ok (r, t) ↔ t = s ∧ ∃ v, pointer i v ∧
      (r = some v ∧ s.Agrees v head 0 4 ∨ r = none ∧ s.Diverges v head 0 4)) :
    s.run (Prog.search body 0 n >>= fun found => (return found.getD 0#32 : Code Word)) = .ok (r, t) ↔
      t = s ∧ s.LeadsTo head pointer n r := by
  have hconst (i : Nat) (r : Option Word) (t : Machine) (h : s.run (body i) = .ok (r, t)) : t = s :=
    ((hbody i r t).mp h).1
  have hnone (i : Nat) : s.run (body i) = .ok (none, s) ↔ ∃ v, pointer i v ∧ s.Diverges v head 0 4 := by
    simp [hbody]
  have hsome (i : Nat) (v : Word) : s.run (body i) = .ok (some v, s) ↔
      pointer i v ∧ s.Agrees v head 0 4 := by
    simp [hbody]
  rw [run, Prog.run_bind_ok_iff]
  constructor
  · intro h
    obtain ⟨found, u, hsearch, hr⟩ := h
    cases hr
    cases found with
    | none =>
      obtain ⟨ht, hall⟩ := (Prog.run_search_none_const Machine.exec hconst).mp hsearch
      exact ⟨ht, Or.inl ⟨rfl, fun i hi => (hnone i).mp (hall i hi)⟩⟩
    | some v =>
      obtain ⟨ht, i, hi, hfound, hbefore⟩ := (Prog.run_search_some_const Machine.exec hconst).mp hsearch
      obtain ⟨hp, ha⟩ := (hsome i v).mp hfound
      exact ⟨ht, Or.inr ⟨i, hi, hp, ha, fun j hj => (hnone j).mp (hbefore j hj)⟩⟩
  · rintro ⟨rfl, ⟨rfl, hall⟩ | ⟨i, hi, hp, ha, hbefore⟩⟩
    · exact ⟨none, t, (Prog.run_search_none_const Machine.exec hconst).mpr ⟨rfl,
        fun i hi => (hnone i).mpr (hall i hi)⟩, rfl⟩
    · exact ⟨some r, t, (Prog.run_search_some_const Machine.exec hconst).mpr
        ⟨rfl, i, hi, (hsome i r).mpr ⟨hp, ha⟩, fun j hj => (hnone j).mpr (hbefore j hj)⟩, rfl⟩

/-- An iteration that has the pointer it looks at. -/
theorem Compares.run_iff {cmp : Code Int} (h : s.Compares v head 0 4 cmp) {r : Option Word} :
    s.run (cmp >>= fun c => (return if c = 0 then some v else none : Code (Option Word))) = .ok (r, t) ↔
      t = s ∧ (r = some v ∧ s.Agrees v head 0 4 ∨ r = none ∧ s.Diverges v head 0 4) := by
  rw [run, Prog.run_bind_ok_iff]
  constructor
  · rintro ⟨c, u, hc, hr⟩
    cases hr
    obtain ⟨ht, ⟨hzero, ha⟩ | ⟨hne, hd⟩⟩ := h.of_run c _ hc
    · exact ⟨ht, Or.inl ⟨if_pos hzero, ha⟩⟩
    · exact ⟨ht, Or.inr ⟨if_neg hne, hd⟩⟩
  · rintro ⟨rfl, ⟨rfl, ha⟩ | ⟨rfl, hd⟩⟩
    · exact ⟨0, t, h.agrees ha, rfl⟩
    · obtain ⟨c, hne, hc⟩ := h.diverges hd
      exact ⟨c, t, hc, by rw [if_neg hne]; rfl⟩

end Machine

end PekOS
