import PekOS.TerminalRing

/-! The hardware cursor. -/

namespace PekOS.Tty

open OpTree Terminal

section Code

open Tty.Code

def getCursorPosition : Code (BitVec 16) := do
  outb 0x3D4#16 0x0F#8
  let low ← inb 0x3D5#16
  outb 0x3D4#16 0x0E#8
  let high ← inb 0x3D5#16
  return low.setWidth 16 ||| high.setWidth 16 <<< 8

def cursorNext : Code Unit := do
  let pos ← getCursorPosition
  let pos := (pos + 1#16).setWidth 32
  updateCursor (pos / vgaWidth) (pos % vgaWidth)

/-- The cursor is set to `(x, y)` and read, moved on `n` times and read again. -/
def advanceCursor (x y : Word) (n : Nat) : Code (BitVec 16 × BitVec 16) := do
  updateCursor x y
  let p ← getCursorPosition
  Prog.forUp n () fun _ _ => cursorNext
  let q ← getCursorPosition
  return (p, q)

end Code

/-! Positions. -/

/-- `cursor_next` passes the row for the column: from `80 a + b` it goes to `80 b + a`. -/
def nextPosition (p : Nat) : Nat := (p + 1) % 80 * 80 + (p + 1) / 80

theorem nextPosition_mem {p : Nat} (h : p ≤ 6399) : 1 ≤ nextPosition p ∧ nextPosition p ≤ 6399 := by
  unfold nextPosition
  omega

/-- Modulo 6399, which is 80 * 80 - 1, turning a position is multiplying it by 80. -/
theorem nextPosition_mod (p : Nat) : nextPosition p % 6399 = 80 * (p + 1) % 6399 := by
  unfold nextPosition
  omega

theorem iterate_nextPosition_mem {p : Nat} (h : p ≤ 6399) {n : Nat} (hn : 0 < n) :
    1 ≤ nextPosition^[n] p ∧ nextPosition^[n] p ≤ 6399 := by
  induction n with
  | zero => exact absurd hn (Nat.lt_irrefl 0)
  | succ n ih =>
    rw [Function.iterate_succ_apply']
    by_cases h0 : n = 0
    · subst h0
      exact nextPosition_mem h
    · exact nextPosition_mem (ih (Nat.pos_of_ne_zero h0)).2

/-- Two calls go 81 positions further. -/
theorem iterate_nextPosition_mod (p k : Nat) : nextPosition^[2 * k] p % 6399 = (p + 81 * k) % 6399 ∧
    nextPosition^[2 * k + 1] p % 6399 = (80 * (p + 1) + 81 * k) % 6399 := by
  have hodd {k : Nat} (h : nextPosition^[2 * k] p % 6399 = (p + 81 * k) % 6399) :
      nextPosition^[2 * k + 1] p % 6399 = (80 * (p + 1) + 81 * k) % 6399 := by
    rw [Function.iterate_succ_apply', nextPosition_mod]
    omega
  have heven : nextPosition^[2 * k] p % 6399 = (p + 81 * k) % 6399 := by
    induction k with
    | zero => rfl
    | succ k ih =>
      have h := hodd ih
      rw [show 2 * (k + 1) = 2 * k + 1 + 1 by omega, Function.iterate_succ_apply', nextPosition_mod]
      omega
  exact ⟨heven, hodd heven⟩

theorem iterate_nextPosition_iff {p n : Nat} (h : p + n < 2000) :
    nextPosition^[n] p = p + n ↔ 162 ∣ n ∨ n % 2 = 1 ∧ 81 ∣ 2 * p + n + 1 := by
  by_cases h0 : n = 0
  · subst h0
    exact iff_of_true rfl (Or.inl (Nat.dvd_zero 162))
  · obtain ⟨hlo, hhi⟩ := iterate_nextPosition_mem (p := p) (by omega) (Nat.pos_of_ne_zero h0)
    obtain ⟨heven, hodd⟩ := iterate_nextPosition_mod p (n / 2)
    rcases Nat.mod_two_eq_zero_or_one n with h2 | h2
    · rw [show 2 * (n / 2) = n by omega] at heven
      omega
    · rw [show 2 * (n / 2) + 1 = n by omega] at hodd
      omega

/-! Runs. -/

section Run

variable {s : Terminal}

theorem append_eq_or (high low : Byte) : low.setWidth 16 ||| high.setWidth 16 <<< 8 = high ++ low := by
  apply BitVec.eq_of_getLsbD_eq
  intro i hi
  simp only [BitVec.getLsbD_or, BitVec.getLsbD_shiftLeft, BitVec.getLsbD_setWidth, BitVec.getLsbD_append]
  grind

theorem run_getCursorPosition (s : Terminal) :
    Prog.run exec getCursorPosition s = .ok (s.cursor, s.withCrt 0x0E#8 s.crt) := by
  have hrun : Prog.run exec getCursorPosition s =
      .ok ((s.crt 0x0F#8).setWidth 16 ||| (s.crt 0x0E#8).setWidth 16 <<< 8, s.withCrt 0x0E#8 s.crt) := rfl
  rw [hrun, append_eq_or, cursor]

theorem cursor_withCrt (s : Terminal) (i : Byte) (pos : BitVec 16) :
    (s.withCrt i (cursorAt pos s.crt)).cursor = pos := by
  apply BitVec.eq_of_getLsbD_eq
  intro k hk
  simp only [cursor, withCrt, cursorAt, if_true, show ¬ (0x0F#8 = 0x0E#8) by decide, if_false,
    BitVec.getLsbD_append, BitVec.getLsbD_setWidth, BitVec.getLsbD_ushiftRight]
  grind

theorem run_cursorNext {p : Nat} (hp : p ≤ 6399) (hs : s.cursor.toNat = p) :
    Prog.run exec cursorNext s =
      .ok ((), s.withCrt 0x0E#8 (cursorAt (BitVec.ofNat 16 (nextPosition p)) s.crt)) := by
  rw [cursorNext, Prog.run_bind_ok _ (run_getCursorPosition s), run_updateCursor]
  have hnext : ((s.cursor + 1#16).setWidth 32 : Word).toNat = p + 1 := by
    rw [BitVec.toNat_setWidth, BitVec.toNat_add, hs, BitVec.toNat_ofNat]
    omega
  have hpos : (((s.cursor + 1#16).setWidth 32 % vgaWidth * vgaWidth +
      (s.cursor + 1#16).setWidth 32 / vgaWidth).setWidth 16 :
      BitVec 16) = BitVec.ofNat 16 (nextPosition p) := by
    apply BitVec.eq_of_toNat_eq
    rw [BitVec.toNat_setWidth, BitVec.toNat_add, BitVec.toNat_mul, BitVec.toNat_umod,
      BitVec.toNat_udiv, hnext, BitVec.toNat_ofNat, show vgaWidth.toNat = 80 from rfl, nextPosition]
    omega
  rw [hpos]
  rfl

/-- Nothing but the index and the cursor registers differs. -/
def SameRegisters (s t : Terminal) : Prop := ∀ k, k ≠ 0x0E#8 → k ≠ 0x0F#8 → t.crt k = s.crt k

theorem sameRegisters_withCrt (s : Terminal) (i : Byte) (pos : BitVec 16) :
    SameRegisters s (s.withCrt i (cursorAt pos s.crt)) := fun k h h' => by
  show cursorAt pos s.crt k = s.crt k
  rw [cursorAt, if_neg h, if_neg h']

theorem run_cursorNexts {p : Nat} (hp : p ≤ 6399) (hs : s.cursor.toNat = p) (n : Nat) :
    ∃ t, Prog.run exec (Prog.forUp n () fun _ _ => cursorNext) s = .ok ((), t) ∧
      t.cursor.toNat = nextPosition^[n] p ∧ SameRegisters s t := by
  obtain ⟨_, t, hr, ht⟩ := Prog.run_forUp exec (fun _ _ => cursorNext) (n := n) (b := ()) (s := s)
    (fun j _ t => t.cursor.toNat = nextPosition^[j] p ∧ SameRegisters s t) ⟨hs, fun _ _ _ => rfl⟩
    fun j _ t _ ht => by
      have hle : nextPosition^[j] p ≤ 6399 := by
        by_cases h0 : j = 0
        · rw [h0]
          exact hp
        · exact (iterate_nextPosition_mem hp (Nat.pos_of_ne_zero h0)).2
      have hnext := (nextPosition_mem hle).2
      refine ⟨(), _, run_cursorNext hle ht.1, ?_, fun k h h' => ?_⟩
      · rw [cursor_withCrt, BitVec.toNat_ofNat, Function.iterate_succ_apply']
        omega
      · exact (sameRegisters_withCrt t _ _ k h h').trans (ht.2 k h h')
  exact ⟨t, hr, ht⟩

end Run

/-- `update_cursor(x, y)` sets position `p`, `n` calls of `cursor_next` take it to `p + n`,
and no other register is written. -/
def CursorAdvances (s : Terminal) (x y : Word) (p n : Nat) : Prop :=
  ∃ t, Prog.run exec (advanceCursor x y n) s = .ok ((BitVec.ofNat 16 p, BitVec.ofNat 16 (p + n)), t) ∧
    SameRegisters s t

theorem run_advanceCursor (s : Terminal) {x y : Word} {p : Nat} (hp : p < 2000)
    (hxy : y.toInt * 80 + x.toInt = p) (n : Nat) : ∃ t, Prog.run exec (advanceCursor x y n) s =
      .ok ((BitVec.ofNat 16 p, BitVec.ofNat 16 (nextPosition^[n] p)), t) ∧ SameRegisters s t := by
  have hpos : (y * vgaWidth + x).setWidth 16 = BitVec.ofNat 16 p := by
    have hint (z : Word) : ∃ k : Int, z.toInt = z.toNat + 4294967296 * k := by
      rw [BitVec.toInt_eq_toNat_cond]
      split
      · exact ⟨0, by omega⟩
      · exact ⟨-1, by omega⟩
    obtain ⟨k, hx⟩ := hint x
    obtain ⟨l, hy⟩ := hint y
    apply BitVec.eq_of_toNat_eq
    rw [BitVec.toNat_setWidth, BitVec.toNat_add, BitVec.toNat_mul, BitVec.toNat_ofNat,
      show vgaWidth.toNat = 80 from rfl]
    omega
  have hcursor := cursor_withCrt s 0x0E#8 (BitVec.ofNat 16 p)
  have hget := run_getCursorPosition (s.withCrt 0x0E#8 (cursorAt (BitVec.ofNat 16 p) s.crt))
  obtain ⟨t, hr, ht, hsame⟩ := run_cursorNexts
    (s := s.withCrt 0x0E#8 (cursorAt (BitVec.ofNat 16 p) s.crt)) (p := p) (by omega)
    (by rw [hcursor, BitVec.toNat_ofNat]; omega) n
  have hq : t.cursor = BitVec.ofNat 16 (nextPosition^[n] p) := by
    apply BitVec.eq_of_toNat_eq
    have hlt := t.cursor.isLt
    rw [BitVec.toNat_ofNat, ← ht, Nat.mod_eq_of_lt hlt]
  refine ⟨t.withCrt 0x0E#8 t.crt, ?_, fun k h h' => (hsame k h h').trans
    (sameRegisters_withCrt s _ _ k h h')⟩
  rw [advanceCursor, Prog.run_bind_ok _ (run_updateCursor x y s), hpos, Prog.run_bind_ok _ hget, hcursor]
  refine (Prog.run_bind_ok _ hr).trans ((Prog.run_bind_ok _ (run_getCursorPosition t)).trans ?_)
  rw [hq]
  rfl

/-- Positions advance as meant only where the calls cancel out, or where there is none. -/
theorem cursorAdvances_iff (s : Terminal) {x y : Word} {p n : Nat} (hxy : y.toInt * 80 + x.toInt = p)
    (hn : p + n < 2000) : CursorAdvances s x y p n ↔ 162 ∣ n ∨ n % 2 = 1 ∧ 81 ∣ 2 * p + n + 1 := by
  obtain ⟨t, hr, hsame⟩ := run_advanceCursor s (by omega) hxy n
  have hle : nextPosition^[n] p ≤ 6399 := by
    by_cases h0 : n = 0
    · rw [h0]
      show p ≤ 6399
      omega
    · exact (iterate_nextPosition_mem (by omega) (Nat.pos_of_ne_zero h0)).2
  rw [← iterate_nextPosition_iff hn]
  constructor
  · rintro ⟨u, hu, -⟩
    have hsame := hr.symm.trans hu
    simp only [Except.ok.injEq, Prod.mk.injEq, true_and] at hsame
    have hnat := congrArg BitVec.toNat hsame.1
    rw [BitVec.toNat_ofNat, BitVec.toNat_ofNat] at hnat
    omega
  · intro h
    exact ⟨t, h ▸ hr, hsame⟩

def parkedCursor : Terminal where
  row := 0#32
  column := 0#32
  color := 7#8
  buffer := fun _ => 0x0720#16
  crtIndex := 0#8
  crt := fun _ => 0#8

theorem cursorAdvances_iff_diagonal : CursorAdvances parkedCursor 0#32 1#32 80 1 ↔
    162 ∣ 1 ∨ 1 % 2 = 1 ∧ 81 ∣ 2 * 80 + 1 + 1 :=
  cursorAdvances_iff parkedCursor (by decide) (by decide)

/-- From the first position `cursor_next` goes to the start of the second row. -/
theorem cursor_next_turns : ¬ CursorAdvances parkedCursor 0#32 0#32 0 1 := by
  rintro ⟨t, h, -⟩
  obtain ⟨u, hu, -⟩ :=
    run_advanceCursor parkedCursor (x := 0#32) (y := 0#32) (p := 0) (by decide) (by decide) 1
  have hsame := hu.symm.trans h
  simp only [Except.ok.injEq, Prod.mk.injEq, true_and] at hsame
  exact absurd hsame.1 (by decide)

end PekOS.Tty
