import PekOS.TerminalRows
import Mathlib.Order.Monotone.Basic

/-! Scrolling: the rows are copied upwards in place, cell by cell. -/

namespace PekOS.Tty

open OpTree Terminal

/-- No cell is read once it has been overwritten. -/
def Ahead (x y : Op × Terminal) : Prop := ∀ i c, x.1 = .store i c → y.1 ≠ .load i

/-- A copy that is at cell `lo` and has come to cell `hi`: it writes cells between them,
and reads ahead. -/
def Op.InSweep (lo hi : Nat) : Op → Prop
  | .store i _ => lo ≤ i.toNat ∧ i.toNat < hi
  | .load i => lo ≤ i.toNat ∧ i.toNat < 2000
  | _ => True

def Sweeps (lo hi : Nat) {α : Type} (p : Code α) : Prop :=
  ∀ s, (Prog.trace exec p s).Pairwise Ahead ∧ Prog.Performs exec (Op.InSweep lo hi) p s

section Sweep

variable {lo hi mid : Nat} {α β : Type}

theorem Op.InSweep.mono {lo' hi' : Nat} (hlo : lo' ≤ lo) (hhi : hi ≤ hi') {o : Op} (h : o.InSweep lo hi) :
    o.InSweep lo' hi' := by
  cases o with
  | store i c => exact ⟨Nat.le_trans hlo h.1, Nat.lt_of_lt_of_le h.2 hhi⟩
  | load i => exact ⟨Nat.le_trans hlo h.1, h.2⟩
  | _ => trivial

theorem sweeps_ret (a : α) : Sweeps lo lo (return a : Code α) :=
  fun s => ⟨List.Pairwise.nil, Prog.performs_ret exec _ a s⟩

theorem Sweeps.bind {p : Code α} {f : α → Code β} (hlo : lo ≤ mid) (hhi : mid ≤ hi) (hp : Sweeps lo mid p)
    (hf : ∀ a, Sweeps mid hi (f a)) : Sweeps lo hi (p >>= f) := by
  intro s
  obtain ⟨hpair, hperf⟩ := hp s
  constructor
  · rw [Prog.trace_bind, List.pairwise_append]
    refine ⟨hpair, ?_, fun x hx y hy i c hstore hload => ?_⟩
    · split
      · exact (hf _ _).1
      · exact List.Pairwise.nil
    · -- what `p` writes lies before what the rest reads
      split at hy
      · next a t _ =>
        have hx' := hperf x hx
        have hy' := (hf a t).2 y hy
        rw [hstore] at hx'
        rw [hload] at hy'
        exact absurd hx'.2 (Nat.not_lt.mpr hy'.1)
      · exact absurd hy List.not_mem_nil
  · refine (Prog.performs_bind_iff _ _).mpr ⟨fun x hx => (hperf x hx).mono (Nat.le_refl lo) hhi,
      fun a t _ x hx => ?_⟩
    exact ((hf a t).2 x hx).mono hlo (Nat.le_refl hi)

theorem Sweeps.iterate {body : Nat → β → Code β} {c : Nat → Nat} (hc : Monotone c) {i n : Nat}
    (h : ∀ j b, i ≤ j → j < i + n → Sweeps (c j) (c (j + 1)) (body j b)) (b : β) :
    Sweeps (c i) (c (i + n)) (Prog.iterate body i n b) := by
  induction n generalizing i b with
  | zero => exact sweeps_ret b
  | succ n ih =>
    refine (h i b (Nat.le_refl i) (by omega)).bind (hc (by omega)) (hc (by omega)) fun b' => ?_
    rw [show i + (n + 1) = i + 1 + n by omega]
    exact ih (fun j b hj hlt => h j b (by omega) (by omega)) b'

end Sweep

section Down

variable {d : Word} {i j : Nat}

def copyCell (d : Word) (i j : Nat) : Code Unit := do
  let c ← Code.load ((BitVec.ofNat 32 i + d) * vgaWidth + BitVec.ofNat 32 j)
  Code.store (BitVec.ofNat 32 i * vgaWidth + BitVec.ofNat 32 j) c

theorem terminalScrollDown_eq : terminalScrollDown d =
    Prog.forUp (vgaHeight - d).toNat () fun i _ => Prog.forUp 80 () fun j _ => copyCell d i j := rfl

theorem cell_toNat (hi : i < 25) (hj : j < 80) :
    (BitVec.ofNat 32 i * vgaWidth + BitVec.ofNat 32 j).toNat = 80 * i + j := by
  simp only [vgaWidth, BitVec.toNat_add, BitVec.toNat_mul, BitVec.toNat_ofNat]
  omega

theorem source_toNat (hi : i + d.toNat < 25) (hj : j < 80) :
    ((BitVec.ofNat 32 i + d) * vgaWidth + BitVec.ofNat 32 j).toNat = 80 * i + j + 80 * d.toNat := by
  simp only [vgaWidth, BitVec.toNat_add, BitVec.toNat_mul, BitVec.toNat_ofNat]
  omega

/-- A cell is copied from ahead, or onto itself. -/
theorem sweeps_copyCell (hi : i + d.toNat < 25) (hj : j < 80) :
    Sweeps (80 * i + j) (80 * i + j + 1) (copyCell d i j) := by
  have hcell := cell_toNat (show i < 25 by omega) hj
  have hsource := source_toNat hi hj
  intro s
  have htrace : Prog.trace exec (copyCell d i j) s =
      [(.load ((BitVec.ofNat 32 i + d) * vgaWidth + BitVec.ofNat 32 j), s),
        (.store (BitVec.ofNat 32 i * vgaWidth + BitVec.ofNat 32 j)
          (s.buffer ((BitVec.ofNat 32 i + d) * vgaWidth + BitVec.ofNat 32 j)), s)] := rfl
  rw [Prog.Performs, htrace]
  constructor
  · exact List.pairwise_pair.mpr fun k c h => Op.noConfusion h
  · intro x hx
    simp only [List.mem_cons, List.not_mem_nil, or_false] at hx
    rcases hx with rfl | rfl
    · exact ⟨by omega, by omega⟩
    · exact ⟨by omega, by omega⟩

theorem sweeps_terminalScrollDown (hd : d.toNat ≤ 25) : Sweeps 0 2000 (terminalScrollDown d) := by
  have hrows := rows_toNat hd
  have hrow (i : Nat) (b : Unit) (hi : i < (vgaHeight - d).toNat) :
      Sweeps (80 * i) (80 * (i + 1)) (Prog.forUp 80 b fun j _ => copyCell d i j) := by
    have h := Sweeps.iterate (c := fun j => 80 * i + j) (fun _ _ hle => Nat.add_le_add_left hle _)
      (fun j _ _ hj => sweeps_copyCell (d := d) (i := i) (j := j) (by omega) (by omega)) b (i := 0)
      (n := 80)
    exact h
  have h := Sweeps.iterate (c := fun i => 80 * i) (fun _ _ hle => Nat.mul_le_mul_left 80 hle)
    (fun i b _ hi => hrow i b (by omega)) () (i := 0) (n := (vgaHeight - d).toNat)
  exact fun s => ⟨(h s).1, fun x hx => ((h s).2 x hx).mono (Nat.zero_le _) (by omega)⟩

/-- The screen after `n` cells have been copied. -/
def copied (d : Word) (s : Terminal) (n : Nat) : Terminal :=
  { s with buffer := fun k => if k.toNat < n then s.buffer (k + 80#32 * d) else s.buffer k }

theorem copied_buffer (s : Terminal) (n : Nat) (k : Word) :
    (copied d s n).buffer k = if k.toNat < n then s.buffer (k + 80#32 * d) else s.buffer k := rfl

theorem run_copyCell (hi : i + d.toNat < 25) (hj : j < 80) (s : Terminal) :
    Prog.run exec (copyCell d i j) (copied d s (80 * i + j)) =
      .ok ((), copied d s (80 * i + (j + 1))) := by
  have hcell := cell_toNat (show i < 25 by omega) hj
  have hsource := source_toNat hi hj
  have hindex : (BitVec.ofNat 32 i + d) * vgaWidth + BitVec.ofNat 32 j =
      BitVec.ofNat 32 i * vgaWidth + BitVec.ofNat 32 j + 80#32 * d := by
    apply BitVec.eq_of_toNat_eq
    rw [hsource, BitVec.toNat_add, hcell, BitVec.toNat_mul, BitVec.toNat_ofNat]
    omega
  have hold : (copied d s (80 * i + j)).buffer ((BitVec.ofNat 32 i + d) * vgaWidth + BitVec.ofNat 32 j) =
      s.buffer ((BitVec.ofNat 32 i + d) * vgaWidth + BitVec.ofNat 32 j) := if_neg (by omega)
  rw [copyCell, Prog.run_bind_ok _ (run_load _ _), run_store, hold, hindex]
  congr 2
  simp only [copied, Terminal.poke, Terminal.mk.injEq, true_and, and_true]
  funext k
  have hk : k = BitVec.ofNat 32 i * vgaWidth + BitVec.ofNat 32 j ↔ k.toNat = 80 * i + j := by
    rw [← BitVec.toNat_inj, hcell]
  by_cases hlast : k.toNat = 80 * i + j
  · rw [if_pos (hk.mpr hlast), if_pos (by omega), hk.mpr hlast]
  · rw [if_neg (mt hk.mp hlast)]
    by_cases hlt : k.toNat < 80 * i + j
    · rw [if_pos hlt, if_pos (by omega)]
    · rw [if_neg hlt, if_neg (by omega)]

theorem run_terminalScrollDown (hd : d.toNat ≤ 25) (s : Terminal) :
    Prog.run exec (terminalScrollDown d) s = .ok ((), copied d s (80 * (25 - d.toNat))) := by
  have hrows := rows_toNat hd
  have hrow (i : Nat) (b : Unit) (hi : i < (vgaHeight - d).toNat) :
      Prog.run exec (Prog.forUp 80 b fun j _ => copyCell d i j) (copied d s (80 * i)) =
        .ok ((), copied d s (80 * (i + 1))) := by
    obtain ⟨_, t, hr, ht⟩ := Prog.run_forUp exec (fun j _ => copyCell d i j) (n := 80) (b := b)
      (fun j _ t => t = copied d s (80 * i + j)) rfl fun j b t hj ht =>
        ⟨(), _, by rw [ht]; exact run_copyCell (by omega) hj s, rfl⟩
    rw [Nat.add_zero] at hr
    rw [hr, ht, show 80 * i + 80 = 80 * (i + 1) by omega]
  have hzero : s = copied d s 0 := rfl
  obtain ⟨_, t, hr, ht⟩ := Prog.run_forUp exec (fun i b => Prog.forUp 80 b fun j _ => copyCell d i j)
    (n := (vgaHeight - d).toNat) (b := ()) (fun i _ t => t = copied d s (80 * i)) hzero fun i b t hi ht =>
      ⟨(), _, by rw [ht]; exact hrow i b hi, rfl⟩
  rw [terminalScrollDown_eq]
  exact hr.trans (by rw [ht, hrows])

/-- With a larger distance the bound wraps around, and the row below the screen is written. -/
theorem leaves_buffer (hd : 25 < d.toNat) (hlt : d.toNat < 0x80000000) (s : Terminal) :
    ¬ Prog.Performs exec Op.InBuffer (terminalScrollDown d) s := by
  obtain ⟨n, hn⟩ : ∃ n, (vgaHeight - d).toNat = 25 + (n + 1) := by
    refine ⟨(vgaHeight - d).toNat - 26, ?_⟩
    simp only [vgaHeight, BitVec.toNat_sub, BitVec.toNat_ofNat]
    omega
  have hcopy (i j : Nat) : Prog.All Call.Unbounded (copyCell d i j) :=
    (Prog.all_perform.mpr trivial : Prog.All Call.Unbounded (Code.load _)).bind fun _ =>
      Prog.all_perform.mpr trivial
  obtain ⟨_, u, hu⟩ := Call.exists_run
    (p := Prog.iterate (fun i _ => Prog.forUp 80 () fun j _ => copyCell d i j) 0 25 ())
    (Prog.All.iterate_of_lt (fun i _ _ _ => Prog.All.forUp (fun j _ => hcopy i j) 80 ()) ()) s
  rw [terminalScrollDown_eq, hn, Prog.forUp, Prog.iterate_add]
  intro hperf
  have hrow := (Prog.performs_bind_iff _ _).mp (((Prog.performs_bind_iff _ _).mp hperf).2 _ u hu)
  have hcell := ((Prog.performs_bind_iff _ _).mp hrow.1).1
  have hstore : (BitVec.ofNat 32 25 * vgaWidth + BitVec.ofNat 32 0).toNat < 2000 :=
    hcell (.store (BitVec.ofNat 32 25 * vgaWidth + BitVec.ofNat 32 0) _, _)
      (List.mem_cons_of_mem _ List.mem_cons_self)
  exact absurd hstore (by decide)

end Down

def cell (i j : Nat) : Word := BitVec.ofNat 32 (80 * i + j)

/-- `code` moves the rows up by `d`, in place and within the screen. -/
structure ScrollsDown (d : Word) (code : Code Unit) (s t : Terminal) : Prop where
  run : Prog.run exec code s = .ok ((), t)
  rows : ∀ i < 25, ∀ j < 80, t.buffer (cell i j) =
    if i + d.toNat < 25 then s.buffer (cell (i + d.toNat) j) else s.buffer (cell i j)
  inBuffer : Prog.Performs exec Op.InBuffer code s
  ahead : (Prog.trace exec code s).Pairwise Ahead

theorem scrollsDown_of_le {d : Word} (hd : d.toNat ≤ 25) (s : Terminal) :
    ScrollsDown d (terminalScrollDown d) s (copied d s (80 * (25 - d.toNat))) := by
  have hsweep := sweeps_terminalScrollDown hd s
  refine ⟨run_terminalScrollDown hd s, fun i hi j hj => ?_, fun x hx => ?_, hsweep.1⟩
  · have hcell : (cell i j).toNat = 80 * i + j := by
      rw [cell, BitVec.toNat_ofNat]
      omega
    have hsource : cell i j + 80#32 * d = cell (i + d.toNat) j := by
      apply BitVec.eq_of_toNat_eq
      rw [BitVec.toNat_add, hcell, BitVec.toNat_mul, cell, BitVec.toNat_ofNat, BitVec.toNat_ofNat]
      omega
    rw [copied_buffer, hcell, hsource]
    by_cases hrow : i + d.toNat < 25
    · rw [if_pos hrow, if_pos (by omega)]
    · rw [if_neg hrow, if_neg (by omega)]
  · have hop := hsweep.2 x hx
    revert hop
    cases x.1 with
    | load i => exact fun h => h.2
    | store i c => exact fun h => h.2
    | _ => exact fun _ => trivial

/-- Both functions scroll by any distance up to the height of the screen, and by no larger one. -/
theorem scrollsDown_iff (s : Terminal) {d : Word} (hd : 0 ≤ d.toInt) :
    (∃ t, ScrollsDown d (terminalScrollDown d) s t ∧ ScrollsDown d (terminalScrollDownByAmount d) s t) ↔
      d.toNat ≤ 25 := by
  have hlt : d.toNat < 0x80000000 := by
    rw [BitVec.toInt_eq_toNat_cond] at hd
    split at hd
    · omega
    · omega
  constructor
  · rintro ⟨t, h, -⟩
    by_contra hgt
    exact leaves_buffer (Nat.lt_of_not_le hgt) hlt s h.inBuffer
  · intro hle
    exact ⟨_, scrollsDown_of_le hle s, scrollsDown_of_le hle s⟩

def blankTerminal : Terminal where
  row := 0#32
  column := 0#32
  color := 7#8
  buffer := fun _ => 0x0720#16
  crtIndex := 0#8
  crt := fun _ => 0#8

theorem scrollsDown_iff_one : (∃ t, ScrollsDown 1#32 (terminalScrollDown 1#32) blankTerminal t ∧
    ScrollsDown 1#32 (terminalScrollDownByAmount 1#32) blankTerminal t) ↔ (1#32).toNat ≤ 25 :=
  scrollsDown_iff blankTerminal (by decide)

/-- Scrolling by 26 rows. -/
theorem scroll_down_beyond : ¬ ∃ t, ScrollsDown 26#32 (terminalScrollDown 26#32) blankTerminal t ∧
    ScrollsDown 26#32 (terminalScrollDownByAmount 26#32) blankTerminal t := by
  rintro ⟨t, h, -⟩
  exact leaves_buffer (by decide) (by decide) blankTerminal h.inBuffer

end PekOS.Tty
