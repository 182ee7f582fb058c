import Mathlib.Logic.Function.Iterate
import PekOS.Terminal

/-! `terminal_write` as the filling of a ring of 2000 cells. -/

namespace PekOS.Tty

open OpTree

/-- The ring: the cells of the screen, row after row, and the one to be written next. -/
structure Ring where
  cells : Fin 2000 → Cell
  pos : Fin 2000

/-- The cell after the last one of a position's row. -/
def rowEnd (pos : Fin 2000) : Nat := (pos.val / 80 + 1) * 80

def Ring.put (color : Byte) (r : Ring) (b : Byte) : Ring :=
  if b = newline then
    { cells := fun k => if r.pos ≤ k ∧ k.val < rowEnd r.pos then vgaEntry space color else r.cells k
      pos := Fin.ofNat 2000 (rowEnd r.pos) }
  else
    { cells := fun k => if k = r.pos then vgaEntry b color else r.cells k
      pos := r.pos + 1 }

/-- Newlines from the start of a row lead to the start of another. -/
theorem newlines_pos (color : Byte) (n : Nat) {r : Ring} {k : Nat} (hk : k < 25)
    (hr : r.pos.val = 80 * k) :
    ((List.replicate n newline).foldl (Ring.put color) r).pos.val = 80 * ((k + n) % 25) := by
  induction n generalizing r k with
  | zero => simpa [Nat.mod_eq_of_lt hk] using hr
  | succ n ih =>
    have hput : (r.put color newline).pos.val = 80 * ((k + 1) % 25) := by
      simp only [Ring.put, if_true, rowEnd, hr, Fin.val_ofNat]
      omega
    rw [List.replicate_succ, List.foldl_cons, ih (Nat.mod_lt _ (by decide)) hput]
    omega

structure InRange (s : Terminal) : Prop where
  row : s.row.toNat < 25
  column : s.column.toNat < 80

namespace Terminal

/-- `row * 80 + column`. -/
def pos (s : Terminal) : Nat := s.row.toNat * 80 + s.column.toNat

def ring (s : Terminal) : Ring where
  cells := fun k => s.buffer (BitVec.ofNat 32 k.val)
  pos := Fin.ofNat 2000 s.pos

/-! What the functions of tty.c do to the state. -/

def wrapColumn (s : Terminal) : Terminal :=
  if s.column = vgaWidth then { s with column := 0#32, row := s.row + 1#32 } else s

def wrapRow (s : Terminal) : Terminal :=
  if s.row = vgaHeight then { s with row := 0#32, column := 0#32 } else s

def handlePosition (s : Terminal) : Terminal := s.wrapColumn.wrapRow

def putVisible (s : Terminal) (c : Byte) : Terminal :=
  handlePosition
    { s.poke (s.row * vgaWidth + s.column) (vgaEntry c s.color) with column := s.column + 1#32 }

def blanks (n : Nat) : Terminal → Terminal := (fun s => s.putVisible space)^[n]

def putchar (s : Terminal) (c : Byte) : Terminal :=
  if c = newline then blanks (80 - s.column.toNat) s else s.putVisible c

def withCrt (s : Terminal) (i : Byte) (crt : Byte → Byte) : Terminal :=
  { s with crtIndex := i, crt := crt }

/-- The registers of the CRT controller with the cursor moved. -/
def cursorAt (pos : BitVec 16) (crt : Byte → Byte) (k : Byte) : Byte :=
  if k = 0x0E#8 then (pos >>> 8).setWidth 8 else if k = 0x0F#8 then pos.setWidth 8 else crt k

def moveCursor (s : Terminal) : Terminal :=
  s.withCrt 0x0E#8 (cursorAt ((s.row * vgaWidth + s.column).setWidth 16) s.crt)

def write (s : Terminal) (data : List Byte) : Terminal := (data.foldl putchar s).moveCursor

theorem run_terminalHandlePosition (s : Terminal) :
    Prog.run exec terminalHandlePosition s = .ok ((), s.handlePosition) := by
  unfold terminalHandlePosition handlePosition wrapRow wrapColumn
  by_cases h : s.column = vgaWidth
  · by_cases h' : s.row + 1#32 = vgaHeight
    · simp [Prog.run_bind, h, h']
    · simp [Prog.run_bind, h, h']
  · by_cases h' : s.row = vgaHeight
    · simp [Prog.run_bind, h, h']
    · simp [Prog.run_bind, h, h']

theorem run_putVisible (c : Byte) (s : Terminal) :
    Prog.run exec (Tty.putVisible c) s = .ok ((), s.putVisible c) := by
  unfold Tty.putVisible terminalPutentryat
  simp only [Prog.run_bind, run_statics, run_store, run_incColumn, run_terminalHandlePosition]
  rfl

theorem run_updateCursor (x y : Word) (s : Terminal) : Prog.run exec (updateCursor x y) s =
    .ok ((), s.withCrt 0x0E#8 (cursorAt ((y * vgaWidth + x).setWidth 16) s.crt)) := by
  unfold updateCursor
  simp only [Prog.run_bind, run_outb, Terminal.outb, withCrt, if_true, if_false,
    show ¬ (0x3D5#16 = 0x3D4#16) by decide]
  rfl

/-! Within the screen. -/

variable {s : Terminal}

theorem pos_lt (h : InRange s) : s.pos < 2000 := by
  have hr := h.row
  have hc := h.column
  unfold pos
  omega

theorem index_toNat {x y : Word} (hx : x.toNat < 80) (hy : y.toNat < 25) :
    (y * vgaWidth + x).toNat = y.toNat * 80 + x.toNat := by
  simp only [vgaWidth, BitVec.toNat_add, BitVec.toNat_mul, BitVec.toNat_ofNat]
  omega

theorem index_eq (h : InRange s) : s.row * vgaWidth + s.column = BitVec.ofNat 32 s.pos := by
  have hp := pos_lt h
  apply BitVec.eq_of_toNat_eq
  rw [index_toNat h.column h.row, BitVec.toNat_ofNat, Nat.mod_eq_of_lt (by omega), pos]

theorem column_wraps (h : InRange s) : s.column + 1#32 = vgaWidth ↔ s.column.toNat = 79 := by
  have hc := h.column
  rw [← BitVec.toNat_inj, BitVec.toNat_add]
  simp only [vgaWidth, BitVec.toNat_ofNat]
  omega

theorem row_wraps (h : InRange s) : s.row + 1#32 = vgaHeight ↔ s.row.toNat = 24 := by
  have hr := h.row
  rw [← BitVec.toNat_inj, BitVec.toNat_add]
  simp only [vgaHeight, BitVec.toNat_ofNat]
  omega

theorem row_ne (h : InRange s) : s.row ≠ vgaHeight := by
  have hr := h.row
  rw [Ne, ← BitVec.toNat_inj]
  simp only [vgaHeight, BitVec.toNat_ofNat]
  omega

theorem putVisible_row (h : InRange s) (c : Byte) : (s.putVisible c).row.toNat =
    if s.column.toNat = 79 then (s.row.toNat + 1) % 25 else s.row.toNat := by
  have hr := h.row
  unfold putVisible handlePosition wrapRow wrapColumn
  by_cases hcol : s.column.toNat = 79
  · by_cases hrow : s.row.toNat = 24
    · simp [poke, (column_wraps h).mpr hcol, (row_wraps h).mpr hrow, hcol, hrow]
    · simp [poke, (column_wraps h).mpr hcol, (row_wraps h).not.mpr hrow, hcol]
      omega
  · simp [poke, (column_wraps h).not.mpr hcol, row_ne h, hcol]

theorem putVisible_column (h : InRange s) (c : Byte) :
    (s.putVisible c).column.toNat = (s.column.toNat + 1) % 80 := by
  have hc := h.column
  unfold putVisible handlePosition wrapRow wrapColumn
  by_cases hcol : s.column.toNat = 79
  · by_cases hrow : s.row.toNat = 24
    · simp [poke, (column_wraps h).mpr hcol, (row_wraps h).mpr hrow, hcol]
    · simp [poke, (column_wraps h).mpr hcol, (row_wraps h).not.mpr hrow, hcol]
  · simp [poke, (column_wraps h).not.mpr hcol, row_ne h]
    omega

theorem putVisible_inRange (h : InRange s) (c : Byte) : InRange (s.putVisible c) := by
  have hr := h.row
  constructor
  · rw [putVisible_row h]
    split <;> omega
  · rw [putVisible_column h]
    omega

theorem putVisible_pos (h : InRange s) (c : Byte) : (s.putVisible c).pos = (s.pos + 1) % 2000 := by
  have hr := h.row
  have hc := h.column
  rw [pos, putVisible_row h, putVisible_column h, pos]
  split <;> omega

@[simp] theorem handlePosition_buffer (s : Terminal) : s.handlePosition.buffer = s.buffer := by
  unfold handlePosition wrapRow wrapColumn
  split
  · split <;> rfl
  · split <;> rfl

@[simp] theorem handlePosition_color (s : Terminal) : s.handlePosition.color = s.color := by
  unfold handlePosition wrapRow wrapColumn
  split
  · split <;> rfl
  · split <;> rfl

@[simp] theorem putVisible_color (s : Terminal) (c : Byte) : (s.putVisible c).color = s.color := by
  rw [putVisible, handlePosition_color]
  rfl

theorem putVisible_buffer (h : InRange s) (c : Byte) (k : Word) : (s.putVisible c).buffer k =
    if k.toNat = s.pos then vgaEntry c s.color else s.buffer k := by
  have hp := pos_lt h
  have hk : k = BitVec.ofNat 32 s.pos ↔ k.toNat = s.pos := by
    rw [← BitVec.toNat_inj, BitVec.toNat_ofNat, Nat.mod_eq_of_lt (by omega)]
  rw [putVisible, handlePosition_buffer, index_eq h]
  simp only [poke, hk]

/-! A newline. -/

theorem blanks_succ (n : Nat) (s : Terminal) : blanks (n + 1) s = (blanks n s).putVisible space :=
  Function.iterate_succ_apply' _ n s

/-- What `n` blanks on one row do. -/
structure Blanked (n : Nat) (s t : Terminal) : Prop where
  inRange : InRange t
  column : t.column.toNat = (s.column.toNat + n) % 80
  pos : t.pos = (s.pos + n) % 2000
  color : t.color = s.color
  buffer : ∀ k : Word, t.buffer k =
    if s.pos ≤ k.toNat ∧ k.toNat < s.pos + n then vgaEntry space s.color else s.buffer k

theorem blanked (h : InRange s) {n : Nat} (hn : n ≤ 80 - s.column.toNat) : Blanked n s (blanks n s) := by
  have hr := h.row
  have hc := h.column
  have hp := pos_lt h
  have hend : s.pos + (80 - s.column.toNat) ≤ 2000 := by
    unfold pos
    omega
  induction n with
  | zero => exact ⟨h, (Nat.mod_eq_of_lt hc).symm, (Nat.mod_eq_of_lt hp).symm, rfl, fun k => by
      rw [if_neg (by omega)]
      rfl⟩
  | succ n ih =>
    have ih := ih (by omega)
    have hpos := ih.pos
    rw [Nat.mod_eq_of_lt (by omega)] at hpos
    rw [blanks_succ]
    refine ⟨putVisible_inRange ih.inRange _, ?_, ?_, ?_, fun k => ?_⟩
    · rw [putVisible_column ih.inRange, ih.column]
      omega
    · rw [putVisible_pos ih.inRange, hpos, Nat.add_assoc]
    · rw [putVisible_color, ih.color]
    · rw [putVisible_buffer ih.inRange, hpos, ih.color, ih.buffer]
      by_cases hk : k.toNat = s.pos + n
      · rw [if_pos hk, if_pos (by omega)]
      · rw [if_neg hk]
        refine if_congr ?_ rfl rfl
        omega

theorem run_blanks {fuel m : Nat} (hm : m < fuel) (h : InRange s)
    (hcol : s.column.toNat = 0 ∧ m = 0 ∨ 0 < s.column.toNat ∧ s.column.toNat + m = 80) :
    Prog.run exec (Prog.loop Code.outOfFuel (fun _ => do
      let v ← Code.statics
      if v.column ≠ 0#32 then do
        Tty.putVisible space
        return .inl ()
      else return .inr ()) fuel () : Tty.Code Unit) s = .ok ((), blanks m s) := by
  induction fuel generalizing m s with
  | zero => omega
  | succ fuel ih =>
    rw [Prog.loop, Prog.run_bind, Prog.run_bind_ok _ (run_statics s)]
    rcases hcol with ⟨h0, rfl⟩ | ⟨h0, hm'⟩
    · have hz : s.column = 0#32 := BitVec.eq_of_toNat_eq h0
      simp [hz, blanks]
    · have hne : s.column ≠ 0#32 := by
        rintro hz
        simp [hz] at h0
      obtain ⟨m, rfl⟩ : ∃ j, m = j + 1 := ⟨m - 1, by have := s.column.isLt; have := h.column; omega⟩
      have hc := putVisible_column h space
      rw [if_pos hne, Prog.run_bind_ok _ (run_putVisible space s)]
      exact ih (by omega) (putVisible_inRange h space) (by omega)

theorem run_terminalClearRestOfLine {fuel : Nat} (hf : 80 ≤ fuel) (h : InRange s) :
    Prog.run exec (terminalClearRestOfLine fuel) s = .ok ((), blanks (80 - s.column.toNat) s) := by
  have hc := h.column
  have hcol := putVisible_column h space
  have hloop := run_blanks (m := 79 - s.column.toNat) (by omega : _ < fuel)
    (putVisible_inRange h space) (by omega)
  rw [terminalClearRestOfLine, Prog.run_bind_ok _ (run_putVisible space s), hloop,
    show 80 - s.column.toNat = 79 - s.column.toNat + 1 by omega]
  rfl

theorem run_terminalPutchar {fuel : Nat} (hf : 80 ≤ fuel) (h : InRange s) (c : Byte) :
    Prog.run exec (terminalPutchar fuel c) s = .ok ((), s.putchar c) := by
  unfold terminalPutchar putchar
  split
  · exact run_terminalClearRestOfLine hf h
  · exact run_putVisible c s

/-! The ring. -/

theorem ring_pos (h : InRange s) : s.ring.pos.val = s.pos := Nat.mod_eq_of_lt (pos_lt h)

theorem rowEnd_ring (h : InRange s) : rowEnd s.ring.pos = s.pos + (80 - s.column.toNat) := by
  have hc := h.column
  rw [rowEnd, ring_pos h, pos]
  omega

theorem putchar_inRange (h : InRange s) (c : Byte) : InRange (s.putchar c) := by
  unfold putchar
  split
  · exact (blanked h (Nat.le_refl _)).inRange
  · exact putVisible_inRange h c

theorem putchar_color (h : InRange s) (c : Byte) : (s.putchar c).color = s.color := by
  unfold putchar
  split
  · exact (blanked h (Nat.le_refl _)).color
  · exact putVisible_color s c

theorem putchar_outside (h : InRange s) (c : Byte) {k : Word} (hk : 2000 ≤ k.toNat) :
    (s.putchar c).buffer k = s.buffer k := by
  have hp := pos_lt h
  have hend := rowEnd_ring h
  have hlast : rowEnd s.ring.pos ≤ 2000 := by
    rw [rowEnd, ring_pos h]
    omega
  unfold putchar
  split
  · rw [(blanked h (Nat.le_refl _)).buffer, if_neg (by omega)]
  · rw [putVisible_buffer h, if_neg (by omega)]

theorem putchar_ring (h : InRange s) (c : Byte) : (s.putchar c).ring = s.ring.put s.color c := by
  have hp := pos_lt h
  have hk (k : Fin 2000) : (BitVec.ofNat 32 k.val).toNat = k.val := by
    rw [BitVec.toNat_ofNat]
    omega
  unfold putchar Ring.put
  by_cases hc : c = newline
  · have hb := blanked h (Nat.le_refl _)
    rw [if_pos hc, if_pos hc, rowEnd_ring h, ring, hb.pos]
    congr 1
    · funext k
      rw [hb.buffer, hk]
      refine if_congr ?_ rfl rfl
      rw [Fin.le_def, ring_pos h]
    · apply Fin.ext
      simp
  · rw [if_neg hc, if_neg hc, ring, putVisible_pos h]
    congr 1
    · funext k
      rw [putVisible_buffer h, hk]
      refine if_congr ?_ rfl rfl
      rw [Fin.ext_iff, ring_pos h]
    · apply Fin.ext
      simp [Fin.val_add, ring_pos h]

/-- What the bytes of a write leave, the cursor apart. -/
structure Filled (s : Terminal) (data : List Byte) (t : Terminal) : Prop where
  inRange : InRange t
  ring : t.ring = data.foldl (Ring.put s.color) s.ring
  outside : ∀ k : Word, 2000 ≤ k.toNat → t.buffer k = s.buffer k
  color : t.color = s.color

theorem filled (h : InRange s) (data : List Byte) : Filled s data (data.foldl putchar s) := by
  induction data generalizing s with
  | nil => exact ⟨h, rfl, fun _ _ => rfl, rfl⟩
  | cons c data ih =>
    have ih := ih (putchar_inRange h c)
    refine ⟨ih.inRange, ?_, fun k hk => ?_, ?_⟩
    · rw [List.foldl_cons, List.foldl_cons, ih.ring, putchar_color h, putchar_ring h]
    · rw [List.foldl_cons, ih.outside k hk, putchar_outside h c hk]
    · rw [List.foldl_cons, ih.color, putchar_color h]

/-! The cursor. -/

theorem split_append (p : BitVec 16) : ((p >>> 8).setWidth 8 ++ p.setWidth 8 : BitVec 16) = p := by
  have hp := p.isLt
  apply BitVec.eq_of_toNat_eq
  rw [BitVec.toNat_append, BitVec.toNat_setWidth, BitVec.toNat_setWidth, BitVec.toNat_ushiftRight,
    Nat.shiftRight_eq_div_pow, ← Nat.shiftLeft_add_eq_or_of_lt (by omega), Nat.shiftLeft_eq]
  omega

theorem moveCursor_cursor (h : InRange s) : s.moveCursor.cursor.toNat = s.pos := by
  have hp := pos_lt h
  have hcursor : s.moveCursor.cursor = (s.row * vgaWidth + s.column).setWidth 16 := split_append _
  rw [hcursor, index_eq h, BitVec.toNat_setWidth, BitVec.toNat_ofNat]
  omega

/-- Bytes do not depend on the cursor registers, nor do they change them. -/
theorem putVisible_withCrt (s : Terminal) (i : Byte) (crt : Byte → Byte) (c : Byte) :
    (s.withCrt i crt).putVisible c = (s.putVisible c).withCrt i crt := by
  have hcolumn (s : Terminal) : (s.withCrt i crt).wrapColumn = s.wrapColumn.withCrt i crt := by
    by_cases h : s.column = vgaWidth
    · rw [wrapColumn, wrapColumn, if_pos h, if_pos (show (s.withCrt i crt).column = vgaWidth from h)]
      rfl
    · rw [wrapColumn, wrapColumn, if_neg h, if_neg (show ¬ (s.withCrt i crt).column = vgaWidth from h)]
  have hrow (s : Terminal) : (s.withCrt i crt).wrapRow = s.wrapRow.withCrt i crt := by
    by_cases h : s.row = vgaHeight
    · rw [wrapRow, wrapRow, if_pos h, if_pos (show (s.withCrt i crt).row = vgaHeight from h)]
      rfl
    · rw [wrapRow, wrapRow, if_neg h, if_neg (show ¬ (s.withCrt i crt).row = vgaHeight from h)]
  unfold putVisible handlePosition
  rw [← hrow, ← hcolumn]
  rfl

theorem putchar_withCrt (s : Terminal) (i : Byte) (crt : Byte → Byte) (c : Byte) :
    (s.withCrt i crt).putchar c = (s.putchar c).withCrt i crt := by
  have hblanks (n : Nat) (s : Terminal) : blanks n (s.withCrt i crt) = (blanks n s).withCrt i crt := by
    induction n with
    | zero => rfl
    | succ n ih => rw [blanks_succ, blanks_succ, ih, putVisible_withCrt]
  unfold putchar
  split
  · exact hblanks _ s
  · exact putVisible_withCrt s i crt c

theorem foldl_withCrt (s : Terminal) (i : Byte) (crt : Byte → Byte) (data : List Byte) :
    data.foldl putchar (s.withCrt i crt) = (data.foldl putchar s).withCrt i crt := by
  induction data generalizing s with
  | nil => rfl
  | cons c data ih => rw [List.foldl_cons, List.foldl_cons, putchar_withCrt, ih]

theorem cursorAt_cursorAt (p q : BitVec 16) (crt : Byte → Byte) :
    cursorAt p (cursorAt q crt) = cursorAt p crt := by
  funext k
  unfold cursorAt
  split
  · rfl
  · split <;> rfl

theorem foldl_crt (s : Terminal) (data : List Byte) : (data.foldl putchar s).crt = s.crt := by
  have h : data.foldl putchar s = (data.foldl putchar s).withCrt s.crtIndex s.crt :=
    foldl_withCrt s s.crtIndex s.crt data
  rw [h]
  rfl

theorem write_write (s : Terminal) (data data' : List Byte) :
    (s.write data).write data' = s.write (data ++ data') := by
  have hcrt := (foldl_crt s data).trans (foldl_crt s (data ++ data')).symm
  have hfold : data'.foldl putchar (s.write data) = ((data ++ data').foldl putchar s).withCrt 0x0E#8
      (s.write data).crt := by
    rw [write, moveCursor, foldl_withCrt, ← List.foldl_append]
    rfl
  rw [write, hfold, write, write, moveCursor, moveCursor, moveCursor, ← hcrt]
  exact congrArg (withCrt _ _) (cursorAt_cursorAt _ _ _)

end Terminal

open Terminal

variable {s : Terminal}

theorem run_putchars {fuel : Nat} (hf : 80 ≤ fuel) (h : InRange s) (data : List Byte) :
    Prog.run exec (putchars fuel data) s = .ok ((), data.foldl Terminal.putchar s) := by
  induction data generalizing s with
  | nil => rfl
  | cons c data ih =>
    rw [putchars, Prog.run_bind_ok _ (run_terminalPutchar hf h c), ih (putchar_inRange h c)]
    rfl

theorem run_terminalWrite {fuel : Nat} (hf : 80 ≤ fuel) (h : InRange s) (data : List Byte) :
    Prog.run exec (terminalWrite fuel data) s = .ok ((), s.write data) := by
  rw [terminalWrite, Prog.run_bind_ok _ (run_putchars hf h data), Prog.run_bind_ok _ (run_statics _),
    run_updateCursor]
  rfl

theorem write_inRange (h : InRange s) (data : List Byte) : InRange (s.write data) :=
  ⟨(filled h data).inRange.row, (filled h data).inRange.column⟩

def eachPutchar (fuel : Nat) : List Byte → Code Unit
  | [] => return ()
  | c :: data => do
    putchar fuel c
    eachPutchar fuel data

theorem run_eachPutchar {fuel : Nat} (hf : 80 ≤ fuel) (h : InRange s) (data : List Byte) :
    Prog.run exec (eachPutchar fuel data) s = .ok ((), if data = [] then s else s.write data) := by
  induction data generalizing s with
  | nil => rfl
  | cons c data ih =>
    rw [eachPutchar, putchar, Prog.run_bind_ok _ (run_terminalWrite hf h [c]), ih (write_inRange h [c])]
    cases data with
    | nil => rfl
    | cons c' data => simp [write_write]

/-- What a write of `data` leaves. -/
structure Wrote (s : Terminal) (data : List Byte) (t : Terminal) : Prop extends Filled s data t where
  cursor : t.cursor.toNat = t.pos

theorem exists_wrote (h : InRange s) {fuel : Nat} (hf : 80 ≤ fuel) (data : List Byte) :
    ∃ t, Prog.run exec (terminalWrite fuel data) s = .ok ((), t) ∧ Wrote s data t := by
  have hfilled := filled h data
  refine ⟨_, run_terminalWrite hf h data, ⟨write_inRange h data, ?_, ?_, ?_⟩, ?_⟩
  · exact hfilled.ring
  · exact hfilled.outside
  · exact hfilled.color
  · exact moveCursor_cursor hfilled.inRange

/-- Two runs return and leave the same screen, with the cursor at the same place. -/
def SameScreen (p q : Code Unit) (s : Terminal) : Prop :=
  ∃ t u, Prog.run exec p s = .ok ((), t) ∧ Prog.run exec q s = .ok ((), u) ∧
    t.toStatics = u.toStatics ∧ t.buffer = u.buffer ∧ t.cursor = u.cursor

structure WritesAsRing (fuel : Nat) (s : Terminal) : Prop where
  wrote : ∀ data, ∃ t, Prog.run exec (terminalWrite fuel data) s = .ok ((), t) ∧ Wrote s data t
  append : ∀ data data', SameScreen (terminalWrite fuel (data ++ data'))
    (terminalWrite fuel data >>= fun _ => terminalWrite fuel data') s
  eachPutchar : ∀ data, data ≠ [] ∨ s.cursor.toNat = s.pos →
    SameScreen (terminalWrite fuel data) (eachPutchar fuel data) s

theorem terminalWrite_refines_ring (h : InRange s) {fuel : Nat} (hf : 80 ≤ fuel) :
    WritesAsRing fuel s := by
  refine ⟨exists_wrote h hf, fun data data' => ?_, fun data hd => ?_⟩
  · refine ⟨_, _, run_terminalWrite hf h _, ?_, rfl, rfl, rfl⟩
    rw [Prog.run_bind_ok _ (run_terminalWrite hf h data),
      run_terminalWrite hf (write_inRange h data), write_write]
  · refine ⟨_, _, run_terminalWrite hf h data, run_eachPutchar hf h data, ?_⟩
    cases data with
    | nil =>
      refine ⟨rfl, rfl, BitVec.eq_of_toNat_eq ?_⟩
      rw [if_pos rfl, hd.resolve_left fun he => he rfl]
      exact moveCursor_cursor h
    | cons c data => simp

/-- The terminal after `terminal_initialize`, the hardware cursor where the firmware left it. -/
def startTerminal : Terminal where
  row := 0#32
  column := 0#32
  color := 7#8
  buffer := fun _ => vgaEntry space 7#8
  crtIndex := 0#8
  crt := fun _ => 1#8

theorem startTerminal_inRange : InRange startTerminal := ⟨by decide, by decide⟩

theorem terminalWrite_refines_ring_start : WritesAsRing 80 startTerminal :=
  terminalWrite_refines_ring startTerminal_inRange (Nat.le_refl 80)

/-- Nothing is printed by no call of `putchar`, but an empty write moves the cursor. -/
theorem emptyWrite_moves_cursor : InRange startTerminal ∧
    ¬ ∀ data, SameScreen (terminalWrite 80 data) (eachPutchar 80 data) startTerminal := by
  refine ⟨startTerminal_inRange, fun h => ?_⟩
  obtain ⟨t, u, ht, hu, -, -, hcursor⟩ := h []
  rw [run_terminalWrite (Nat.le_refl 80) startTerminal_inRange] at ht
  rw [run_eachPutchar (Nat.le_refl 80) startTerminal_inRange] at hu
  obtain rfl : startTerminal.write [] = t := by simpa using ht
  obtain rfl : startTerminal = u := by simpa using hu
  revert hcursor
  decide

end PekOS.Tty
