import PekOS.Library.Interference
import PekOS.TerminalRing

/-! The row and the column of the terminal: what keeps them on the screen, with
interrupts that print between two statements or without, and the one operation
that does not. -/

namespace PekOS.Tty

open OpTree Terminal

/-- An access to the buffer is within the screen. -/
def Op.InBuffer : Op → Prop
  | .load i | .store i _ => i.toNat < 2000
  | _ => True

section Safe

variable {rely : Op → Terminal → Terminal → Prop}

/-- Interference that keeps what is on the screen there, and leaves alone the
row and the column where a test or a reset of them is still to come. -/
structure Tame (rely : Op → Terminal → Terminal → Prop) : Prop where
  inRange : ∀ o s t, rely o s t → InRange s → InRange t
  test : ∀ s t, rely .statics s t → ¬ InRange s → t.row = s.row ∧ t.column = s.column
  setRow : ∀ w s t, rely (.setRow w) s t → ¬ InRange s → t.row = s.row ∧ t.column = s.column
  setColumn : ∀ w s t, rely (.setColumn w) s t → s.row.toNat < 25 → t.row.toNat < 25

abbrev OnScreen (rely : Op → Terminal → Terminal → Prop) (pre : Terminal → Prop) {α : Type} (p : Code α)
    (post : α → Terminal → Prop) : Prop :=
  ∀ s, pre s → Prog.Safe exec rely Op.InBuffer post p s

/-- The row is below the screen, by one row at most. -/
structure RowPassed (s : Terminal) : Prop where
  row : s.row.toNat < 26
  column : s.column.toNat < 80

/-- The column is past the end of the row, by one column at most. -/
structure ColumnPassed (s : Terminal) : Prop where
  row : s.row.toNat < 25
  column : s.column.toNat < 81

theorem safe_perform {o : Op} {I : Terminal → Prop} {post : o.Res → Terminal → Prop}
    (hrely : ∀ t u, I t → rely o t u → I u) (hG : o.InBuffer)
    (hpost : ∀ t r u, I t → exec o t = .ok (r, u) → post r u) :
    OnScreen rely I (Prog.perform o) post :=
  fun _ hs => Prog.Safe.perform hrely hG hpost hs

theorem safe_statics {I : Terminal → Prop} (hrely : ∀ t u, I t → rely .statics t u → I u) :
    OnScreen rely I Code.statics fun v t => I t ∧ v = t.toStatics :=
  safe_perform hrely trivial fun t r u ht hr => by
    cases hr
    exact ⟨ht, rfl⟩

variable (h : Tame rely)

include h

theorem Tame.columnPassed {s t : Terminal} (hr : rely .statics s t) (hs : ColumnPassed s) :
    ColumnPassed t := by
  by_cases hin : InRange s
  · have ht := h.inRange _ _ _ hr hin
    exact ⟨ht.row, by have := ht.column; omega⟩
  · obtain ⟨hrow, hcol⟩ := h.test _ _ hr hin
    exact ⟨hrow ▸ hs.row, hcol ▸ hs.column⟩

theorem Tame.rowPassed {o : Op} (ho : o = .statics ∨ ∃ w, o = .setRow w) {s t : Terminal}
    (hr : rely o s t) (hs : RowPassed s) : RowPassed t := by
  by_cases hin : InRange s
  · have ht := h.inRange _ _ _ hr hin
    exact ⟨by have := ht.row; omega, ht.column⟩
  · obtain ⟨hrow, hcol⟩ : t.row = s.row ∧ t.column = s.column := by
      rcases ho with rfl | ⟨w, rfl⟩
      · exact h.test _ _ hr hin
      · exact h.setRow _ _ _ hr hin
    exact ⟨hrow ▸ hs.row, hcol ▸ hs.column⟩

theorem safe_terminalHandlePosition : OnScreen rely ColumnPassed terminalHandlePosition fun _ =>
    InRange := by
  intro s hs
  have hsetColumn (I : Terminal → Prop) (hI : ∀ t u w, I t → rely (.setColumn w) t u → I u)
      (hrow : ∀ t, I t → t.row.toNat < 25) : OnScreen rely I (Code.setColumn 0#32) fun _ => InRange :=
    safe_perform (fun t u => hI t u _) trivial fun t r u ht hr => by
      cases hr
      exact ⟨hrow t ht, by simp⟩
  have hincRow : OnScreen rely InRange Code.incRow fun _ => RowPassed :=
    safe_perform (fun t u ht hr => h.inRange _ _ _ hr ht) trivial fun t r u ht hr => by
      cases hr
      have hrow := ht.row
      exact ⟨by simp only [BitVec.toNat_add, BitVec.toNat_ofNat]; omega, ht.column⟩
  have hsetRow : OnScreen rely RowPassed (Code.setRow 0#32) fun _ => InRange :=
    safe_perform (fun t u ht hr => h.rowPassed (Or.inr ⟨_, rfl⟩) hr ht) trivial fun t r u ht hr => by
      cases hr
      exact ⟨by simp, ht.column⟩
  refine (safe_statics (fun t u ht hr => h.columnPassed hr ht) s hs).bind fun v t hv => ?_
  obtain ⟨ht, rfl⟩ := hv
  refine Prog.Safe.bind (M := fun _ => RowPassed) ?_ fun _ t ht => ?_
  · split
    · refine (hsetColumn (fun s => s.row.toNat < 25) (fun t u w ht hr => h.setColumn w t u hr ht)
        (fun t ht => ht) t ht.row).bind fun _ t ht => ?_
      exact (hincRow t ht).bind fun _ t ht => ht
    · next hcol =>
      have hne : t.column.toNat ≠ 80 := fun he => hcol (BitVec.eq_of_toNat_eq he)
      have hcol := ht.column
      exact ⟨by have := ht.row; omega, by omega⟩
  · refine (safe_statics (fun t u ht hr => h.rowPassed (Or.inl rfl) hr ht) t ht).bind fun v t hv => ?_
    obtain ⟨ht, rfl⟩ := hv
    split
    · refine (hsetRow t ht).bind fun _ t ht => ?_
      exact hsetColumn InRange (fun t u w ht hr => h.inRange _ _ _ hr ht) (fun t ht => ht.row) t ht
    · next hrow =>
      have hne : t.row.toNat ≠ 25 := fun he => hrow (BitVec.eq_of_toNat_eq he)
      have hrow := ht.row
      exact ⟨by omega, ht.column⟩

theorem safe_putVisible (c : Byte) : OnScreen rely InRange (Tty.putVisible c) fun _ => InRange := by
  intro s hs
  have hkeep {o : Op} {t u : Terminal} (ht : InRange t) (hr : rely o t u) : InRange u :=
    h.inRange _ _ _ hr ht
  have hstore {x y : Word} (hx : x.toNat < 80) (hy : y.toNat < 25) (color : Byte) :
      OnScreen rely InRange (terminalPutentryat c color x y) fun _ => InRange :=
    safe_perform (fun t u => hkeep) (by rw [Op.InBuffer, index_toNat hx hy]; omega) fun t r u ht hr => by
        cases hr
        exact ⟨ht.row, ht.column⟩
  have hincColumn : OnScreen rely InRange Code.incColumn fun _ => ColumnPassed :=
    safe_perform (fun t u => hkeep) trivial fun t r u ht hr => by
      cases hr
      have hcol := ht.column
      exact ⟨ht.row, by simp only [BitVec.toNat_add, BitVec.toNat_ofNat]; omega⟩
  refine (safe_statics (fun t u => hkeep) s hs).bind fun v t hv => ?_
  obtain ⟨ht, rfl⟩ := hv
  refine (hstore ht.column ht.row t.color t ht).bind fun _ t ht => ?_
  refine (hincColumn t ht).bind fun _ t ht => ?_
  exact safe_terminalHandlePosition h t ht

variable (fuel : Nat)

theorem safe_outOfFuel {α : Type} {post : α → Terminal → Prop} :
    OnScreen rely InRange (Code.outOfFuel : Code α) post := by
  intro s hs
  refine Prog.Safe.bind (M := fun _ _ => False) ?_ fun e => e.elim
  exact safe_perform (o := .outOfFuel) (fun t u ht hr => h.inRange _ _ _ hr ht) trivial
    (fun t r u ht hr => by cases hr) s hs

theorem safe_terminalClearRestOfLine :
    OnScreen rely InRange (terminalClearRestOfLine fuel) fun _ => InRange := by
  intro s hs
  refine (safe_putVisible h space s hs).bind fun _ t ht => ?_
  refine Prog.Safe.loop (I := fun _ => InRange) (fun _ s hs => safe_outOfFuel h s hs)
    (fun _ s hs => ?_) ht
  refine (safe_statics (fun t u ht hr => h.inRange _ _ _ hr ht) s hs).bind fun v t hv => ?_
  obtain ⟨ht, rfl⟩ := hv
  split
  · exact (safe_putVisible h space t ht).bind fun _ t ht => ht
  · exact ht

theorem safe_terminalPutchar (c : Byte) : OnScreen rely InRange (terminalPutchar fuel c) fun _ =>
    InRange := by
  unfold terminalPutchar
  split
  · exact safe_terminalClearRestOfLine h fuel
  · exact safe_putVisible h c

theorem safe_putchars (data : List Byte) : OnScreen rely InRange (putchars fuel data) fun _ =>
    InRange := by
  induction data with
  | nil => exact fun s hs => hs
  | cons c data ih =>
    intro s hs
    exact (safe_terminalPutchar h fuel c s hs).bind fun _ t ht => ih t ht

theorem safe_terminalWrite (data : List Byte) :
    OnScreen rely InRange (terminalWrite fuel data) fun _ => InRange := by
  have houtb (port : BitVec 16) (b : Byte) : OnScreen rely InRange (Code.outb port b) fun _ => InRange :=
    safe_perform (fun t u ht hr => h.inRange _ _ _ hr ht) trivial fun t r u ht hr => by
      cases hr
      unfold Terminal.outb
      split
      · exact ⟨ht.row, ht.column⟩
      · split
        · exact ⟨ht.row, ht.column⟩
        · exact ht
  intro s hs
  refine (safe_putchars h fuel data s hs).bind fun _ t ht => ?_
  refine (safe_statics (fun t u ht hr => h.inRange _ _ _ hr ht) t ht).bind fun v t hv => ?_
  refine (houtb _ _ t hv.1).bind fun _ t ht => (houtb _ _ t ht).bind fun _ t ht => ?_
  exact (houtb _ _ t ht).bind fun _ t ht => houtb _ _ t ht

end Safe

/-! Without interrupts. -/

section Alone

def alone (_ : Op) (_ _ : Terminal) : Prop := False

theorem alone_keeps {o : Op} {I : Terminal → Prop} (s t : Terminal) (_ : I s) (h : alone o s t) :
    I t := h.elim

theorem tame_alone : Tame alone := ⟨nofun, nofun, nofun, nofun⟩

theorem rows_toNat {d : Word} (hd : d.toNat ≤ 25) : (vgaHeight - d).toNat = 25 - d.toNat := by
  simp only [vgaHeight, BitVec.toNat_sub, BitVec.toNat_ofNat]
  omega

theorem safe_terminalScrollDown {I : Terminal → Prop} (hI : ∀ s i c, I s → I (s.poke i c)) {d : Word}
    (hd : d.toNat ≤ 25) : OnScreen alone I (terminalScrollDown d) fun _ => I := by
  have hrows := rows_toNat hd
  have hload (i : Word) (hi : i.toNat < 2000) : OnScreen alone I (Code.load i) fun _ => I :=
    safe_perform alone_keeps hi fun t r u ht hr => by
      cases hr
      exact ht
  have hstore (i : Word) (hi : i.toNat < 2000) (c : Cell) :
      OnScreen alone I (Code.store i c) fun _ => I :=
    safe_perform alone_keeps hi fun t r u ht hr => by
      cases hr
      exact hI t i c ht
  intro s hs
  refine Prog.Safe.forUp (I := fun _ => I) (fun i hi _ s hs => ?_) hs
  refine Prog.Safe.forUp (I := fun _ => I) (fun j hj _ s hs => ?_) hs
  rw [hrows] at hi
  have hi' : (BitVec.ofNat 32 i).toNat = i := by
    rw [BitVec.toNat_ofNat]
    omega
  have hj' : (BitVec.ofNat 32 j).toNat = j := by
    rw [BitVec.toNat_ofNat]
    omega
  have hid : (BitVec.ofNat 32 i + d).toNat = i + d.toNat := by
    rw [BitVec.toNat_add, hi']
    omega
  refine (hload _ ?_ s hs).bind fun c t ht => hstore _ ?_ c t ht
  · rw [index_toNat (by omega) (by omega)]
    omega
  · rw [index_toNat (by omega) (by omega)]
    omega

theorem safe_terminalNewRow :
    OnScreen alone (fun s => InRange s ∧ s.row.toNat ≠ 24) terminalNewRow fun _ => InRange := by
  intro s hs
  have hincRow : OnScreen alone (fun s => InRange s ∧ s.row.toNat ≠ 24) Code.incRow
      fun r t => InRange t ∧ r = t.row :=
    safe_perform alone_keeps trivial fun t r u ht hr => by
      cases hr
      have hrow := ht.1.row
      have hne := ht.2
      exact ⟨⟨by simp only [BitVec.toNat_add, BitVec.toNat_ofNat]; omega, ht.1.column⟩, rfl⟩
  have hdecRow : OnScreen alone (fun s => InRange s ∧ s.row = 24#32) Code.decRow fun _ => InRange :=
    safe_perform alone_keeps trivial fun t r u ht hr => by
      cases hr
      exact ⟨by simp [ht.2], ht.1.column⟩
  refine (hincRow s hs).bind fun r t ht => ?_
  obtain ⟨ht, rfl⟩ := ht
  split
  · next hrow =>
    refine (safe_terminalScrollDown (fun s i c hs => ⟨⟨hs.1.row, hs.1.column⟩, hs.2⟩) (by decide) t
      ⟨ht, hrow⟩).bind fun _ t ht => hdecRow t ht
  · exact ht

theorem run_terminalNewRow_last {s : Terminal} (hs : s.row = 24#32) :
    Prog.run exec terminalNewRow s = .ok ((), { s with row := 25#32 }) := by
  rw [terminalNewRow, Prog.run_bind_ok _ (run_incRow s), hs]
  rfl

/-- The operations tty.h declares, scrolling by 0 to 25 rows. -/
inductive Call
  | putchar (c : Byte)
  | write (data : List Byte)
  | writestring (data : List Byte)
  | handlePosition
  | newRow
  | clearRestOfLine
  | scrollDown (d : Fin 26)
  | scrollDownByAmount (d : Fin 26)

def Call.code (fuel : Nat) : Call → Code Unit
  | putchar c => terminalPutchar fuel c
  | write data => terminalWrite fuel data
  | writestring data => terminalWritestring fuel data
  | handlePosition => terminalHandlePosition
  | newRow => terminalNewRow
  | clearRestOfLine => terminalClearRestOfLine fuel
  | scrollDown d => terminalScrollDown (BitVec.ofNat 32 d.val)
  | scrollDownByAmount d => terminalScrollDownByAmount (BitVec.ofNat 32 d.val)

theorem Call.safe (fuel : Nat) (c : Call) :
    OnScreen alone (fun s => InRange s ∧ (c = newRow → s.row.toNat ≠ 24)) (c.code fuel) fun _ =>
    InRange := by
  intro s hs
  have hscroll (d : Fin 26) :
      OnScreen alone InRange (terminalScrollDown (BitVec.ofNat 32 d.val)) fun _ => InRange :=
    safe_terminalScrollDown (fun s i c hs => ⟨hs.row, hs.column⟩) (by
      rw [BitVec.toNat_ofNat]
      omega)
  cases c with
  | putchar c => exact safe_terminalPutchar tame_alone fuel c s hs.1
  | write data => exact safe_terminalWrite tame_alone fuel data s hs.1
  | writestring data => exact safe_terminalWrite tame_alone fuel _ s hs.1
  | handlePosition =>
    exact safe_terminalHandlePosition tame_alone s ⟨hs.1.row, by have := hs.1.column; omega⟩
  | newRow => exact safe_terminalNewRow s ⟨hs.1, hs.2 rfl⟩
  | clearRestOfLine => exact safe_terminalClearRestOfLine tame_alone fuel s hs.1
  | scrollDown d => exact hscroll d s hs.1
  | scrollDownByAmount d => exact hscroll d s hs.1

theorem terminalClearRestOfLine_mono {fuel fuel' : Nat} (hle : fuel ≤ fuel') {s : Terminal}
    {x : Unit × Terminal} (h : Prog.run exec (terminalClearRestOfLine fuel) s = .ok x) :
    Prog.run exec (terminalClearRestOfLine fuel') s = .ok x := by
  rw [terminalClearRestOfLine, Prog.run_bind_ok _ (run_putVisible space s)] at h ⊢
  exact Prog.run_loop_mono exec (fun s => run_outOfFuel s) hle h

theorem terminalPutchar_mono {fuel fuel' : Nat} (hle : fuel ≤ fuel') {c : Byte} {s : Terminal}
    {x : Unit × Terminal} (h : Prog.run exec (terminalPutchar fuel c) s = .ok x) :
    Prog.run exec (terminalPutchar fuel' c) s = .ok x := by
  unfold terminalPutchar at h ⊢
  split
  · next hc =>
    rw [if_pos hc] at h
    exact terminalClearRestOfLine_mono hle h
  · next hc => rwa [if_neg hc] at h

theorem terminalWrite_mono {fuel fuel' : Nat} (hle : fuel ≤ fuel') {data : List Byte} {s : Terminal}
    {x : Unit × Terminal} (h : Prog.run exec (terminalWrite fuel data) s = .ok x) :
    Prog.run exec (terminalWrite fuel' data) s = .ok x := by
  have hputchars {data : List Byte} {s : Terminal} {y : Unit × Terminal}
      (h : Prog.run exec (putchars fuel data) s = .ok y) :
      Prog.run exec (putchars fuel' data) s = .ok y := by
    induction data generalizing s with
    | nil => exact h
    | cons c data ih =>
      obtain ⟨_, t, hc, hrest⟩ := Prog.of_run_bind exec h
      rw [putchars, Prog.run_bind_ok _ (terminalPutchar_mono hle hc)]
      exact ih hrest
  obtain ⟨_, t, hp, hrest⟩ := Prog.of_run_bind exec h
  rw [terminalWrite, Prog.run_bind_ok _ (hputchars hp)]
  exact hrest

namespace Call

theorem mono {fuel fuel' : Nat} (hle : fuel ≤ fuel') {c : Call} {s : Terminal} {x : Unit × Terminal}
    (h : Prog.run exec (c.code fuel) s = .ok x) : Prog.run exec (c.code fuel') s = .ok x := by
  cases c with
  | putchar c => exact terminalPutchar_mono hle h
  | write data | writestring data => exact terminalWrite_mono hle h
  | clearRestOfLine => exact terminalClearRestOfLine_mono hle h
  | handlePosition | newRow | scrollDown d | scrollDownByAmount d => exact h

def Returns (c : Call) (s t : Terminal) : Prop := ∃ fuel, Prog.run exec (c.code fuel) s = .ok ((), t)

theorem Returns.det {c : Call} {s t u : Terminal} (ht : c.Returns s t) (hu : c.Returns s u) : t = u := by
  obtain ⟨fuel, ht⟩ := ht
  obtain ⟨fuel', hu⟩ := hu
  have ht := mono (Nat.le_max_left fuel fuel') ht
  have hu := mono (Nat.le_max_right fuel fuel') hu
  simpa using ht.symm.trans hu

/-- An operation that is not stopped by a bound. -/
def Unbounded : Op → Prop
  | .outOfFuel => False
  | _ => True

theorem exists_run {α : Type} {p : Code α} (h : Prog.All Unbounded p) (s : Terminal) :
    ∃ a t, Prog.run exec p s = .ok (a, t) := by
  refine h.run_ok (fun o s ho => ?_) s
  cases o with
  | outOfFuel => exact ho.elim
  | _ => exact ⟨_, rfl⟩

theorem unbounded_terminalScrollDown (d : Word) : Prog.All Unbounded (terminalScrollDown d) := by
  have hload (i : Word) : Prog.All Unbounded (Code.load i) := Prog.all_perform.mpr trivial
  have hstore (i : Word) (c : Cell) : Prog.All Unbounded (Code.store i c) := Prog.all_perform.mpr trivial
  exact Prog.All.forUp (fun _ _ => Prog.All.forUp (fun _ _ => (hload _).bind fun _ => hstore _ _) 80
    ()) _ ()

theorem exists_returns (c : Call) {s : Terminal} (hs : InRange s) : ∃ t, c.Returns s t := by
  have hscroll (d : Fin 26) : ∃ t, Prog.run exec (terminalScrollDown (BitVec.ofNat 32 d.val)) s =
      .ok ((), t) := by
    obtain ⟨_, t, h⟩ := exists_run (unbounded_terminalScrollDown _) s
    exact ⟨t, h⟩
  cases c with
  | putchar c => exact ⟨_, 80, run_terminalPutchar (Nat.le_refl 80) hs c⟩
  | write data => exact ⟨_, 80, run_terminalWrite (Nat.le_refl 80) hs data⟩
  | writestring data => exact ⟨_, 80, run_terminalWrite (Nat.le_refl 80) hs _⟩
  | handlePosition => exact ⟨_, 80, run_terminalHandlePosition s⟩
  | newRow =>
    have hincRow : Prog.All Unbounded Code.incRow := Prog.all_perform.mpr trivial
    have hdecRow : Prog.All Unbounded Code.decRow := Prog.all_perform.mpr trivial
    have hnewRow : Prog.All Unbounded terminalNewRow := by
      refine hincRow.bind fun row => ?_
      split
      · exact (unbounded_terminalScrollDown _).bind fun _ => hdecRow
      · trivial
    obtain ⟨_, t, h⟩ := exists_run hnewRow s
    exact ⟨t, 80, h⟩
  | clearRestOfLine => exact ⟨_, 80, run_terminalClearRestOfLine (Nat.le_refl 80) hs⟩
  | scrollDown d | scrollDownByAmount d =>
    obtain ⟨t, h⟩ := hscroll d
    exact ⟨t, 80, h⟩

end Call

/-- Each call in turn returns, within the screen,
with every access to the buffer within the screen. -/
def StaysOnScreen (s : Terminal) : List Call → Prop
  | [] => True
  | c :: cs => (∀ fuel, Prog.Performs exec Op.InBuffer (c.code fuel) s) ∧
      ∃ t, c.Returns s t ∧ InRange t ∧ StaysOnScreen t cs

/-- Each `terminal_new_row` is called above the last row. -/
def NewRowsAbove (s : Terminal) : List Call → Prop
  | [] => True
  | c :: cs => (c = .newRow → s.row.toNat ≠ 24) ∧ ∀ t, c.Returns s t → NewRowsAbove t cs

theorem staysOnScreen_iff {s : Terminal} (hs : InRange s) (cs : List Call) :
    StaysOnScreen s cs ↔ NewRowsAbove s cs := by
  induction cs generalizing s with
  | nil => exact Iff.rfl
  | cons c cs ih =>
    constructor
    · intro h
      obtain ⟨-, t, hr, ht, hrest⟩ := h
      refine ⟨?_, fun u hu => ?_⟩
      · rintro rfl hrow
        have hlast : Call.newRow.Returns s { s with row := 25#32 } :=
          ⟨80, run_terminalNewRow_last (BitVec.eq_of_toNat_eq hrow)⟩
        have hlt := ht.row
        rw [hr.det hlast] at hlt
        exact absurd hlt (by decide : ¬ (25#32).toNat < 25)
      · rw [← hr.det hu]
        exact (ih ht).mp hrest
    · intro h
      obtain ⟨hrow, hrest⟩ := h
      obtain ⟨t, fuel, hr⟩ := c.exists_returns hs
      have ht : InRange t := (c.safe fuel s ⟨hs, hrow⟩).post hr
      exact ⟨fun fuel => (c.safe fuel s ⟨hs, hrow⟩).performs, t, ⟨fuel, hr⟩, ht,
        (ih ht).mpr (hrest t ⟨fuel, hr⟩)⟩

theorem exists_run_terminalInitialize (s : Terminal) :
    ∃ s₀, Prog.run exec terminalInitialize s = .ok ((), s₀) ∧ s₀.row = 0#32 ∧ s₀.column = 0#32 := by
  let clear : Code Unit := Prog.forUp 25 () fun y _ => Prog.forUp 80 () fun x _ => do
    let v ← Code.statics
    Code.store (BitVec.ofNat 32 y * vgaWidth + BitVec.ofNat 32 x) (vgaEntry space v.color)
  have hstatics : Prog.All Call.Unbounded Code.statics := Prog.all_perform.mpr trivial
  have hstore (i : Word) (c : Cell) : Prog.All Call.Unbounded (Code.store i c) :=
    Prog.all_perform.mpr trivial
  have hclear : Prog.All Call.Unbounded clear := Prog.All.forUp (fun _ _ => Prog.All.forUp (fun _ _ =>
    hstatics.bind fun _ => hstore _ _) 80 ()) 25 ()
  let s₁ : Terminal := { s with row := 0#32, column := 0#32, color := vgaEntryColor 7#8 0#8 }
  obtain ⟨_, t, hr⟩ := Call.exists_run hclear s₁
  refine ⟨t, ?_, ?_⟩
  · rw [terminalInitialize, Prog.run_bind_ok _ (run_setRow s _), Prog.run_bind_ok _ (run_setColumn _ _),
      Prog.run_bind_ok _ (run_setColor _ _)]
    exact hr
  let AtStart (s : Terminal) : Prop := s.row = 0#32 ∧ s.column = 0#32
  have hkeep (i : Word) (c : Cell) (hi : i.toNat < 2000) :
      OnScreen alone AtStart (Code.store i c) fun _ => AtStart :=
    safe_perform alone_keeps hi fun t r u ht hr => by
      cases hr
      exact ht
  have hsafe : OnScreen alone AtStart clear fun _ => AtStart := by
    intro s hs
    refine Prog.Safe.forUp (I := fun _ => AtStart) (fun y hy _ s hs => ?_) hs
    refine Prog.Safe.forUp (I := fun _ => AtStart) (fun x hx _ s hs => ?_) hs
    refine (safe_statics alone_keeps s hs).bind fun v t hv => hkeep _ _ ?_ t hv.1
    rw [index_toNat (by rw [BitVec.toNat_ofNat]; omega) (by rw [BitVec.toNat_ofNat]; omega)]
    simp only [BitVec.toNat_ofNat]
    omega
  exact (hsafe s₁ ⟨rfl, rfl⟩).post hr

theorem rows_kept_iff (s : Terminal) : ∃ s₀, Prog.run exec terminalInitialize s = .ok ((), s₀) ∧
    ∀ cs, StaysOnScreen s₀ cs ↔ NewRowsAbove s₀ cs := by
  obtain ⟨s₀, hr, hrow, hcol⟩ := exists_run_terminalInitialize s
  exact ⟨s₀, hr, staysOnScreen_iff ⟨by simp [hrow], by simp [hcol]⟩⟩

/-- Twenty-four newlines lead to the last row, from which a new row leaves the screen. -/
theorem newRow_leaves_screen : ∃ s₀, Prog.run exec terminalInitialize startTerminal = .ok ((), s₀) ∧
    ¬ StaysOnScreen s₀ [.write (List.replicate 24 newline), .newRow] := by
  obtain ⟨s₀, hr, hrow, hcol⟩ := exists_run_terminalInitialize startTerminal
  have hs₀ : InRange s₀ := ⟨by simp [hrow], by simp [hcol]⟩
  refine ⟨s₀, hr, fun h => ?_⟩
  obtain ⟨t, hrun, ht⟩ := exists_wrote hs₀ (Nat.le_refl 80) (List.replicate 24 newline)
  have hreturns : Call.Returns (.write (List.replicate 24 newline)) s₀ t := ⟨80, hrun⟩
  have hstart : s₀.ring.pos.val = 80 * 0 := by simp [ring_pos hs₀, pos, hrow, hcol]
  have hpos : t.ring.pos.val = 80 * ((0 + 24) % 25) :=
    ht.ring ▸ newlines_pos s₀.color 24 (by decide) hstart
  have hlast : t.row.toNat = 24 := by
    have hc := ht.inRange.column
    rw [ring_pos ht.inRange, pos] at hpos
    omega
  have habove := ((staysOnScreen_iff hs₀ _).mp h).2 t hreturns
  exact habove.1 rfl hlast

end Alone

end PekOS.Tty
