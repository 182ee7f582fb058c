import PekOS.TerminalRows

/-! Printing while interrupt handlers print: between two statements of the main
context a handler may run a whole `terminal_write`. -/

namespace PekOS.Tty

open OpTree Terminal

section Handler

/-- The cells from the row's end on that are still on the screen, for `n` more bytes. -/
structure Beyond (r : Word) (n : Nat) (s : Terminal) : Prop where
  row_eq : s.row = r
  row : r.toNat < 25
  column : 80 ≤ s.column.toNat
  room : r.toNat * 80 + s.column.toNat + n ≤ 2000

theorem safe_putVisible_beyond (c : Byte) (row : Word) (n : Nat) :
    OnScreen alone (Beyond row (n + 1)) (Tty.putVisible c) fun _ => Beyond row n := by
  intro s hs
  have hstatics (I : Terminal → Prop) : OnScreen alone I Code.statics fun v t => I t ∧ v = t.toStatics :=
    safe_statics alone_keeps
  refine (hstatics _ s hs).bind fun v t hv => ?_
  obtain ⟨ht, rfl⟩ := hv
  have hroom := ht.room
  have hrow := ht.row
  have hindex : (t.row * vgaWidth + t.column).toNat < 2000 := by
    rw [ht.row_eq]
    simp only [vgaWidth, BitVec.toNat_add, BitVec.toNat_mul, BitVec.toNat_ofNat]
    omega
  have hstore : OnScreen alone (Beyond row (n + 1)) (terminalPutentryat c t.color t.column t.row)
      fun _ => Beyond row (n + 1) :=
    safe_perform alone_keeps hindex fun t r u ht hr => by
      cases hr
      exact ⟨ht.row_eq, ht.row, ht.column, ht.room⟩
  have hincColumn : OnScreen alone (Beyond row (n + 1)) Code.incColumn
      fun _ t => Beyond row n t ∧ 80 < t.column.toNat :=
    safe_perform alone_keeps trivial fun t r u ht hr => by
      cases hr
      have hroom := ht.room
      have hcol := ht.column
      have hc : (t.column + 1#32).toNat = t.column.toNat + 1 := by
        rw [BitVec.toNat_add, BitVec.toNat_ofNat]
        omega
      exact ⟨⟨ht.row_eq, ht.row, by simp only [hc]; omega, by simp only [hc]; omega⟩, by
        simp only [hc]; omega⟩
  refine (hstore t ht).bind fun _ t ht => (hincColumn t ht).bind fun _ t ht => ?_
  refine (hstatics (fun t => Beyond row n t ∧ 80 < t.column.toNat) t ht).bind fun v t hv => ?_
  obtain ⟨ht, rfl⟩ := hv
  refine Prog.Safe.bind (M := fun _ => Beyond row n) ?_ fun _ t ht => ?_
  · split
    · next hc =>
      have h80 : t.column.toNat = 80 := congrArg BitVec.toNat hc
      have := ht.2
      omega
    · exact ht.1
  · refine (hstatics (Beyond row n) t ht).bind fun v t hv => ?_
    obtain ⟨ht, rfl⟩ := hv
    split
    · next hr =>
      have h25 : t.row.toNat = 25 := congrArg BitVec.toNat hr
      have hrow := ht.row
      rw [ht.row_eq] at h25
      omega
    · exact ht

theorem safe_putchars_beyond (fuel : Nat) {data : List Byte} (hdata : newline ∉ data) (row : Word) :
    OnScreen alone (Beyond row data.length) (putchars fuel data) fun _ => Beyond row 0 := by
  induction data with
  | nil => exact fun s hs => hs
  | cons c data ih =>
    intro s hs
    have hc : c ≠ newline := fun he => hdata (he ▸ List.mem_cons_self)
    have hfirst : OnScreen alone (Beyond row (data.length + 1)) (terminalPutchar fuel c)
        fun _ => Beyond row data.length := by
      rw [terminalPutchar, if_neg hc]
      exact safe_putVisible_beyond c row data.length
    exact (hfirst s hs).bind fun _ t ht => ih (fun hm => hdata (List.mem_cons_of_mem c hm)) t ht

/-- The end of `terminal_write` touches nothing but the ports. -/
theorem safe_showCursor {I : Terminal → Prop} (hI : ∀ s port b, I s → I (s.outb port b)) :
    OnScreen alone I (do
      let v ← Code.statics
      updateCursor v.column v.row) fun _ => I := by
  have houtb (port : BitVec 16) (b : Byte) : OnScreen alone I (Code.outb port b) fun _ => I :=
    safe_perform alone_keeps trivial fun t r u ht hr => by
      cases hr
      exact hI t port b ht
  intro s hs
  refine (safe_statics alone_keeps s hs).bind fun v t hv => ?_
  refine (houtb _ _ t hv.1).bind fun _ t ht => (houtb _ _ t ht).bind fun _ t ht => ?_
  exact (houtb _ _ t ht).bind fun _ t ht => houtb _ _ t ht

theorem outb_row (s : Terminal) (port : BitVec 16) (b : Byte) : (s.outb port b).row = s.row := by
  unfold Terminal.outb
  split
  · rfl
  · split <;> rfl

theorem outb_column (s : Terminal) (port : BitVec 16) (b : Byte) : (s.outb port b).column = s.column := by
  unfold Terminal.outb
  split
  · rfl
  · split <;> rfl

theorem safe_terminalWrite_nil (fuel : Nat) (row column : Word) :
    OnScreen alone (fun s => s.row = row ∧ s.column = column) (terminalWrite fuel [])
      fun _ s => s.row = row ∧ s.column = column := by
  intro s hs
  refine safe_showCursor (fun s port b hs => ?_) s hs
  rw [outb_row, outb_column]
  exact hs

theorem safe_terminalWrite_beyond (fuel : Nat) {data : List Byte} (hdata : newline ∉ data) (row : Word) :
    OnScreen alone (Beyond row data.length) (terminalWrite fuel data) fun _ s => s.row = row := by
  intro s hs
  refine (safe_putchars_beyond fuel hdata row s hs).bind fun _ t ht => ?_
  exact safe_showCursor (fun s port b hs => (outb_row s port b).trans hs) t ht.row_eq

end Handler

/-- A handler prints `data`, its loops bounded by `fuel`. -/
structure Printing where
  fuel : Nat
  data : List Byte

def Printing.code (i : Printing) : Code Unit := terminalWrite i.fuel i.data

/-- Row and column are on the screen when the handler prints, or it prints
nothing, or the main context is about to reset the column and the bytes, none
of them a newline, fit into the cells that follow. -/
def Tolerated (next : Option Op) (s : Terminal) (i : Printing) : Prop :=
  InRange s ∨ i.data = [] ∨
    (∃ w, next = some (.setColumn w)) ∧ newline ∉ i.data ∧ Beyond s.row i.data.length s

theorem Tolerated.performs {next : Option Op} {s : Terminal} {i : Printing} (h : Tolerated next s i) :
    Prog.Performs exec Op.InBuffer i.code s := by
  rcases h with h | h | ⟨-, hdata, h⟩
  · exact (safe_terminalWrite tame_alone i.fuel i.data s h).performs
  · rw [Printing.code, h]
    exact (safe_terminalWrite_nil i.fuel s.row s.column s ⟨rfl, rfl⟩).performs
  · exact (safe_terminalWrite_beyond i.fuel hdata s.row s h).performs

theorem tame_handled : Tame (Prog.Handled exec Printing.code Tolerated) := by
  have hinRange {i : Printing} {s t : Terminal} (hr : Prog.run exec i.code s = .ok ((), t))
      (hs : InRange s) :
      InRange t := (safe_terminalWrite tame_alone i.fuel i.data s hs).post hr
  have hempty {i : Printing} {s t : Terminal} (hr : Prog.run exec i.code s = .ok ((), t))
      (hi : i.data = []) : t.row = s.row ∧ t.column = s.column := by
    rw [Printing.code, hi] at hr
    exact (safe_terminalWrite_nil i.fuel s.row s.column s ⟨rfl, rfl⟩).post hr
  refine ⟨fun o s t h hs => ?_, fun s t h hs => ?_, fun w s t h hs => ?_, fun w s t h hs => ?_⟩
  · obtain ⟨i, -, hr⟩ := h
    exact hinRange hr hs
  · obtain ⟨i, hg | hg | ⟨⟨w, hw⟩, -⟩, hr⟩ := h
    · exact absurd hg hs
    · exact hempty hr hg
    · cases hw
  · obtain ⟨i, hg | hg | ⟨⟨w, hw⟩, -⟩, hr⟩ := h
    · exact absurd hg hs
    · exact hempty hr hg
    · cases hw
  · obtain ⟨i, hg | hg | ⟨-, hdata, hg⟩, hr⟩ := h
    · exact (hinRange hr hg).row
    · exact (hempty hr hg).1 ▸ hs
    · rw [(safe_terminalWrite_beyond i.fuel hdata s.row s hg).post hr]
      exact hs

/-- What the main context calls. -/
inductive MainCall : Code Unit → Prop
  | write (fuel : Nat) (data : List Byte) : MainCall (terminalWrite fuel data)
  | putchar (fuel : Nat) (c : Byte) : MainCall (terminalPutchar fuel c)

abbrev PrintStep := Prog.Interrupted exec MainCall Printing.code

abbrev PrintEvent := Prog.Event Op Printing Op.Res

theorem preempted_onScreen {s : Terminal} (hs : InRange s) {es : List PrintEvent}
    {c : Code Unit × Terminal}
    (h : Labelled.Run (Labelled.Guarded (Prog.Admitted Tolerated) PrintStep) (Prog.ret (), s) es c) :
    (∀ e ∈ es, ∀ o ∈ e.ops, o.InBuffer) ∧ (c.1 = Prog.ret () → InRange c.2) := by
  have hsafe := Prog.Interrupted.safe (G := Op.InBuffer) (I := InRange) ?_ ?_ ?_ hs h
  · refine ⟨hsafe.1, fun hidle => ?_⟩
    obtain ⟨p, t⟩ := c
    obtain rfl : p = Prog.ret () := hidle
    exact hsafe.2
  · intro p s hp hs
    cases hp with
    | write fuel data => exact safe_terminalWrite tame_handled fuel data s hs
    | putchar fuel c => exact safe_terminalPutchar tame_handled fuel c s hs
  · intro i s t _ hs hr
    exact (safe_terminalWrite tame_alone i.fuel i.data s hs).post hr
  · intro o s i hi
    exact hi.performs

/-- Between `terminal_column++` and the test that follows it. -/
def incremented (c : Byte) (s : Terminal) : Terminal :=
  { s.poke (s.row * vgaWidth + s.column) (vgaEntry c s.color) with column := s.column + 1#32 }

theorem exists_run_incremented {g : Option Op → Terminal → Printing → Prop} {c : Byte} (hc : c ≠ newline)
    (s : Terminal) : ∃ es : List PrintEvent, Labelled.Run (Labelled.Guarded (Prog.Admitted g) PrintStep)
      (Prog.ret (), s) es (terminalHandlePosition, incremented c s) := by
  let first : Code Unit := do
    let v ← Code.statics
    terminalPutentryat c v.color v.column v.row
    Code.incColumn
  have hcode : terminalPutchar 0 c = first >>= fun _ => terminalHandlePosition := if_neg hc
  have hcall : PrintStep (Prog.ret (), s) (.call (terminalPutchar 0 c)) (first >>=
      fun _ => terminalHandlePosition, s) :=
    hcode ▸ .call (MainCall.putchar 0 c)
  have hr : Prog.run exec first s = .ok ((), incremented c s) := rfl
  have hguarded : Labelled.Guarded (Prog.Admitted g) PrintStep (Prog.ret (), s)
      (.call (terminalPutchar 0 c)) (first >>= fun _ => terminalHandlePosition, s) := ⟨trivial, hcall⟩
  obtain ⟨es, hrun⟩ : ∃ es : List PrintEvent, Labelled.Run (Labelled.Guarded (Prog.Admitted g) PrintStep)
      (first >>= fun _ => terminalHandlePosition, s) es (terminalHandlePosition, incremented c s) :=
    Prog.Interrupted.exists_run hr
  exact ⟨_, (Labelled.Run.single hguarded).append hrun⟩

/-- A handler prints a byte there, and `terminal_putchar` goes on to its end. -/
theorem preempted_onScreen_putchar : ∃ es : List PrintEvent, ∃ t : Terminal,
    Labelled.Run (Labelled.Guarded (Prog.Admitted Tolerated) PrintStep) (Prog.ret (), startTerminal) es
      (Prog.ret (), t) ∧ (∃ i ops, Prog.Event.interrupt i ops ∈ es) ∧
      t.buffer 0#32 = vgaEntry 0x61#8 7#8 ∧
      t.buffer 1#32 = vgaEntry 0x62#8 7#8 ∧ t.column = 2#32 ∧ (∀ e ∈ es, ∀ o ∈ e.ops, o.InBuffer) ∧
      InRange t := by
  let i : Printing := ⟨80, [0x62#8]⟩
  let s := incremented 0x61#8 startTerminal
  let t := s.write [0x62#8]
  have hs : InRange s := ⟨by decide, by decide⟩
  obtain ⟨es, hrun⟩ := exists_run_incremented (g := Tolerated) (c := 0x61#8) (by decide) startTerminal
  have hr : Prog.run exec i.code s = .ok ((), t) := run_terminalWrite (Nat.le_refl 80) hs _
  have hinterrupt : Labelled.Guarded (Prog.Admitted Tolerated) PrintStep (terminalHandlePosition, s)
      (.interrupt i _) (terminalHandlePosition, t) := ⟨Or.inl hs, .interrupt hr⟩
  have hrest : Prog.run exec terminalHandlePosition t = .ok ((), t) := run_terminalHandlePosition t
  obtain ⟨es', hrun'⟩ :
      ∃ es : List PrintEvent, Labelled.Run (Labelled.Guarded (Prog.Admitted Tolerated) PrintStep)
      (terminalHandlePosition >>= Prog.ret, t) es (Prog.ret (), t) := Prog.Interrupted.exists_run hrest
  rw [Prog.bind_ret] at hrun'
  have hall := (hrun.snoc hinterrupt).append hrun'
  obtain ⟨hops, hidle⟩ := preempted_onScreen startTerminal_inRange hall
  refine ⟨_, t, hall, ⟨i, (Prog.trace exec i.code s).map fun x => x.1, ?_⟩, rfl, rfl, rfl, hops,
    hidle rfl⟩
  simp only [List.mem_append, List.mem_singleton, true_or, or_true]

/-- A handler prints a byte where the row has just been filled. -/
theorem exists_interrupted_putchar {c : Byte} (hc : c ≠ newline) (s : Terminal) :
    ∃ es : List PrintEvent, ∃ d : Code Unit × Terminal, Labelled.Run PrintStep (Prog.ret (), s) es d ∧
      ∃ e ∈ es, .store (s.row * vgaWidth + (s.column + 1#32)) (vgaEntry c s.color) ∈ e.ops := by
  let i : Printing := ⟨0, [c]⟩
  let t := incremented c s
  have hcode : terminalPutchar 0 c = Tty.putVisible c := if_neg hc
  obtain ⟨es, hrun⟩ := exists_run_incremented (g := fun _ _ _ => True) hc s
  have hr : Prog.run exec i.code t = .ok ((), (t.putVisible c).moveCursor) := by
    have hputchars : Prog.run exec (putchars 0 [c]) t = .ok ((), t.putVisible c) := by
      rw [putchars, hcode, Prog.run_bind_ok _ (run_putVisible c t)]
      rfl
    rw [Printing.code, terminalWrite, Prog.run_bind_ok _ hputchars, Prog.run_bind_ok _ (run_statics _),
      run_updateCursor]
    rfl
  have hinterrupt : PrintStep (terminalHandlePosition, t) (.interrupt i _) (terminalHandlePosition, _) :=
    .interrupt hr
  refine ⟨_, _, hrun.unguard.snoc hinterrupt, .interrupt i _,
    List.mem_append_right _ (List.mem_singleton.mpr rfl), ?_⟩
  rw [Prog.Event.ops, Printing.code, terminalWrite, putchars, hcode]
  exact List.mem_cons_of_mem _ List.mem_cons_self

/-- The terminal at its last cell. -/
def lastCell : Terminal := { startTerminal with row := 24#32, column := 79#32 }

theorem preempted_offScreen : InRange lastCell ∧ ∃ es : List PrintEvent, ∃ c : Code Unit × Terminal,
    Labelled.Run PrintStep (Prog.ret (), lastCell) es c ∧ ¬ ∀ e ∈ es, ∀ o ∈ e.ops, o.InBuffer := by
  obtain ⟨es, c, hrun, e, he, ho⟩ := exists_interrupted_putchar (c := 0x61#8) (by decide) lastCell
  refine ⟨⟨by decide, by decide⟩, es, c, hrun, fun h => ?_⟩
  exact absurd (h e he _ ho)
    (show ¬ (lastCell.row * vgaWidth + (lastCell.column + 1#32)).toNat < 2000 by decide)

end PekOS.Tty
