import PekOS.Ps2Session

/-! The flush of the controller's output buffer, and the configuration byte
that `init_ps2` reads after it. -/

namespace PekOS

open OpTree Code

/-- `init_ps2` up to the end of the flush. -/
def disableAndFlush (fuel : Nat) : Code Unit := do
  outb 0x64#16 0xAD#8
  outb 0x64#16 0xA7#8
  flushPs2 fuel

/-- The first configuration byte. -/
def readPs2Config (fuel : Nat) : Code Byte := do
  sendPs2Command fuel 0x20#8
  readPs2Data fuel

theorem startPs2_starts (fuel : Nat) :
    ∃ rest, startPs2 fuel = disableAndFlush fuel >>= fun _ => readPs2Config fuel >>= rest := by
  simp only [disableAndFlush, readPs2Config, Prog.bind_assoc]
  exact ⟨_, rfl⟩

namespace Session

variable {ch : Channels}

/-- The bytes that wait to be read are there to be read. -/
structure Ready (s : Session) : Prop where
  wait : s.desk.output ≠ [] → s.wait = 0
  delays : ∀ i, i + 1 < s.desk.output.length → s.delays i = 0

/-- What the flush leaves: it stops behind the first byte that is 0. -/
def leftover : List (Byte × Nat) → List (Byte × Nat)
  | [] => []
  | (b, _) :: output => if b = 0#8 then output else leftover output

theorem leftover_eq_nil_iff (output : List (Byte × Nat)) :
    leftover output = [] ↔ ∀ b ∈ (output.map (·.1)).dropLast, b ≠ 0#8 := by
  induction output with
  | nil => simp [leftover]
  | cons x output ih =>
    obtain ⟨b, command⟩ := x
    cases output with
    | nil => simp [leftover]
    | cons y output =>
      rw [List.map_cons, List.map_cons, List.dropLast_cons_cons, List.forall_mem_cons, leftover,
        ← List.map_cons, ← ih]
      by_cases hb : b = 0#8
      · simp [hb]
      · simp [hb]

theorem Ready.take {s : Session} (h : s.Ready) {b : Byte} {command : Nat} {output : List (Byte × Nat)}
    (ho : s.desk.output = (b, command) :: output) :
    s.status = (1#8, s) ∧ ∃ t, s.take = (b, t) ∧ t.Ready ∧ t.desk.output = output ∧
    t.desk.config = s.desk.config := by
  have hne : s.desk.output ≠ [] := by simp [ho]
  have hwait := h.wait hne
  refine ⟨by rw [status, if_neg hne, if_pos hwait], ?_⟩
  rw [Session.take, if_neg (fun h => h hwait), ho]
  refine ⟨_, rfl, ⟨fun hrest => ?_, fun i hi => ?_⟩, rfl, rfl⟩
  · refine h.delays 0 ?_
    rw [ho]
    exact Nat.succ_lt_succ (List.length_pos_of_ne_nil hrest)
  · refine h.delays (i + 1) ?_
    rw [ho]
    exact Nat.succ_lt_succ hi

theorem flushPs2_settles (ch : Channels) {s : Session} (h : s.Ready) :
    ∃ t, Prog.Settles (exec ch) flushPs2 s () t ∧ t.desk.output = leftover s.desk.output ∧
      t.desk.config = s.desk.config := by
  generalize ho : s.desk.output = output
  induction output generalizing s with
  | nil =>
    refine ⟨s, ⟨1, fun fuel hfuel => ?_⟩, ho, rfl⟩
    obtain ⟨n, rfl⟩ : ∃ n, fuel = n + 1 := ⟨fuel - 1, by omega⟩
    have hstatus : Prog.run (exec ch) (inb 0x64#16) s = .ok (0#8, s) := by
      have hzero : s.status = (0#8, s) := if_pos ho
      exact congrArg _ hzero
    rw [flushPs2, Prog.loop, Prog.bind_assoc, Prog.run_bind_ok _ hstatus]
    rfl
  | cons x output ih =>
    obtain ⟨b, command⟩ := x
    obtain ⟨hstatus, u, htake, hu, houtput, hconfig⟩ := h.take ho
    have hstatus : Prog.run (exec ch) (inb 0x64#16) s = .ok (1#8, s) := congrArg _ hstatus
    have htake : Prog.run (exec ch) (inb 0x60#16) s = .ok (b, u) := congrArg _ htake
    by_cases hb : b = 0#8
    · refine ⟨u, ⟨1, fun fuel hfuel => ?_⟩, ?_, hconfig⟩
      · obtain ⟨n, rfl⟩ : ∃ n, fuel = n + 1 := ⟨fuel - 1, by omega⟩
        rw [flushPs2, Prog.loop, Prog.bind_assoc, Prog.run_bind_ok _ hstatus, if_neg (by decide),
          Prog.bind_assoc, Prog.run_bind_ok _ htake, if_pos hb]
        rfl
      · rw [houtput, leftover, if_pos hb]
    · obtain ⟨t, ⟨n, ht⟩, hleft, hsame⟩ := ih hu houtput
      refine ⟨t, ⟨n + 1, fun fuel hfuel => ?_⟩, ?_, hsame.trans hconfig⟩
      · obtain ⟨m, rfl⟩ : ∃ m, fuel = m + 1 := ⟨fuel - 1, by omega⟩
        rw [flushPs2, Prog.loop, Prog.bind_assoc, Prog.run_bind_ok _ hstatus, if_neg (by decide),
          Prog.bind_assoc, Prog.run_bind_ok _ htake, if_neg hb]
        exact ht m (by omega)
      · rw [hleft, leftover, if_neg hb]

theorem disableAndFlush_settles (ch : Channels) {s : Session} (h : s.Ready) :
    ∃ t, Prog.Settles (exec ch) disableAndFlush s () t ∧ t.desk.output = leftover s.desk.output := by
  obtain ⟨t, ht, hout, -⟩ := flushPs2_settles ch
    (s := { s with desk := (s.desk.command ch 0xAD#8).command ch 0xA7#8 }) ⟨h.wait, h.delays⟩
  refine ⟨t, ?_, hout⟩
  obtain ⟨n, hn⟩ := ht
  exact ⟨n, fun fuel hfuel => hn fuel hfuel⟩

theorem readPs2Config_settles {s : Session} (h : s.desk.output = []) :
    ∃ t, Prog.Settles (exec ch) readPs2Config s s.desk.config t := by
  have hout : (s.desk.command ch 0x20#8).output = (s.desk.config, s.desk.sent + 1) :: [] := by
    show s.desk.output ++ [(s.desk.config, s.desk.sent + 1)] = _
    rw [h]
    rfl
  have hlead : Leads ch readPs2Config s.desk s.desk.config _ :=
    (Leads.sendPs2Command 0x20#8 s.desk).bind (q := fun fuel _ => readPs2Data fuel)
      (Leads.readPs2Data hout)
  obtain ⟨t, -, ht⟩ := hlead s rfl
  exact ⟨t, ht⟩

/-- The flush leaves the output buffer empty, and what is read after command 0x20 is the
controller's configuration byte. -/
def Flushes (ch : Channels) (s : Session) : Prop :=
  ∃ t, Prog.Settles (exec ch) disableAndFlush s () t ∧ t.desk.output = [] ∧
    ∃ u, Prog.Settles (exec ch) readPs2Config t t.desk.config u

/-- A byte that is 0 ends the flush, whatever stands behind it. -/
theorem flushes_iff (ch : Channels) {s : Session} (h : s.Ready) :
    Flushes ch s ↔ ∀ b ∈ (s.desk.output.map (·.1)).dropLast, b ≠ 0#8 := by
  obtain ⟨t, ht, hout⟩ := disableAndFlush_settles ch h
  rw [← leftover_eq_nil_iff, ← hout]
  constructor
  · rintro ⟨t', ht', hempty, -⟩
    rwa [ht.unique ht']
  · intro hempty
    exact ⟨t, ht, hempty, readPs2Config_settles hempty⟩

/-- A controller with scan codes that have not been read. -/
def unread (output : List (Byte × Nat)) : Session where
  desk := ⟨Machine.uniform, 0x47#8, none, output, 0, 0⟩
  wait := 0
  delays := fun _ => 0

theorem unread_ready (output : List (Byte × Nat)) : (unread output).Ready :=
  ⟨fun _ => rfl, fun _ _ => rfl⟩

theorem flushes_iff_scanCodes : Flushes ⟨.mouse, id⟩ (unread [(0x1E#8, 0), (0x9E#8, 0)]) ↔
    ∀ b ∈ [0x1E#8, 0x9E#8].dropLast, b ≠ 0#8 :=
  flushes_iff ⟨.mouse, id⟩ (unread_ready [(0x1E#8, 0), (0x9E#8, 0)])

/-- The third byte of a mouse packet is left over if the second is 0. -/
theorem mouse_packet_left : ¬ Flushes ⟨.mouse, id⟩ (unread [(0x08#8, 0), (0x00#8, 0), (0x05#8, 0)]) := by
  rintro ⟨t, ht, hempty, -⟩
  obtain ⟨u, hu, hout⟩ :=
    disableAndFlush_settles ⟨.mouse, id⟩ (unread_ready [(0x08#8, 0), (0x00#8, 0), (0x05#8, 0)])
  rw [ht.unique hu, hout] at hempty
  exact absurd hempty (by decide)

end Session

end PekOS
