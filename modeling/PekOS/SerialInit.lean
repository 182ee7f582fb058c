import PekOS.SerialSessions

/-! `init_serial`, from whatever the firmware has left in the UART. -/

namespace PekOS

open OpTree Code Uart16550

namespace Serial

/-- The UART when the FIFOs have been cleared, and when the test byte has been written. -/
def Com1.programmed (s : Com1) : Com1 :=
  (((((s.write 1#3 0x00#8).write 3#3 0x80#8).write 0#3 baudRate).write 1#3 0x00#8).write 3#3
    0x03#8).write 2#3 0xC7#8

def Com1.looped (s : Com1) : Com1 := ((s.programmed.write 4#3 0x0B#8).write 4#3 0x1E#8).write 0#3 0xAE#8

/-- The registers after `init_serial`, up to the modem control register. If the divisor latch was
selected before, the first word goes there, and the interrupts stay enabled as they were. -/
def programming (r : Registers) (mcr : Byte) : Registers where
  ier := if r.dlab then r.ier else 0x00#8
  fcr := 0xC7#8
  lcr := 0x03#8
  mcr := mcr
  dll := baudRate
  dlm := 0x00#8

/-- What comes in after the FIFOs have been cleared and before the test. -/
def Com1.early (s : Com1) : List Byte :=
  (if s.uart.regs.loopback then [] else Uart.arrivals (s.line 6)) ++ Uart.arrivals (s.line 7)

/-- The byte the test reads: the oldest there is. -/
def Com1.answer (s : Com1) : Byte :=
  ((s.early ++ if .shift ∈ s.line 9 then [0xAE#8] else []).head?).getD s.uart.buffer

/-- The test byte, if it is still to be sent when the loop is opened. -/
def Com1.stray (s : Com1) : List Byte := if .shift ∈ s.line 9 ++ s.line 10 then [] else [0xAE#8]

section Programming

variable (s : Com1)

theorem run_testSerial : Prog.run Com1.exec testSerial s = .ok (s.looped.read 0#3) := by
  refine (Prog.run_bind_ok _ (run_outb (o := 1#3) (by decide) _ _)).trans ?_
  refine (Prog.run_bind_ok _ (run_outb (o := 3#3) (by decide) _ _)).trans ?_
  refine (Prog.run_bind_ok _ (run_outb (o := 0#3) (by decide) _ _)).trans ?_
  refine (Prog.run_bind_ok _ (run_outb (o := 1#3) (by decide) _ _)).trans ?_
  refine (Prog.run_bind_ok _ (run_outb (o := 3#3) (by decide) _ _)).trans ?_
  refine (Prog.run_bind_ok _ (run_outb (o := 2#3) (by decide) _ _)).trans ?_
  refine (Prog.run_bind_ok _ (run_outb (o := 4#3) (by decide) _ _)).trans ?_
  refine (Prog.run_bind_ok _ (run_outb (o := 4#3) (by decide) _ _)).trans ?_
  refine (Prog.run_bind_ok _ (run_outb (o := 0#3) (by decide) _ _)).trans ?_
  exact run_inb (o := 0#3) (by decide) _

theorem write_lcr (v : Byte) : (s.write 3#3 v).uart.regs = { s.uart.regs with lcr := v } ∧
    Uart.Drained s.uart (s.write 3#3 v).uart := by
  have hregs := pass_regs s
  refine ⟨by rw [← hregs]; rfl, (Uart.Drained.events s.uart (s.line 0)).trans ?_⟩
  exact .of_eq rfl rfl rfl

theorem write_ier (v : Byte) :
    (s.write 1#3 v).uart.regs = (if s.uart.regs.dlab then { s.uart.regs with dlm := v }
    else { s.uart.regs with ier := v &&& 0x0F#8 }) ∧ Uart.Drained s.uart (s.write 1#3 v).uart := by
  have hregs := pass_regs s
  rw [← hregs]
  have hdrained := Uart.Drained.events s.uart (s.line 0)
  show (s.pass.uart.write 1#3 v).regs = _ ∧ Uart.Drained s.uart (s.pass.uart.write 1#3 v)
  rw [Uart.write]
  split
  · exact ⟨rfl, hdrained.trans (.of_eq rfl rfl rfl)⟩
  · exact ⟨rfl, hdrained.trans (.of_eq rfl rfl rfl)⟩

theorem write_dll (h : s.uart.regs.dlab = true) (v : Byte) :
    (s.write 0#3 v).uart.regs = { s.uart.regs with dll := v } ∧
    Uart.Drained s.uart (s.write 0#3 v).uart := by
  have hregs := pass_regs s
  have hw : s.pass.uart.write 0#3 v = { s.pass.uart with regs := { s.uart.regs with dll := v } } := by
    rw [Uart.write, if_pos (by rw [hregs, h]), hregs]
  show (s.pass.uart.write 0#3 v).regs = _ ∧ Uart.Drained s.uart (s.pass.uart.write 0#3 v)
  rw [hw]
  exact ⟨rfl, (Uart.Drained.events s.uart (s.line 0)).trans
    (.of_eq (congrArg Registers.mcr hregs).symm rfl rfl)⟩

theorem programmed_eq : s.programmed.uart.regs = programming s.uart.regs s.uart.regs.mcr ∧
    s.programmed.uart.transmit = [] ∧ s.programmed.uart.receive = [] ∧
    ∃ gone, gone <+: s.uart.transmit ∧
      s.programmed.uart.sent = s.uart.sent ++ if s.uart.regs.loopback then [] else gone := by
  obtain ⟨h₁, d₁⟩ := write_ier s 0x00#8
  obtain ⟨h₂, d₂⟩ := write_lcr (s.write 1#3 0x00#8) 0x80#8
  generalize hs₂ : (s.write 1#3 0x00#8).write 3#3 0x80#8 = s₂ at h₂ d₂
  have hdlab : s₂.uart.regs.dlab = true := by
    rw [h₂]
    show (0x80#8).getLsbD 7 = true
    decide
  obtain ⟨h₃, d₃⟩ := write_dll s₂ hdlab baudRate
  obtain ⟨h₄, d₄⟩ := write_ier (s₂.write 0#3 baudRate) 0x00#8
  rw [if_pos (by rw [h₃]; exact hdlab)] at h₄
  obtain ⟨h₅, d₅⟩ := write_lcr ((s₂.write 0#3 baudRate).write 1#3 0x00#8) 0x03#8
  generalize hs₅ : ((s₂.write 0#3 baudRate).write 1#3 0x00#8).write 3#3 0x03#8 = s₅ at h₅ d₅
  have hs : s.programmed = s₅.write 2#3 0xC7#8 := by rw [Com1.programmed, hs₂, hs₅]
  have hdrained := (((d₁.trans d₂).trans d₃).trans d₄).trans (d₅.trans (.events s₅.uart (s₅.line 0)))
  obtain ⟨gone, hgone, hsent⟩ := hdrained.out
  rw [hs]
  refine ⟨?_, ?_, ?_, gone, ⟨_, hgone.symm⟩, hsent⟩
  · show ({ s₅.pass.uart.regs with fcr := 0xC7#8 } : Registers) = _
    rw [pass_regs, h₅, h₄, h₃, h₂, h₁, programming]
    by_cases hd : s.uart.regs.dlab = true
    · simp [hd]
    · simp [hd]
  · show (if _ || true then [] else s₅.pass.uart.transmit) = []
    rw [Bool.or_true, if_pos rfl]
  · show (if _ || true then [] else s₅.pass.uart.receive) = []
    rw [Bool.or_true, if_pos rfl]

end Programming

section Test

variable (s : Com1)

theorem write_buffer (s : Com1) (offset : BitVec 3) (v : Byte) :
    (s.write offset v).uart.buffer = s.uart.buffer :=
  (Uart.write_buffer s.pass.uart offset v).trans (Uart.events_regs s.uart (s.line 0)).2

/-- With nothing to send, the receiver is all that changes between two accesses. -/
theorem pass_idle {s : Com1} (hf : s.uart.regs.fifos = true) (ht : s.uart.transmit = [])
    (hle : s.uart.receive.length ≤ 16) :
    s.pass.uart.transmit = [] ∧
      s.pass.uart.receive = (s.uart.receive ++ if s.uart.regs.loopback then
        [] else Uart.arrivals (s.line 0)).take 16 ∧
      s.pass.uart.buffer = s.uart.buffer ∧ s.pass.uart.sent = s.uart.sent := by
  refine ⟨by rw [pass_transmit, ht, List.drop_nil], ?_, (Uart.events_regs s.uart (s.line 0)).2, ?_⟩
  · by_cases hl : s.uart.regs.loopback = true
    · rw [Com1.pass, Uart.events_loopback_nil hl ht, if_pos hl, List.append_nil,
        List.take_of_length_le hle]
    · rw [if_neg hl]
      exact Uart.events_receive (Bool.not_eq_true _ ▸ hl) hf hle (s.line 0)
  · obtain ⟨gone, hgone, hsent⟩ := (Uart.Drained.events s.uart (s.line 0)).out
    rw [ht] at hgone
    obtain rfl := (List.append_eq_nil_iff.mp hgone.symm).1
    rw [ite_self, List.append_nil] at hsent
    exact hsent

/-- The UART when the test byte is read: in loopback mode, what came in early is in the receiver. -/
theorem looped_eq :
    s.looped.uart.regs = programming s.uart.regs 0x1E#8 ∧ s.looped.uart.transmit = [0xAE#8] ∧
    s.looped.uart.receive = s.early.take 16 ∧ s.looped.uart.buffer = s.uart.buffer ∧
    s.looped.uart.sent = s.programmed.uart.sent := by
  obtain ⟨hregs, htransmit, hreceive, -⟩ := programmed_eq s
  have hfifos : (0xC7#8).getLsbD 0 = true := by decide
  -- out of the initial mode
  obtain ⟨t₁, r₁, b₁, s₁⟩ :=
    pass_idle (s := s.programmed) (by rw [hregs]; exact hfifos) htransmit (by simp [hreceive])
  generalize hu : s.programmed.write 4#3 0x0B#8 = u
  have hur : u.uart.regs = programming s.uart.regs 0x0B#8 := by
    rw [← hu]
    show ({ s.programmed.pass.uart.regs with mcr := 0x0B#8 } : Registers) = _
    rw [pass_regs, hregs, programming, programming]
  have hut : u.uart.transmit = [] := hu ▸ t₁
  have huv : u.uart.receive =
      (if s.uart.regs.loopback then [] else Uart.arrivals (s.line 6) : List Byte).take 16 := by
    rw [← hu]
    refine r₁.trans ?_
    rw [hreceive, hregs]
    rfl
  -- into loopback mode
  obtain ⟨t₂, r₂, b₂, s₂⟩ :=
    pass_idle (s := u) (by rw [hur]; exact hfifos) hut (by rw [huv]; exact List.length_take_le 16 _)
  generalize hv : u.write 4#3 0x1E#8 = v
  have hvr : v.uart.regs = programming s.uart.regs 0x1E#8 := by
    rw [← hv]
    show ({ u.pass.uart.regs with mcr := 0x1E#8 } : Registers) = _
    rw [pass_regs, hur, programming, programming]
  have hvt : v.uart.transmit = [] := hv ▸ t₂
  have hvv : v.uart.receive = s.early.take 16 := by
    rw [← hv]
    refine r₂.trans ?_
    have hl : u.uart.regs.loopback = false := by
      rw [hur]
      show (0x0B#8).getLsbD 4 = false
      decide
    have hline : u.line 0 = s.line 7 := hu ▸ rfl
    rw [hl, if_neg (by decide), huv, Uart.take_take_append, hline, Com1.early]
  have hs : s.looped = v.write 0#3 0xAE#8 := by rw [Com1.looped, hu, hv]
  have hw : v.pass.uart = v.uart := Uart.events_loopback_nil (by
    rw [hvr]
    show (0x1E#8).getLsbD 4 = true
    decide) hvt (v.line 0)
  have hdlab : v.uart.regs.dlab = false := by
    rw [hvr]
    show (0x03#8).getLsbD 7 = false
    decide
  have hend : s.looped.uart = { v.uart with transmit := [0xAE#8] } := by
    rw [hs, Com1.write, hw]
    exact Uart.write_of_empty hdlab (by rw [hvr]; exact hfifos) hvt 0xAE#8
  have hbuffer : s.looped.uart.buffer = s.uart.buffer := by
    simp only [Com1.looped, Com1.programmed, write_buffer]
  rw [hend] at hbuffer ⊢
  refine ⟨hvr, rfl, hvv, hbuffer, ?_⟩
  rw [← hv, ← s₁]
  refine s₂.trans ?_
  rw [← hu]
  rfl

theorem tested_eq : (s.looped.read 0#3).1 = s.answer ∧
    (s.looped.read 0#3).2.uart.regs = programming s.uart.regs 0x1E#8 ∧
    (s.looped.read 0#3).2.uart.transmit = (if .shift ∈ s.line 9 then [] else [0xAE#8]) ∧
    (s.looped.read 0#3).2.uart.sent = s.programmed.uart.sent ∧
    (s.early = [] → .shift ∈ s.line 9 → (s.looped.read 0#3).2.uart.receive = []) := by
  obtain ⟨hregs, htransmit, hreceive, hbuffer, hsent⟩ := looped_eq s
  generalize hw : s.looped = w at *
  have hline : w.line 0 = s.line 9 := hw ▸ rfl
  have hloop : w.uart.regs.loopback = true := by
    rw [hregs]
    show (0x1E#8).getLsbD 4 = true
    decide
  have hfifos : w.uart.regs.fifos = true := by
    rw [hregs]
    show (0xC7#8).getLsbD 0 = true
    decide
  have hdlab : w.pass.uart.regs.dlab = false := by
    rw [pass_regs, hregs]
    show (0x03#8).getLsbD 7 = false
    decide
  have hevents := Uart.events_loopback_one hloop htransmit (w.line 0)
  have hpass : w.pass.uart.receive = (s.early ++ if .shift ∈ s.line 9 then [0xAE#8] else []).take 16 ∧
      w.pass.uart.transmit = (if .shift ∈ s.line 9 then [] else [0xAE#8]) ∧
      w.pass.uart.sent = s.programmed.uart.sent := by
    rw [Com1.pass, hevents, hline]
    by_cases hs : .shift ∈ s.line 9
    · rw [if_pos hs, if_pos hs, if_pos hs]
      refine ⟨?_, Uart.accept_transmit _ _, (Uart.accept_sent _ _).trans hsent⟩
      have haccept := Uart.accept_receive (u := { w.uart with transmit := [] }) hfifos
        (by rw [hreceive]; exact List.length_take_le 16 _) 0xAE#8
      rw [haccept, hreceive, Uart.take_take_append]
    · rw [if_neg hs, if_neg hs, if_neg hs, List.append_nil]
      exact ⟨hreceive, htransmit, hsent⟩
  obtain ⟨hr, ht, hs⟩ := hpass
  have hread : w.pass.uart.read 0#3 = w.pass.uart.take := by rw [Uart.read, hdlab, if_neg (by decide)]
  obtain ⟨tr, tg, tt, ts⟩ := Uart.take_snd w.pass.uart
  show (w.pass.uart.read 0#3).1 = _ ∧ (w.pass.uart.read 0#3).2.regs = _ ∧
    (w.pass.uart.read 0#3).2.transmit = _ ∧
    (w.pass.uart.read 0#3).2.sent = _ ∧ (_ → _ → (w.pass.uart.read 0#3).2.receive = _)
  rw [hread]
  refine ⟨?_, ?_, tt.trans ht, ts.trans hs, fun he hshift => ?_⟩
  · have hb : w.pass.uart.buffer = s.uart.buffer := (Uart.events_regs w.uart (w.line 0)).2.trans hbuffer
    rw [Uart.take_fst, hr, hb, Com1.answer, List.head?_take, if_neg (by decide)]
  · rw [tg, pass_regs, hregs]
  · rw [tr, hr, he, if_pos hshift]
    rfl

end Test

/-- The UART in normal operation. -/
def Com1.opened (s : Com1) : Com1 := (s.looped.read 0#3).2.write 4#3 0x0F#8

theorem opened_eq (s : Com1) :
    s.opened.uart.regs = programming s.uart.regs 0x0F#8 ∧ s.opened.uart.transmit = s.stray ∧
    s.opened.uart.sent = s.programmed.uart.sent ∧
    (s.early = [] → .shift ∈ s.line 9 → s.opened.uart.receive = []) := by
  obtain ⟨-, hregs, htransmit, hsent, hclean⟩ := tested_eq s
  rw [Com1.opened]
  generalize hw : (s.looped.read 0#3).2 = w at *
  have hline : w.line 0 = s.line 10 := hw ▸ rfl
  have hloop : w.uart.regs.loopback = true := by
    rw [hregs]
    show (0x1E#8).getLsbD 4 = true
    decide
  have hr : (w.write 4#3 0x0F#8).uart.regs = programming s.uart.regs 0x0F#8 := by
    show ({ w.pass.uart.regs with mcr := 0x0F#8 } : Registers) = _
    rw [pass_regs, hregs, programming, programming]
  refine ⟨hr, ?_⟩
  show w.pass.uart.transmit = _ ∧ w.pass.uart.sent = _ ∧ (_ → _ → w.pass.uart.receive = [])
  rw [Com1.pass, hline, Com1.stray]
  by_cases h9 : .shift ∈ s.line 9
  · rw [if_pos h9] at htransmit
    rw [Uart.events_loopback_nil hloop htransmit, if_pos (List.mem_append_left _ h9)]
    exact ⟨htransmit, hsent, fun he _ => hclean he h9⟩
  · rw [if_neg h9] at htransmit
    rw [Uart.events_loopback_one hloop htransmit]
    by_cases h10 : .shift ∈ s.line 10
    · rw [if_pos h10, if_pos (List.mem_append_right _ h10)]
      exact ⟨Uart.accept_transmit _ _, (Uart.accept_sent _ _).trans hsent, fun _ h => absurd h h9⟩
    · rw [if_neg h10, if_neg fun h => (List.mem_append.mp h).elim h9 h10]
      exact ⟨htransmit, hsent, fun _ h => absurd h h9⟩

/-- What `init_serial` leaves when it returns 0.
Bytes that were in the transmitter before may have gone out. -/
structure Enabled (s t : Com1) : Prop where
  answer : s.answer = 0xAE#8
  regs : t.uart.regs = programming s.uart.regs 0x0F#8
  out : ∃ gone, gone <+: s.uart.transmit ∧ t.uart.sent ++ t.uart.transmit =
    s.uart.sent ++ (if s.uart.regs.loopback then [] else gone) ++ s.stray ++ enabled
  into : s.early = [] → .shift ∈ s.line 9 → t.uart.receive <:+ t.uart.heard
  line : ∃ n, ∀ i, t.line i = s.line (i + n)

/-- What `init_serial` leaves when it returns 1: loopback mode. -/
structure Disabled (s t : Com1) : Prop where
  answer : s.answer ≠ 0xAE#8
  regs : t.uart.regs = programming s.uart.regs 0x1E#8
  out : ∃ gone, gone <+: s.uart.transmit ∧ t.uart.sent = s.uart.sent ++ if s.uart.regs.loopback then
    [] else gone

theorem duplex_programming (r : Registers) : (programming r 0x0F#8).Duplex := by
  refine ⟨?_, ?_, ?_⟩
  · show (0x03#8).getLsbD 7 = false
    decide
  · show (0x0F#8).getLsbD 4 = false
    decide
  · show (0xC7#8).getLsbD 0 = true
    decide

theorem cstring_enabled : Stdio.cstring enabled = enabled := by decide

section Init

variable {s t : Com1} {T T' : Tty.Terminal}

theorem enabled_of_run (ha : s.answer = 0xAE#8) {fuel : Nat}
    (hr : Prog.run Com1.exec (writeStringSerial fuel enabled) s.opened = .ok ((), t)) : Enabled s t := by
  have h := of_run_writeStringSerial ((opened_eq s).1 ▸ duplex_programming _) hr
  rw [cstring_enabled] at h
  obtain ⟨n, hn⟩ := line_of_run hr
  obtain ⟨hregs, htransmit, hsent, hclean⟩ := opened_eq s
  obtain ⟨-, -, -, gone, hgone, hprogrammed⟩ := programmed_eq s
  refine ⟨ha, h.regs.trans hregs, ⟨gone, hgone, ?_⟩, fun he hs => ?_, n + 11, hn⟩
  · rw [h.out, hsent, hprogrammed, htransmit]
  · obtain ⟨new, hheard, hnew⟩ := h.into
    rw [hclean he hs, List.nil_append, List.nil_append] at hnew
    exact ⟨s.opened.uart.heard, by rw [hheard, hnew]⟩

theorem disabled_tested (ha : s.answer ≠ 0xAE#8) : Disabled s (s.looped.read 0#3).2 := by
  obtain ⟨-, hregs, -, hsent, -⟩ := tested_eq s
  obtain ⟨-, -, -, gone, hgone, hprogrammed⟩ := programmed_eq s
  exact ⟨ha, hregs, gone, hgone, hsent.trans hprogrammed⟩

theorem run_initSerial (F fuel : Nat) (s : Com1) (T : Tty.Terminal) :
    Prog.run (Prog.execBoth Com1.exec (execPrint F)) (initSerial fuel) (s, T) =
      if s.answer ≠ 0xAE#8 then .ok (1#32, ((s.looped.read 0#3).2, T))
      else Prog.run (Prog.execBoth Com1.exec (execPrint F)) (do
        let _ ← print (.printf enabled [])
        (writeStringSerial fuel enabled).left
        return 0#32) (s.opened, T) := by
  have htest : Prog.run Com1.exec testSerial s =
      .ok ((s.looped.read 0#3).1, (s.looped.read 0#3).2) := run_testSerial s
  refine (Prog.run_bind_ok _ (Prog.run_left htest T)).trans ?_
  rw [(tested_eq s).1]
  by_cases ha : s.answer ≠ 0xAE#8
  · rw [if_pos ha, if_pos ha]
    rfl
  · rw [if_neg ha, if_neg ha]
    exact Prog.run_bind_ok _ (Prog.run_left (run_outb (o := 4#3) (by decide) 0x0F#8 _) T)

/-- What `init_serial` does if it returns. -/
theorem initSerial_returned {F fuel : Nat} {r : Word}
    (h : Prog.run (Prog.execBoth Com1.exec (execPrint F)) (initSerial fuel) (s, T) = .ok (r, (t, T'))) :
    r = 0#32 ∧ Enabled s t ∨ r = 1#32 ∧ Disabled s t ∧ T' = T := by
  rw [run_initSerial] at h
  by_cases ha : s.answer ≠ 0xAE#8
  · rw [if_pos ha] at h
    cases h
    exact Or.inr ⟨rfl, disabled_tested ha, rfl⟩
  · rw [if_neg ha] at h
    obtain ⟨n, ⟨u, U⟩, hprint, hrest⟩ := Prog.of_run_bind _ h
    obtain ⟨⟨⟩, ⟨v, V⟩, hwrite, hret⟩ := Prog.of_run_bind _ hrest
    cases hret
    have hu : u = s.opened := by
      rw [run_print] at hprint
      split at hprint <;> cases hprint
      rfl
    subst hu
    obtain ⟨hrun, -⟩ := Prog.of_run_left hwrite
    exact Or.inl ⟨rfl, enabled_of_run (not_not.mp ha) hrun⟩

theorem initSerial_enables : ∃ F₀, ∀ F ≥ F₀, ∀ (s : Com1) (T : Tty.Terminal), s.Sends → Tty.InRange T →
    s.answer = 0xAE#8 →
    ∃ t T', Prog.Settles (Prog.execBoth Com1.exec (execPrint F)) initSerial (s, T) 0#32 (t, T') ∧
      Enabled s t ∧ Stdio.Shows T enabled T' := by
  have hprints : Stdio.Call.Prints (.printf enabled []) enabled := ⟨by decide, by decide⟩
  obtain ⟨F₀, hF⟩ := Stdio.Call.run_shows hprints
  refine ⟨F₀, fun F hge s T hs hT ha => ?_⟩
  obtain ⟨T', hprint, hshows⟩ := hF F hge T hT
  have hrun : Prog.run (Prog.execBoth Com1.exec (execPrint F)) (print (.printf enabled []))
      (s.opened, T) =
      .ok (Stdio.Call.result enabled (.printf enabled []), (s.opened, T')) := by
    rw [run_print, hprint]
  have hsends : s.opened.Sends := hs.of_line (n := 11) fun i => rfl
  obtain ⟨t, n, hwrite⟩ := writeStringSerial_settles hsends enabled
  refine ⟨t, T', ⟨n, fun fuel hfuel => ?_⟩, enabled_of_run ha (hwrite n (Nat.le_refl n)), hshows⟩
  rw [run_initSerial, if_neg (not_not.mpr ha)]
  exact (Prog.run_bind_ok _ hrun).trans
    ((Prog.run_bind_ok _ (Prog.run_left (hwrite fuel hfuel) T')).trans rfl)

theorem initSerial_disables (F : Nat) (s : Com1) (T : Tty.Terminal) (ha : s.answer ≠ 0xAE#8) : ∃ t,
    Prog.Settles (Prog.execBoth Com1.exec (execPrint F)) initSerial (s, T) 1#32 (t, T) ∧
    Disabled s t := by
  refine ⟨_, .of_run fun fuel => ?_, disabled_tested ha⟩
  rw [run_initSerial, if_pos ha]

/-- Whatever state the UART is in, `init_serial` comes to its end;
the test decides what it returns and leaves. -/
theorem initSerial_settles : ∃ F₀, ∀ F ≥ F₀, ∀ (s : Com1) (T : Tty.Terminal), s.Sends → Tty.InRange T →
    (s.answer = 0xAE#8 →
      ∃ t T', Prog.Settles (Prog.execBoth Com1.exec (execPrint F)) initSerial (s, T) 0#32 (t, T') ∧
      Enabled s t ∧ Stdio.Shows T enabled T') ∧
    (s.answer ≠ 0xAE#8 →
      ∃ t, Prog.Settles (Prog.execBoth Com1.exec (execPrint F)) initSerial (s, T) 1#32 (t, T) ∧
      Disabled s t) := by
  obtain ⟨F₀, hF⟩ := initSerial_enables
  exact ⟨F₀, fun F hge s T hs hT => ⟨hF F hge s T hs hT, initSerial_disables F s T⟩⟩

/-- A UART after a reset, on a line of which it is known what happens before each access. -/
def Com1.reset (line : Nat → List Line) : Com1 where
  uart := ⟨⟨0#8, 0#8, 0#8, 0#8, 0#8, 0#8⟩, [], [], 0#8, false, [], []⟩
  line := line

/-- The test byte comes back at once, and after the test bytes come in. -/
def prompt : Com1 := .reset fun i => if i < 10 then [.shift] else [.shift, .arrive 0x41#8]

/-- The test byte is still being sent when the answer is read. -/
def slow : Com1 := .reset fun i => if i = 9 then [] else [.shift]

theorem prompt_sends : prompt.Sends := fun i => ⟨i, Nat.le_refl i, by
  show Line.shift ∈ (if i < 10 then [Line.shift] else [.shift, .arrive 0x41#8])
  split <;> simp⟩

theorem prompt_receives : prompt.Receives := fun i => ⟨i + 10, by omega, 0x41#8, by
  show Line.arrive 0x41#8 ∈ (if i + 10 < 10 then [Line.shift] else [.shift, .arrive 0x41#8])
  rw [if_neg (by omega)]
  simp⟩

theorem slow_sends : slow.Sends := fun i => ⟨i + 10, by omega, by
  show Line.shift ∈ (if i + 10 = 9 then [] else [Line.shift])
  rw [if_neg (by omega)]
  simp⟩

theorem initSerial_settles_prompt : ∃ F₀, ∀ F ≥ F₀,
    (∃ t T', Prog.Settles (Prog.execBoth Com1.exec (execPrint F)) initSerial
      (prompt, Tty.startTerminal) 0#32 (t, T') ∧
      Enabled prompt t ∧ Stdio.Shows Tty.startTerminal enabled T') ∧
    ∃ t, Prog.Settles (Prog.execBoth Com1.exec (execPrint F)) initSerial (slow, Tty.startTerminal) 1#32
      (t, Tty.startTerminal) ∧ Disabled slow t := by
  obtain ⟨F₀, hF⟩ := initSerial_settles
  refine ⟨F₀, fun F hge => ⟨?_, ?_⟩⟩
  · exact (hF F hge prompt Tty.startTerminal prompt_sends Tty.startTerminal_inRange).1 (by decide)
  · exact (hF F hge slow Tty.startTerminal slow_sends Tty.startTerminal_inRange).2 (by decide)

/-- After `init_serial` has returned 0, everything written goes out behind its message, and what is
read is what came in; with a line that goes on every session comes to its end. -/
theorem session_after_init {F fuel : Nat}
    (h : Prog.run (Prog.execBoth Com1.exec (execPrint F)) (initSerial fuel) (s, T) = .ok (0#32, (t, T')))
    (rs : List Request) :
    (∀ fuel bs u, Prog.run Com1.exec (session fuel rs) t = .ok (bs, u) →
      (∃ gone, gone <+: s.uart.transmit ∧ u.uart.sent ++ u.uart.transmit =
        s.uart.sent ++ (if s.uart.regs.loopback then [] else gone) ++ s.stray ++ enabled ++
        rs.flatMap Request.given) ∧
      (s.early = [] → .shift ∈ s.line 9 → bs ++ u.uart.receive <:+ u.uart.heard)) ∧
    (s.Sends → s.Receives → ∃ bs u, Prog.Settles Com1.exec (fun fuel => session fuel rs) t bs u) := by
  rcases initSerial_returned h with ⟨-, he⟩ | ⟨hone, -⟩
  · have hd : t.uart.regs.Duplex := he.regs ▸ duplex_programming _
    refine ⟨fun fuel bs u hr => ?_, fun hs hr => ?_⟩
    · have hx := session_exchanged hd hr
      refine ⟨?_, fun hearly hshift => ?_⟩
      · obtain ⟨gone, hgone, hout⟩ := he.out
        exact ⟨gone, hgone, by rw [hx.out, hout]⟩
      · obtain ⟨earlier, hearlier⟩ := he.into hearly hshift
        obtain ⟨new, hheard, hnew⟩ := hx.into
        exact ⟨earlier, by rw [hnew, hheard, ← hearlier, List.append_assoc]⟩
    · obtain ⟨n, hn⟩ := he.line
      exact session_settles hd (hs.of_line hn) (hr.of_line hn) rs
  · exact absurd hone (by decide)

theorem session_after_init_prompt :
    ∃ F fuel t T', Prog.run (Prog.execBoth Com1.exec (execPrint F)) (initSerial fuel)
      (prompt, Tty.startTerminal) = .ok (0#32, (t, T')) ∧
    (∀ fuel bs u, Prog.run Com1.exec (session fuel [.writeString [0x48#8, 0x69#8, 0#8], .read]) t =
      .ok (bs, u) →
      u.uart.sent ++ u.uart.transmit = enabled ++ [0x48#8, 0x69#8] ∧
      bs ++ u.uart.receive <:+ u.uart.heard) ∧
    ∃ bs u, Prog.Settles Com1.exec (fun fuel => session fuel [.writeString [0x48#8, 0x69#8, 0#8],
      .read]) t bs u := by
  obtain ⟨F₀, hF⟩ := initSerial_enables
  obtain ⟨t, T', ⟨n, hn⟩, -⟩ :=
    hF F₀ (Nat.le_refl F₀) prompt Tty.startTerminal prompt_sends Tty.startTerminal_inRange (by decide)
  have hrun := hn n (Nat.le_refl n)
  obtain ⟨hall, hsettles⟩ := session_after_init hrun [.writeString [0x48#8, 0x69#8, 0#8], .read]
  refine ⟨F₀, n, t, T', hrun, fun fuel bs u hr => ?_, hsettles prompt_sends prompt_receives⟩
  obtain ⟨⟨gone, hgone, hout⟩, hinto⟩ := hall fuel bs u hr
  obtain rfl := List.prefix_nil.mp hgone
  exact ⟨hout, hinto (by decide) (by decide)⟩

/-- After `init_serial` has returned 1, which its caller ignores,
the UART stays in loopback mode and nothing gets out or in, at any access of any session, whether
or not that comes to its end. -/
theorem session_after_failure {F fuel : Nat}
    (h : Prog.run (Prog.execBoth Com1.exec (execPrint F)) (initSerial fuel) (s, T) = .ok (1#32, (t, T')))
    (fuel' : Nat) (rs : List Request) :
    (∃ gone, gone <+: s.uart.transmit ∧ t.uart.sent = s.uart.sent ++ if s.uart.regs.loopback then
      [] else gone) ∧
    (∀ x ∈ Prog.trace Com1.exec (session fuel' rs) t, Isolated t x.2) ∧
    ∀ bs u, Prog.run Com1.exec (session fuel' rs) t = .ok (bs, u) → Isolated t u := by
  rcases initSerial_returned h with ⟨hzero, -⟩ | ⟨-, hd, -⟩
  · exact absurd hzero (by decide)
  · have hloop : t.uart.regs.loopback = true := by
      rw [hd.regs]
      show (0x1E#8).getLsbD 4 = true
      decide
    exact ⟨hd.out, session_isolated hloop fuel' rs⟩

/-- A write that returns, and a second byte that is waited for in vain. -/
theorem session_after_failure_slow :
    (∃ u, Prog.run Com1.exec (session 2 [.write 0x41#8]) (slow.looped.read 0#3).2 = .ok ([], u) ∧
      u.uart.regs.loopback = true ∧ u.uart.heard = [] ∧ u.uart.sent = []) ∧
    (∀ x, Prog.run Com1.exec (session 5 [.write 0x41#8, .read, .read, .read])
      (slow.looped.read 0#3).2 ≠ .ok x) ∧
    ∀ x ∈ Prog.trace Com1.exec (session 5 [.write 0x41#8, .read, .read, .read]) (slow.looped.read 0#3).2,
      x.2.uart.regs.loopback = true ∧ x.2.uart.heard = [] ∧ x.2.uart.sent = [] := by
  have hinit : Prog.run (Prog.execBoth Com1.exec (execPrint 0)) (initSerial 0) (slow, Tty.startTerminal) =
      .ok (1#32, ((slow.looped.read 0#3).2, Tty.startTerminal)) := by
    rw [run_initSerial, if_pos (by decide)]
  have hsession : ∃ u, Prog.run Com1.exec (session 2 [.write 0x41#8]) (slow.looped.read 0#3).2 =
      .ok ([], u) := ⟨_, rfl⟩
  obtain ⟨u, hu⟩ := hsession
  obtain ⟨⟨gone, hgone, hsent⟩, -, hend⟩ := session_after_failure hinit 2 [.write 0x41#8]
  obtain rfl := List.prefix_nil.mp hgone
  have hsession := hend _ u hu
  refine ⟨⟨u, hu, hsession.loopback, hsession.heard, hsession.sent.trans hsent⟩, fun x hx => ?_,
    fun x hx => ?_⟩
  · have hstuck : (Prog.run Com1.exec (session 5 [.write 0x41#8, .read, .read, .read])
        (slow.looped.read 0#3).2).isOk = false := by decide
    rw [hx] at hstuck
    exact Bool.noConfusion hstuck
  · obtain ⟨-, hall, -⟩ := session_after_failure hinit 5 [.write 0x41#8, .read, .read, .read]
    have hx := hall x hx
    exact ⟨hx.loopback, hx.heard, hx.sent.trans hsent⟩

end Init

end Serial

end PekOS
