import PekOS.Serial

/-! What calls of the serial driver exchange with the other end of the line. -/

namespace PekOS

open OpTree Code Uart16550

namespace Serial

section Line

variable {s t : Com1}

theorem pass_transmit (s : Com1) :
    s.pass.uart.transmit = s.uart.transmit.drop ((s.line 0).count .shift) :=
  Uart.events_transmit s.uart (s.line 0)

theorem pass_regs (s : Com1) : s.pass.uart.regs = s.uart.regs := (Uart.events_regs s.uart (s.line 0)).1

/-- What happens on the line happens at one access or another. -/
theorem line_of_run {α : Type} {p : Code α} {a : α} (hr : Prog.run Com1.exec p s = .ok (a, t)) :
    ∃ n, ∀ i, t.line i = s.line (i + n) := by
  refine (Prog.all_true p).run_inv (I := fun t => ∃ n, ∀ i, t.line i = s.line (i + n))
    (fun o u x _ he hI => ?_) hr ⟨0, fun i => rfl⟩
  obtain ⟨n, hn⟩ := hI
  have hnext (i : Nat) : u.pass.line i = s.line (i + (n + 1)) :=
    (hn (i + 1)).trans (congrArg s.line (by omega))
  cases o with
  | inb p =>
    rw [Com1.exec] at he
    split at he <;> cases he
    · exact ⟨n + 1, hnext⟩
    · exact ⟨n, hn⟩
  | outb p v =>
    rw [Com1.exec] at he
    split at he <;> cases he
    · exact ⟨n + 1, hnext⟩
    · exact ⟨n, hn⟩
  | _ => cases he

theorem Com1.Sends.of_line (h : s.Sends) {n : Nat} (hn : ∀ i, t.line i = s.line (i + n)) : t.Sends := by
  intro i
  obtain ⟨j, hj, hmem⟩ := h (i + n)
  exact ⟨j - n, by omega, by rwa [hn, Nat.sub_add_cancel (by omega)]⟩

theorem Com1.Receives.of_line (h : s.Receives) {n : Nat} (hn : ∀ i, t.line i = s.line (i + n)) :
    t.Receives := by
  intro i
  obtain ⟨j, hj, hmem⟩ := h (i + n)
  exact ⟨j - n, by omega, by rwa [hn, Nat.sub_add_cancel (by omega)]⟩

/-- The bytes the transmitter can send before `k` accesses are over. -/
def shifts : (Nat → List Line) → Nat → Nat
  | _, 0 => 0
  | line, k + 1 => (line 0).count .shift + shifts (fun i => line (i + 1)) k

theorem exists_shifts (h : s.Sends) (n : Nat) : ∃ k, n ≤ shifts s.line k := by
  have hmore {line : Nat → List Line} (hline : ∀ i, ∃ j ≥ i, Line.shift ∈ line j) (j n : Nat)
      (hj : Line.shift ∈ line j)
      (hn : ∀ line : Nat → List Line, (∀ i, ∃ j ≥ i, Line.shift ∈ line j) → ∃ k, n ≤ shifts line k) :
      ∃ k, n + 1 ≤ shifts line k := by
    have hrest : ∀ i, ∃ j ≥ i, Line.shift ∈ line (j + 1) := fun i => by
      obtain ⟨j, hj, hmem⟩ := hline (i + 1)
      exact ⟨j - 1, by omega, by rwa [Nat.sub_add_cancel (by omega)]⟩
    induction j generalizing line with
    | zero =>
      obtain ⟨k, hk⟩ := hn _ hrest
      have hpos := List.count_pos_iff.mpr hj
      exact ⟨k + 1, by rw [shifts]; omega⟩
    | succ j ih =>
      obtain ⟨k, hk⟩ := ih hrest hj fun i => by
        obtain ⟨j, hj, hmem⟩ := hrest (i + 1)
        exact ⟨j - 1, by omega, by rwa [Nat.sub_add_cancel (by omega)]⟩
      exact ⟨k + 1, by rw [shifts]; omega⟩
  suffices hall : ∀ line : Nat → List Line, (∀ i, ∃ j ≥ i, Line.shift ∈ line j) →
    ∃ k, n ≤ shifts line k from hall _ h
  induction n with
  | zero => exact fun _ _ => ⟨0, Nat.zero_le _⟩
  | succ n ih =>
    intro line hline
    obtain ⟨j, -, hj⟩ := hline 0
    exact hmore hline j n hj ih

end Line

section Polling

variable {s t : Com1}

theorem look_exchanged (h : s.uart.regs.Duplex) : Uart.Exchanged s.uart [] [] (look s).uart :=
  (Uart.Exchanged.events h (s.line 0)).trans (Uart.Exchanged.status s.pass.uart)

/-- The transmitter becomes empty while it is waited for. -/
theorem pollTransmit_settles (h : s.Sends) : ∃ u : Com1,
    Prog.Settles Com1.exec (fun fuel => Prog.loop outOfFuel (fun _ => pollTransmit) fuel ()) s () u := by
  obtain ⟨k, hk⟩ := exists_shifts h s.uart.transmit.length
  have hstep (k : Nat) (s : Com1) (hle : s.uart.transmit.length ≤ shifts s.line k) :
      (∃ c t, Prog.run Com1.exec pollTransmit s = .ok (.inr c, t)) ∨
        ∃ j t, k = j + 1 ∧ Prog.run Com1.exec pollTransmit s = .ok (.inl (), t) ∧
          t.uart.transmit.length ≤ shifts t.line j := by
    have hpoll := run_pollTransmit s
    by_cases he : s.pass.uart.transmit = []
    · rw [if_pos he] at hpoll
      exact Or.inl ⟨(), look s, hpoll⟩
    · rw [if_neg he] at hpoll
      have hlen := List.length_pos_of_ne_nil he
      rw [pass_transmit, List.length_drop] at hlen
      cases k with
      | zero =>
        rw [shifts] at hle
        omega
      | succ k =>
        refine Or.inr ⟨k, look s, rfl, hpoll, ?_⟩
        show s.pass.uart.transmit.length ≤ shifts s.pass.line k
        rw [pass_transmit, List.length_drop]
        exact Nat.sub_le_iff_le_add'.mpr hle
  obtain ⟨⟨⟩, u, hu⟩ :=
    Prog.Settles.poll (fun k (s : Com1) => s.uart.transmit.length ≤ shifts s.line k) hstep hk
  exact ⟨u, hu⟩

/-- What the loop leaves, if it returns. -/
theorem of_run_pollTransmit (h : s.uart.regs.Duplex) {fuel : Nat}
    (hr : Prog.run Com1.exec (Prog.loop outOfFuel (fun _ => pollTransmit) fuel ()) s = .ok ((), t)) :
    Uart.Exchanged s.uart [] [] t.uart ∧ t.uart.transmit = [] := by
  refine Prog.of_run_loop Com1.exec outOfFuel_ne_ok (fun _ u => Uart.Exchanged s.uart [] [] u.uart)
    (P := fun _ u => Uart.Exchanged s.uart [] [] u.uart ∧ u.uart.transmit = [])
    (fun _ u _ v hu hv => ?_) (fun _ u _ v hu hv => ?_) hr (.refl s.uart)
  · have hlook := hu.trans (look_exchanged (hu.regs ▸ h))
    rw [run_pollTransmit] at hv
    simp only [Except.ok.injEq, Prod.mk.injEq] at hv
    exact hv.2 ▸ hlook
  · have hlook := hu.trans (look_exchanged (hu.regs ▸ h))
    rw [run_pollTransmit] at hv
    simp only [Except.ok.injEq, Prod.mk.injEq, ite_eq_left_iff, reduceCtorEq, imp_false, not_not] at hv
    exact hv.2 ▸ ⟨hlook, hv.1⟩

/-- A byte comes in while it is waited for. -/
theorem pollReceive_settles (h : s.uart.regs.Duplex) (hs : s.Receives) : ∃ u : Com1,
    Prog.Settles Com1.exec (fun fuel => Prog.loop outOfFuel (fun _ => pollReceive) fuel ()) s () u := by
  obtain ⟨k, -, b, hb⟩ := hs 0
  have hstep (k : Nat) (s : Com1) (h : s.uart.regs.loopback = false ∧ ∃ b, Line.arrive b ∈ s.line k) :
      (∃ c t, Prog.run Com1.exec pollReceive s = .ok (.inr c, t)) ∨
        ∃ j t, k = j + 1 ∧ Prog.run Com1.exec pollReceive s = .ok (.inl (), t) ∧
          t.uart.regs.loopback = false ∧ ∃ b, Line.arrive b ∈ t.line j := by
    have hpoll := run_pollReceive s
    by_cases hr : s.pass.uart.receive = []
    · rw [if_pos hr] at hpoll
      cases k with
      | zero => exact absurd hr (Uart.events_receive_ne_nil (Or.inr h))
      | succ k =>
        refine Or.inr ⟨k, look s, rfl, hpoll, ?_, h.2⟩
        exact (congrArg Registers.loopback (pass_regs s)).trans h.1
    · rw [if_neg hr] at hpoll
      exact Or.inl ⟨(), look s, hpoll⟩
  obtain ⟨⟨⟩, u, hu⟩ := Prog.Settles.poll
    (fun k (s : Com1) => s.uart.regs.loopback = false ∧ ∃ b, Line.arrive b ∈ s.line k) hstep
    ⟨h.loopback, b, hb⟩
  exact ⟨u, hu⟩

theorem of_run_pollReceive (h : s.uart.regs.Duplex) {fuel : Nat}
    (hr : Prog.run Com1.exec (Prog.loop outOfFuel (fun _ => pollReceive) fuel ()) s = .ok ((), t)) :
    Uart.Exchanged s.uart [] [] t.uart ∧ t.uart.receive ≠ [] := by
  refine Prog.of_run_loop Com1.exec outOfFuel_ne_ok (fun _ u => Uart.Exchanged s.uart [] [] u.uart)
    (P := fun _ u => Uart.Exchanged s.uart [] [] u.uart ∧ u.uart.receive ≠ [])
    (fun _ u _ v hu hv => ?_) (fun _ u _ v hu hv => ?_) hr (.refl s.uart)
  · have hlook := hu.trans (look_exchanged (hu.regs ▸ h))
    rw [run_pollReceive] at hv
    simp only [Except.ok.injEq, Prod.mk.injEq] at hv
    exact hv.2 ▸ hlook
  · have hlook := hu.trans (look_exchanged (hu.regs ▸ h))
    rw [run_pollReceive] at hv
    simp only [Except.ok.injEq, Prod.mk.injEq, ite_eq_right_iff, reduceCtorEq, imp_false] at hv
    exact hv.2 ▸ ⟨hlook, hv.1⟩

end Polling

section Calls

variable {s t : Com1} {fuel : Nat}

theorem of_run_writeSerial (h : s.uart.regs.Duplex) {a : Byte}
    (hr : Prog.run Com1.exec (writeSerial fuel a) s = .ok ((), t)) :
    Uart.Exchanged s.uart [a] [] t.uart ∧ t.uart.transmit.length ≤ 1 := by
  obtain ⟨⟨⟩, u, hu, hw⟩ := Prog.of_run_bind Com1.exec hr
  obtain ⟨hx, hempty⟩ := of_run_pollTransmit h hu
  have hd : u.pass.uart.regs.Duplex := by
    rw [pass_regs, hx.regs]
    exact h
  have hpass : u.pass.uart.transmit = [] := by rw [pass_transmit, hempty, List.drop_nil]
  rw [run_outb (o := 0#3) (by decide)] at hw
  cases hw
  have hx' := (hx.trans (Uart.Exchanged.events (hx.regs ▸ h) (u.line 0))).trans
    (Uart.Exchanged.write hd hpass a)
  refine ⟨hx', ?_⟩
  show (u.pass.uart.write 0#3 a).transmit.length ≤ 1
  rw [Uart.write_of_empty hd.dlab hd.fifos hpass]
  exact Nat.le_refl 1

theorem of_run_writeStringSerial (h : s.uart.regs.Duplex) {str : List Byte}
    (hr : Prog.run Com1.exec (writeStringSerial fuel str) s = .ok ((), t)) :
    Uart.Exchanged s.uart (Stdio.cstring str) [] t.uart := by
  induction str generalizing s with
  | nil =>
    cases hr
    exact .refl _
  | cons a str ih =>
    rw [writeStringSerial] at hr
    by_cases ha : a = 0#8
    · subst ha
      cases hr
      exact .refl _
    · rw [if_neg ha] at hr
      obtain ⟨⟨⟩, u, hu, hrest⟩ := Prog.of_run_bind Com1.exec hr
      obtain ⟨hx, -⟩ := of_run_writeSerial h hu
      have hstr : Stdio.cstring (a :: str) = [a] ++ Stdio.cstring str := by simp [Stdio.cstring, ha]
      rw [hstr]
      exact hx.trans (ih (hx.regs ▸ h) hrest)

theorem of_run_readSerial (h : s.uart.regs.Duplex) {b : Byte}
    (hr : Prog.run Com1.exec (readSerial fuel) s = .ok (b, t)) : Uart.Exchanged s.uart [] [b] t.uart := by
  obtain ⟨⟨⟩, u, hu, hw⟩ := Prog.of_run_bind Com1.exec hr
  obtain ⟨hx, hne⟩ := of_run_pollReceive h hu
  have hd : u.pass.uart.regs.Duplex := by
    rw [pass_regs, hx.regs]
    exact h
  rw [run_inb (o := 0#3) (by decide)] at hw
  cases hw
  exact (hx.trans (Uart.Exchanged.events (hx.regs ▸ h) (u.line 0))).trans
    (Uart.Exchanged.read hd (Uart.events_receive_ne_nil (Or.inl hne)))

theorem writeSerial_settles (h : s.Sends) (a : Byte) :
    ∃ t, Prog.Settles Com1.exec (fun fuel => writeSerial fuel a) s () t := by
  obtain ⟨u, hu⟩ := pollTransmit_settles h
  exact ⟨_, hu.bind (q := fun _ _ => outb port a) (.of_run fun _ => run_outb (o := 0#3) (by decide) a u)⟩

theorem writeStringSerial_settles (h : s.Sends) (str : List Byte) :
    ∃ t, Prog.Settles Com1.exec (fun fuel => writeStringSerial fuel str) s () t := by
  induction str generalizing s with
  | nil => exact ⟨s, .of_run fun _ => rfl⟩
  | cons a str ih =>
    by_cases ha : a = 0#8
    · subst ha
      exact ⟨s, .of_run fun _ => rfl⟩
    · obtain ⟨u, n, hu⟩ := writeSerial_settles h a
      obtain ⟨m, hm⟩ := line_of_run (hu n (Nat.le_refl n))
      obtain ⟨t, ht⟩ := ih (h.of_line hm)
      simp only [writeStringSerial, if_neg ha]
      exact ⟨t, Prog.Settles.bind (q := fun fuel _ => writeStringSerial fuel str) ⟨n, hu⟩ ht⟩

theorem readSerial_settles (h : s.uart.regs.Duplex) (hs : s.Receives) :
    ∃ b t, Prog.Settles Com1.exec readSerial s b t := by
  obtain ⟨u, hu⟩ := pollReceive_settles h hs
  exact ⟨_, _, hu.bind (q := fun _ _ => inb port) (.of_run fun _ => run_inb (o := 0#3) (by decide) u)⟩

end Calls

/-- What the kernel asks of the driver. -/
inductive Request
  | write (a : Byte)
  | writeString (str : List Byte)
  | read

namespace Request

/-- The bytes that are read. -/
def run (fuel : Nat) : Request → Code (List Byte)
  | .write a => do
    writeSerial fuel a
    return []
  | .writeString str => do
    writeStringSerial fuel str
    return []
  | .read => do
    let b ← readSerial fuel
    return [b]

/-- The bytes that are written. -/
def given : Request → List Byte
  | .write a => [a]
  | .writeString str => Stdio.cstring str
  | .read => []

end Request

def session (fuel : Nat) : List Request → Code (List Byte)
  | [] => return []
  | r :: rs => do
    let bs ← r.run fuel
    let bs' ← session fuel rs
    return bs ++ bs'

section Sessions

variable {s t : Com1}

theorem Request.of_run {r : Request} (h : s.uart.regs.Duplex) {fuel : Nat} {bs : List Byte}
    (hr : Prog.run Com1.exec (r.run fuel) s = .ok (bs, t)) : Uart.Exchanged s.uart r.given bs t.uart := by
  cases r with
  | write a =>
    obtain ⟨⟨⟩, u, hu, hret⟩ := Prog.of_run_bind Com1.exec hr
    cases hret
    exact (of_run_writeSerial h hu).1
  | writeString str =>
    obtain ⟨⟨⟩, u, hu, hret⟩ := Prog.of_run_bind Com1.exec hr
    cases hret
    exact of_run_writeStringSerial h hu
  | read =>
    obtain ⟨b, u, hu, hret⟩ := Prog.of_run_bind Com1.exec hr
    cases hret
    exact of_run_readSerial h hu

theorem Request.settles {r : Request} (h : s.uart.regs.Duplex) (hs : s.Sends) (hr : s.Receives) :
    ∃ bs t, Prog.Settles Com1.exec r.run s bs t := by
  cases r with
  | write a =>
    obtain ⟨t, ht⟩ := writeSerial_settles hs a
    exact ⟨[], t, ht.bind (q := fun _ _ => return []) (.of_run fun _ => rfl)⟩
  | writeString str =>
    obtain ⟨t, ht⟩ := writeStringSerial_settles hs str
    exact ⟨[], t, ht.bind (q := fun _ _ => return []) (.of_run fun _ => rfl)⟩
  | read =>
    obtain ⟨b, t, ht⟩ := readSerial_settles h hr
    exact ⟨[b], t, ht.bind (q := fun _ b => return [b]) (.of_run fun _ => rfl)⟩

/-- Whatever happens on the line between the accesses: the bytes of a session go out in order
and none of them is lost, and what is read is what came in, in order. -/
theorem session_exchanged (h : s.uart.regs.Duplex) {fuel : Nat} {rs : List Request} {bs : List Byte}
    (hr : Prog.run Com1.exec (session fuel rs) s = .ok (bs, t)) :
    Uart.Exchanged s.uart (rs.flatMap Request.given) bs t.uart := by
  induction rs generalizing s bs with
  | nil =>
    cases hr
    exact .refl _
  | cons r rs ih =>
    obtain ⟨xs, u, hu, hrest⟩ := Prog.of_run_bind Com1.exec hr
    obtain ⟨ys, v, hv, hret⟩ := Prog.of_run_bind Com1.exec hrest
    cases hret
    have hx := Request.of_run h hu
    exact hx.trans (ih (hx.regs ▸ h) hv)

/-- With a line that goes on in both directions every session comes to its end. -/
theorem session_settles (h : s.uart.regs.Duplex) (hs : s.Sends) (hr : s.Receives) (rs : List Request) :
    ∃ bs t, Prog.Settles Com1.exec (fun fuel => session fuel rs) s bs t := by
  induction rs generalizing s with
  | nil => exact ⟨[], s, .of_run fun _ => rfl⟩
  | cons r rs ih =>
    obtain ⟨xs, u, n, hu⟩ := Request.settles (r := r) h hs hr
    have hrun := hu n (Nat.le_refl n)
    have hx := Request.of_run h hrun
    obtain ⟨m, hm⟩ := line_of_run hrun
    obtain ⟨ys, t, ht⟩ := ih (hx.regs ▸ h) (hs.of_line hm) (hr.of_line hm)
    refine ⟨xs ++ ys, t, Prog.Settles.bind (q := fun fuel bs => do
      let bs' ← session fuel rs
      return bs ++ bs') ⟨n, hu⟩ ?_⟩
    exact ht.bind (q := fun _ bs' => return xs ++ bs') (.of_run fun _ => rfl)

end Sessions

section Loopback

variable {s t : Com1}

/-- What leaves the modem control register alone. -/
def KeepsMode : Op → Prop
  | .outb p _ => Com1.offset p ≠ some 4#3
  | _ => True

/-- The UART is in loopback mode and neither side of the line has had anything from the other since
`s`. -/
structure Isolated (s t : Com1) : Prop extends Uart.Enclosed s.uart t.uart where
  loopback : t.uart.regs.loopback = true

theorem Isolated.step {u : Com1} {o : Op} {x : o.Res × Com1} (ho : KeepsMode o)
    (he : Com1.exec o u = .ok x) (h : Isolated s u) : Isolated s x.2 := by
  have hpass := h.toEnclosed.trans (Uart.Enclosed.events h.loopback (u.line 0))
  have hmcr : u.pass.uart.regs.mcr = u.uart.regs.mcr := by rw [pass_regs]
  have hloop {v : Registers} (hv : v.mcr = u.uart.regs.mcr) : v.loopback = true := by
    rw [Registers.loopback, hv]
    exact h.loopback
  cases o with
  | inb p =>
    rw [Com1.exec] at he
    split at he <;> cases he
    · next offset _ =>
      refine ⟨hpass.trans (Uart.Enclosed.read _ offset), hloop ?_⟩
      show (u.pass.uart.read offset).2.regs.mcr = _
      rw [Uart.read_regs, hmcr]
    · exact h
  | outb p v =>
    rw [Com1.exec] at he
    split at he <;> cases he
    · next offset hoff =>
      have hne : offset ≠ 4#3 := fun he => ho (hoff.trans (congrArg some he))
      exact ⟨hpass.trans (Uart.Enclosed.write _ offset v), hloop ((Uart.write_mcr hne _ v).trans hmcr)⟩
    · exact h
  | _ => cases he

theorem session_keepsMode (fuel : Nat) (rs : List Request) : Prog.All KeepsMode (session fuel rs) := by
  have hin (p : BitVec 16) : Prog.All KeepsMode (inb p) := Prog.all_perform.mpr trivial
  have hout (v : Byte) : Prog.All KeepsMode (outb port v) := by
    refine Prog.all_perform.mpr ?_
    show Com1.offset port ≠ some 4#3
    decide
  have hfuel : Prog.All KeepsMode (outOfFuel : Code Unit) :=
    Prog.All.bind (Prog.all_perform.mpr trivial) nofun
  have hwrite (a : Byte) : Prog.All KeepsMode (writeSerial fuel a) := by
    refine (Prog.All.loop hfuel (fun _ => ?_) fuel ()).bind fun _ => hout a
    exact ((hin _).bind fun _ => Prog.all_ret _).bind fun _ => Prog.all_ret _
  have hread : Prog.All KeepsMode (readSerial fuel) := by
    refine (Prog.All.loop hfuel (fun _ => ?_) fuel ()).bind fun _ => hin port
    exact ((hin _).bind fun _ => Prog.all_ret _).bind fun _ => Prog.all_ret _
  have hstring (str : List Byte) : Prog.All KeepsMode (writeStringSerial fuel str) := by
    induction str with
    | nil => trivial
    | cons a str ih =>
      rw [writeStringSerial]
      split
      · trivial
      · exact (hwrite a).bind fun _ => ih
  induction rs with
  | nil => trivial
  | cons r rs ih =>
    refine Prog.All.bind ?_ fun _ => ih.bind fun _ => Prog.all_ret _
    cases r with
    | write a => exact (hwrite a).bind fun _ => Prog.all_ret _
    | writeString str => exact (hstring str).bind fun _ => Prog.all_ret _
    | read => exact hread.bind fun _ => Prog.all_ret _

/-- At every access of a session, also of one that waits for ever,
the UART is as isolated as before it. -/
theorem session_isolated (h : s.uart.regs.loopback = true) (fuel : Nat) (rs : List Request) :
    (∀ x ∈ Prog.trace Com1.exec (session fuel rs) s, Isolated s x.2) ∧
      ∀ bs u, Prog.run Com1.exec (session fuel rs) s = .ok (bs, u) → Isolated s u := by
  have hs : Isolated s s := ⟨⟨rfl, rfl⟩, h⟩
  have hkeeps := session_keepsMode fuel rs
  have hop (o : Op) (u : Com1) (x : o.Res × Com1) (ho : KeepsMode o) (he : Com1.exec o u = .ok x)
      (hu : Isolated s u) : Isolated s x.2 := hu.step ho he
  exact ⟨hkeeps.trace_inv hop hs, fun bs u hr => hkeeps.run_inv hop hr hs⟩

end Loopback

end Serial

end PekOS
