import PekOS.Ps2Devices

/-! What `init_ps2` exchanges with the controller and its devices. -/

namespace PekOS

open OpTree Code

namespace Session

variable {ch : Channels}

/-- Whatever the delays, the code returns `a` and leaves the controller as in `e`. -/
def Leads (ch : Channels) {α : Type} (p : Nat → Code α) (d : Desk) (a : α) (e : Desk) : Prop :=
  ∀ s : Session, s.desk = d → ∃ t : Session, t.desk = e ∧ Prog.Settles (exec ch) p s a t

namespace Leads

variable {α β : Type} {d e : Desk}

theorem ret (a : α) (d : Desk) : Leads ch (fun _ => return a) d a d :=
  fun s hs => ⟨s, hs, .of_run fun _ => rfl⟩

theorem bind {p : Nat → Code α} {q : Nat → α → Code β} {a : α} {b : β} {f : Desk} (hp : Leads ch p d a e)
    (hq : Leads ch (fun fuel => q fuel a) e b f) : Leads ch (fun fuel => p fuel >>= q fuel) d b f := by
  intro s hs
  obtain ⟨t, ht, hp⟩ := hp s hs
  obtain ⟨u, hu, hq⟩ := hq t ht
  exact ⟨u, hu, hp.bind hq⟩

theorem ite_pos {c : Prop} [Decidable c] (h : c) {p q : Nat → Code α} {a : α} (hp : Leads ch p d a e) :
    Leads ch (fun fuel => if c then p fuel else q fuel) d a e := by
  simpa only [if_pos h] using hp

theorem ite_neg {c : Prop} [Decidable c] (h : ¬ c) {p q : Nat → Code α} {a : α} (hq : Leads ch q d a e) :
    Leads ch (fun fuel => if c then p fuel else q fuel) d a e := by
  simpa only [if_neg h] using hq

theorem outbCommand (b : Byte) (d : Desk) : Leads ch (fun _ => outb 0x64#16 b) d () (d.command ch b) :=
  fun s hs => ⟨{ s with desk := s.desk.command ch b }, hs ▸ rfl, .of_run fun _ => rfl⟩

theorem outbData (b : Byte) (d : Desk) : Leads ch (fun _ => outb 0x60#16 b) d () (d.data ch b) :=
  fun s hs => ⟨{ s with desk := s.desk.data ch b }, hs ▸ rfl, .of_run fun _ => rfl⟩

theorem ioWait (d : Desk) : Leads ch (fun _ => PekOS.ioWait) d () d :=
  fun s hs => ⟨s, hs, .of_run fun _ => rfl⟩

theorem modify (f : Globals → Globals) {m : Machine} {config : Byte} {out : List (Byte × Nat)}
    {n k : Nat} :
    Leads ch (fun _ => Code.modify f) ⟨m, config, none, out, n, k⟩ ()
      ⟨{ m with globals := f m.globals }, config, none, out, n, k⟩ := by
  rintro ⟨d, wait, delays⟩ rfl
  exact ⟨⟨⟨{ m with globals := f m.globals }, config, none, out, n, k⟩, wait, delays⟩, rfl,
    .of_run fun _ => rfl⟩

theorem flag (f : Globals → Bool) (d : Desk) :
    Leads ch (fun _ => Code.flag f) d (f d.machine.globals) d := by
  intro s hs
  refine ⟨s, hs, .of_run fun _ => ?_⟩
  subst hs
  have hrun : Prog.run (exec ch) (Code.flag f) s =
      .ok (decide ((if f s.desk.machine.globals then 1#32 else 0#32) ≠ 0#32), s) := rfl
  rw [hrun]
  cases f s.desk.machine.globals <;> rfl

theorem waitPs2 (d : Desk) : Leads ch PekOS.waitPs2 d () d := by
  intro s hs
  obtain ⟨status, t, hstatus, hzero, ht⟩ : ∃ (status : Byte) (t : Session),
      s.status = (status, t) ∧ status &&& 2#8 = 0#8 ∧ t.desk = s.desk := by
    unfold Session.status
    split
    · exact ⟨_, _, rfl, rfl, rfl⟩
    · split
      · exact ⟨_, _, rfl, rfl, rfl⟩
      · exact ⟨_, _, rfl, rfl, rfl⟩
  refine ⟨t, ht.trans hs, 1, fun fuel hfuel => ?_⟩
  obtain ⟨n, rfl⟩ : ∃ n, fuel = n + 1 := ⟨fuel - 1, by omega⟩
  have hin : Prog.run (exec ch) (inb 0x64#16) s = .ok (status, t) := congrArg _ hstatus
  rw [PekOS.waitPs2, Prog.loop, Prog.bind_assoc, Prog.run_bind_ok _ hin, hzero]
  rfl

theorem sendPs2Command (b : Byte) (d : Desk) :
    Leads ch (fun fuel => PekOS.sendPs2Command fuel b) d () (d.command ch b) :=
  (waitPs2 d).bind (outbCommand b d)

theorem sendDeviceData (b : Byte) (d : Desk) :
    Leads ch (fun fuel => PekOS.sendDeviceData fuel b) d () (d.data ch b) :=
  (waitPs2 d).bind (outbData b d)

theorem flushPs2 (hd : d.output = []) : Leads ch PekOS.flushPs2 d () d := by
  intro s hs
  refine ⟨s, hs, 1, fun fuel hfuel => ?_⟩
  obtain ⟨n, rfl⟩ : ∃ n, fuel = n + 1 := ⟨fuel - 1, by omega⟩
  have hin : Prog.run (exec ch) (inb 0x64#16) s = .ok (0#8, s) := by
    have hstatus : s.status = (0#8, s) := if_pos (hs ▸ hd)
    exact congrArg _ hstatus
  rw [PekOS.flushPs2, Prog.loop, Prog.bind_assoc, Prog.run_bind_ok _ hin]
  rfl

theorem run_poll {s : Session} (hs : s.desk.output ≠ []) {fuel : Nat} (hfuel : s.wait < fuel) :
    Prog.run (exec ch) (Prog.loop outOfFuel (fun _ => do
      let full ← ps2OutputBufferFull
      return if full then .inr () else .inl ()) fuel ()) s = .ok ((), { s with wait := 0 }) := by
  induction fuel generalizing s with
  | zero => exact absurd hfuel (Nat.not_lt_zero _)
  | succ n ih =>
    by_cases hwait : s.wait = 0
    · have hin : Prog.run (exec ch) (inb 0x64#16) s = .ok (1#8, s) := by
        have hstatus : s.status = (1#8, s) := by rw [status, if_neg hs, if_pos hwait]
        exact congrArg _ hstatus
      have hsame : ({ s with wait := 0 } : Session) = s := by rw [← hwait]
      rw [hsame, Prog.loop, ps2OutputBufferFull, Prog.bind_assoc, Prog.bind_assoc, Prog.run_bind_ok _ hin]
      rfl
    · have hin : Prog.run (exec ch) (inb 0x64#16) s = .ok (0#8, { s with wait := s.wait - 1 }) := by
        have hstatus : s.status = (0#8, { s with wait := s.wait - 1 }) := by
          rw [status, if_neg hs, if_neg hwait]
        exact congrArg _ hstatus
      rw [Prog.loop, ps2OutputBufferFull, Prog.bind_assoc, Prog.bind_assoc, Prog.run_bind_ok _ hin]
      exact ih hs (by dsimp only; omega)

theorem readPs2Data {b : Byte} {command : Nat} {output : List (Byte × Nat)}
    (hd : d.output = (b, command) :: output) :
    Leads ch PekOS.readPs2Data d b { d with
      output := output
      strays := if command = d.sent then d.strays else d.strays + 1 } := by
  intro s hs
  subst hs
  obtain ⟨t, htake, ht⟩ : ∃ t : Session, ({ s with wait := 0 } : Session).take = (b, t) ∧
    t.desk = { s.desk with
      output := output
      strays := if command = s.desk.sent then s.desk.strays else s.desk.strays + 1 } := by
    rw [take, if_neg (fun h => h rfl), hd]
    exact ⟨_, rfl, rfl⟩
  refine ⟨t, ht, s.wait + 1, fun fuel hfuel => ?_⟩
  have hne : s.desk.output ≠ [] := by simp [hd]
  rw [PekOS.readPs2Data, Prog.run_bind_ok _ (run_poll hne (Nat.lt_of_succ_le hfuel))]
  exact congrArg _ htake

section Devices

variable {m : Machine} {config : Byte} {out : List (Byte × Nat)} {n k : Nat}

theorem read {b : Byte} : Leads ch PekOS.readPs2Data ⟨m, config, none, (b, n) :: out, n, k⟩ b
    ⟨m, config, none, out, n, k⟩ := by
  have h : Leads ch PekOS.readPs2Data ⟨m, config, none, (b, n) :: out, n, k⟩ b _ := readPs2Data rfl
  rwa [if_pos rfl] at h

theorem readStray {b : Byte} {command : Nat} (h : command ≠ n) :
    Leads ch PekOS.readPs2Data ⟨m, config, none, (b, command) :: out, n, k⟩ b
    ⟨m, config, none, out, n, k + 1⟩ := by
  have hread : Leads ch PekOS.readPs2Data ⟨m, config, none, (b, command) :: out, n, k⟩ b _ :=
    readPs2Data rfl
  rwa [if_neg h] at hread

theorem askConfig :
    Leads ch (fun fuel => PekOS.sendPs2Command fuel 0x20#8) ⟨m, config, none, out, n, k⟩ ()
    ⟨m, config, none, out ++ [(config, n + 1)], n + 1, k⟩ := sendPs2Command 0x20#8 _

theorem tellFirst (hfirst : config &&& 0x10#8 = 0#8) (b : Byte) :
    Leads ch (fun fuel => PekOS.sendDeviceData fuel b) ⟨m, config, none, out, n, k⟩ ()
      ⟨m, config, none, out ++ (Device.keyboard.answer b).map fun b => (b, n + 1), n + 1, k⟩ := by
  have hdata : (⟨m, config, none, out, n, k⟩ : Desk).data ch b =
      ⟨m, config, none, out ++ (Device.keyboard.answer b).map fun b => (b, n + 1), n + 1, k⟩ := by
    rw [Desk.data]
    exact if_pos hfirst
  exact hdata ▸ sendDeviceData b _

theorem tellSecond (hsecond : config &&& 0x20#8 = 0#8) (b : Byte) {α : Type} {q : Nat → Code α}
    {a : α} {e : Desk}
    (hq : Leads ch q ⟨m, config, none, out ++ (ch.second.answer b).map fun b => (b, n + 1 + 1),
    n + 1 + 1, k⟩ a e) :
    Leads ch (fun fuel => PekOS.sendPs2Command fuel 0xD4#8 >>=
      fun _ => PekOS.sendDeviceData fuel b >>= fun _ => q fuel) ⟨m, config, none, out, n, k⟩ a e := by
  have hdata : (⟨m, config, some 0xD4#8, out, n + 1, k⟩ : Desk).data ch b =
      ⟨m, config, none, out ++ (ch.second.answer b).map fun b => (b, n + 1 + 1), n + 1 + 1, k⟩ := by
    rw [Desk.data]
    exact if_pos hsecond
  exact (sendPs2Command 0xD4#8 _).bind ((sendDeviceData b _).bind (hdata.symm ▸ hq))

theorem readPs2Reset :
    Leads ch PekOS.readPs2Reset ⟨m, config, none, (0xFA#8, n) :: (0xAA#8, n) :: out, n, k⟩ ()
    ⟨m, config, none, out, n, k⟩ := by
  refine read.bind ?_
  simp only [if_true]
  exact read.bind (ret () _)

end Devices

end Leads

/-! The devices. -/

section Devices

variable {m : Machine} {config : Byte} {out : List (Byte × Nat)} {n k : Nat}

/-- The configuration byte is read, and written with the interrupts enabled. -/
theorem leads_enableInterrupts : Leads ch (fun fuel => do
    sendPs2Command fuel 0x20#8
    let config ← readPs2Data fuel
    sendPs2Command fuel 0x60#8
    outb 0x60#16 (config ||| 3#8)) ⟨m, config, none, [], n, k⟩ ()
      ⟨m, config ||| 3#8, none, [], n + 1 + 1 + 1, k⟩ :=
  Leads.askConfig.bind (Leads.read.bind ((Leads.sendPs2Command 0x60#8 _).bind (Leads.outbData _ _)))

theorem leads_detect_first (hfirst : config &&& 0x10#8 = 0#8) :
    Leads ch (fun fuel => detectPs2Device fuel 1#8) ⟨m, config, none, [], n, k⟩ 0xAB#8
      ⟨m, config, none, [], n + 1 + 1, k⟩ := by
  refine (Leads.ret () _).bind ((Leads.tellFirst hfirst 0xF5#8).bind (Leads.read.bind ?_))
  refine (Leads.tellFirst hfirst 0xF2#8).bind (Leads.read.bind (Leads.read.bind ?_))
  exact (Leads.ioWait _).bind (Leads.read.bind (Leads.ret _ _))

/-- The identification is asked of the keyboard on the first port. -/
theorem leads_detect_second (hch : ch.second = .keyboard) (hfirst : config &&& 0x10#8 = 0#8)
    (hsecond : config &&& 0x20#8 = 0#8) :
    Leads ch (fun fuel => detectPs2Device fuel 2#8) ⟨m, config, none, [], n, k⟩ 0xAB#8
      ⟨m, config, none, [], n + 1 + 1 + 1, k⟩ := by
  refine Leads.tellSecond hsecond 0xF5#8 ?_
  rw [hch]
  refine Leads.read.bind ((Leads.tellFirst hfirst 0xF2#8).bind (Leads.read.bind (Leads.read.bind ?_)))
  exact (Leads.ioWait _).bind (Leads.read.bind (Leads.ret _ _))

theorem leads_startDevices_keyboard (hch : ch.second = .keyboard) (hfirst : config &&& 0x10#8 = 0#8)
    (hsecond : config &&& 0x20#8 = 0#8) :
    Leads ch (fun fuel => startDevices fuel true true) ⟨m, config, none, [], n, k⟩ ()
      ⟨{ m with globals :=
          { m.globals with device1 := 0xAB#8, device2 := 0xAB#8, commandRes := 0xFA#8 } },
        config ||| 3#8, none, [], n + 12, k⟩ := by
  refine (Leads.tellFirst hfirst 0xFF#8).bind (Leads.readPs2Reset.bind ?_)
  refine Leads.tellSecond hsecond 0xFF#8 ?_
  rw [hch]
  refine Leads.readPs2Reset.bind ?_
  refine ((leads_detect_first hfirst).bind (Leads.modify _)).bind ?_
  refine ((leads_detect_second hch hfirst hsecond).bind (Leads.modify _)).bind ?_
  refine (Leads.tellFirst hfirst 0xF4#8).bind (Leads.read.bind ((Leads.modify _).bind ?_))
  exact leads_enableInterrupts

/-- A byte that is left over stands before what the keyboard answers. -/
theorem leads_detect_first_late (hfirst : config &&& 0x10#8 = 0#8) {b : Byte} {command : Nat}
    (hlate : command ≤ n) :
    Leads ch (fun fuel => detectPs2Device fuel 1#8) ⟨m, config, none, [(b, command)], n, k⟩ 0xFA#8
      ⟨m, config, none, [(0x83#8, n + 2)], n + 2, k + 2⟩ := by
  refine (Leads.ret () _).bind
    ((Leads.tellFirst hfirst 0xF5#8).bind ((Leads.readStray (by omega)).bind ?_))
  refine (Leads.tellFirst hfirst 0xF2#8).bind ((Leads.readStray (by omega)).bind (Leads.read.bind ?_))
  exact (Leads.ioWait _).bind (Leads.read.bind (Leads.ret _ _))

theorem leads_detect_second_late (hch : ch.second = .mouse) (hfirst : config &&& 0x10#8 = 0#8)
    (hsecond : config &&& 0x20#8 = 0#8) {b : Byte} {command : Nat} (hlate : command ≤ n) :
    Leads ch (fun fuel => detectPs2Device fuel 2#8) ⟨m, config, none, [(b, command)], n, k⟩ 0xFA#8
      ⟨m, config, none, [(0x83#8, n + 3)], n + 3, k + 2⟩ := by
  refine Leads.tellSecond hsecond 0xF5#8 ?_
  rw [hch]
  refine (Leads.readStray (by omega)).bind ?_
  refine (Leads.tellFirst hfirst 0xF2#8).bind ((Leads.readStray (by omega)).bind (Leads.read.bind ?_))
  exact (Leads.ioWait _).bind (Leads.read.bind (Leads.ret _ _))

/-- The third byte with which a mouse answers a reset is not read with the other two. -/
theorem leads_startDevices_mouse (hch : ch.second = .mouse) (hfirst : config &&& 0x10#8 = 0#8)
    (hsecond : config &&& 0x20#8 = 0#8) :
    Leads ch (fun fuel => startDevices fuel true true) ⟨m, config, none, [], n, k⟩ ()
      ⟨{ m with globals :=
          { m.globals with device1 := 0xFA#8, device2 := 0xFA#8, commandRes := 0x83#8 } },
        0xFB#8, none, [(config, n + 10)], n + 12, k + 6⟩ := by
  refine (Leads.tellFirst hfirst 0xFF#8).bind (Leads.readPs2Reset.bind ?_)
  refine Leads.tellSecond hsecond 0xFF#8 ?_
  rw [hch]
  refine Leads.readPs2Reset.bind ?_
  refine ((leads_detect_first_late hfirst (Nat.le_refl _)).bind (Leads.modify _)).bind ?_
  refine ((leads_detect_second_late hch hfirst hsecond (Nat.le_refl _)).bind (Leads.modify _)).bind ?_
  refine (Leads.tellFirst hfirst 0xF4#8).bind
    ((Leads.readStray (by omega)).bind ((Leads.modify _).bind ?_))
  refine Leads.askConfig.bind ((Leads.readStray (by omega)).bind ?_)
  exact (Leads.sendPs2Command 0x60#8 _).bind (Leads.outbData _ _)

theorem leads_ps2IsDualChannel (hdual : config &&& 0x20#8 ≠ 0#8) :
    Leads ch (fun fuel => ps2IsDualChannel fuel config) ⟨m, config, none, [], n, k⟩ true
      ⟨m, config &&& ~~~0x20#8 ||| 0x20#8, none, [], n + 3, k⟩ := by
  have hclear : ∀ c : Byte, c &&& ~~~0x20#8 &&& 0x20#8 = 0#8 := by decide
  refine Leads.ite_neg hdual
    ((Leads.sendPs2Command 0xA8#8 _).bind (Leads.askConfig.bind (Leads.read.bind ?_)))
  exact Leads.ite_pos (hclear config) ((Leads.sendPs2Command 0xA7#8 _).bind (Leads.ret _ _))

/-- Up to the reset of the devices: both ports are found to work and are enabled. -/
theorem leads_startPs2 (config : Byte) {e : Byte → Desk}
    (h : ∀ active : Byte, active &&& 0x10#8 = 0#8 → active &&& 0x20#8 = 0#8 →
      Leads ch (fun fuel => startDevices fuel true true)
        ⟨{ m with globals :=
            { m.globals with firstControllerWorks := true, secondControllerWorks := true } },
          active, none, [], n + 15, k⟩ () (e active)) :
    ∃ active, Leads ch startPs2 ⟨m, config, none, [], n, k⟩ () (e active) := by
  have hdual : ∀ c : Byte, (c ||| 0x10#8 ||| 0x20#8) &&& 0xBC#8 &&& 0x20#8 ≠ 0#8 := by decide
  have hfirst : ∀ c : Byte, c &&& ~~~0x10#8 &&& ~~~0x20#8 &&& 0x10#8 = 0#8 := by decide
  have hsecond : ∀ c : Byte, c &&& ~~~0x10#8 &&& ~~~0x20#8 &&& 0x20#8 = 0#8 := by decide
  let config' : Byte := (config ||| 0x10#8 ||| 0x20#8) &&& 0xBC#8
  refine ⟨(config' &&& ~~~0x20#8 ||| 0x20#8) &&& ~~~0x10#8 &&& ~~~0x20#8, ?_⟩
  refine (Leads.outbCommand 0xAD#8 _).bind
    ((Leads.outbCommand 0xA7#8 _).bind ((Leads.flushPs2 rfl).bind ?_))
  refine Leads.askConfig.bind (Leads.read.bind ?_)
  refine (Leads.sendPs2Command 0x60#8 _).bind ((Leads.outbData _ _).bind ?_)
  refine (Leads.sendPs2Command 0xAA#8 _).bind (Leads.read.bind (Leads.ite_neg (by decide) ?_))
  refine (Leads.sendPs2Command 0x60#8 _).bind ((Leads.outbData _ _).bind ?_)
  refine (leads_ps2IsDualChannel (hdual config)).bind ?_
  refine (Leads.sendPs2Command 0xAB#8 _).bind (Leads.read.bind ((Leads.modify _).bind ?_))
  refine (Leads.sendPs2Command 0xA9#8 _).bind (Leads.read.bind ((Leads.modify _).bind ?_))
  refine (Leads.flag _ _).bind ((Leads.ite_pos rfl (Leads.sendPs2Command 0xAE#8 _)).bind ?_)
  refine (Leads.flag _ _).bind ((Leads.ite_pos rfl (Leads.sendPs2Command 0xA8#8 _)).bind ?_)
  exact h _ (hfirst _) (hsecond _)

end Devices

/-- What uses no port runs as on the machine alone. -/
theorem run_local {α : Type} {p : Code α} (h : Prog.All Op.Local p) {s : Session} {a : α} {m : Machine}
    (hr : Prog.run Machine.exec p s.desk.machine = .ok (a, m)) :
    Prog.run (exec ch) p s = .ok (a, { s with desk := { s.desk with machine := m } }) := by
  induction p generalizing s with
  | ret b =>
    obtain ⟨rfl, rfl⟩ : b = a ∧ s.desk.machine = m := by simpa using hr
    rfl
  | op o k ih =>
    rw [Prog.run] at hr ⊢
    have hexec : exec ch o s = (Machine.exec o s.desk.machine).map fun x =>
        (x.1, { s with desk := { s.desk with machine := x.2 } }) := by
      cases o with
      | inb | outb => exact h.1.elim
      | _ => rfl
    rw [hexec]
    cases hm : Machine.exec o s.desk.machine with
    | error x => simp [hm] at hr
    | ok x =>
      simp only [hm] at hr
      exact ih x.1 (h.2 x.1) hr

theorem leads_initPs2 {m m' : Machine} {config : Byte} {n k : Nat} {e : Desk}
    (hfind : Prog.run Machine.exec findPs2 m = .ok (true, m'))
    (h : Leads ch startPs2 ⟨m', config, none, [], n, k⟩ () e) :
    Leads ch initPs2 ⟨m, config, none, [], n, k⟩ () e := by
  have hlead : Leads ch (fun _ => findPs2) ⟨m, config, none, [], n, k⟩ true
      ⟨m', config, none, [], n, k⟩ := by
    rintro ⟨d, wait, delays⟩ rfl
    exact ⟨⟨⟨m', config, none, [], n, k⟩, wait, delays⟩, rfl,
      .of_run fun _ => run_local findPs2_local hfind⟩
  simp only [funext initPs2_eq]
  exact hlead.bind (Leads.ite_pos rfl h)

/-- The run returns, no byte is read after another has been written, and each
device is known by the first byte of its identification. -/
def Identifies (ch : Channels) (s : Session) : Prop :=
  ∃ t, Prog.Settles (exec ch) initPs2 s () t ∧ t.desk.strays = s.desk.strays ∧
    t.desk.machine.globals.device1 = Device.keyboard.id ∧ t.desk.machine.globals.device2 = ch.second.id

section Identifies

variable {m m' : Machine} {config : Byte} {n k wait : Nat} {delays : Nat → Nat}

theorem identifies_keyboard (hch : ch.second = .keyboard)
    (hfind : Prog.run Machine.exec findPs2 m = .ok (true, m')) :
    Identifies ch ⟨⟨m, config, none, [], n, k⟩, wait, delays⟩ := by
  obtain ⟨active, hlead⟩ := leads_startPs2 (m := m') (n := n) (k := k) config
    fun active hfirst hsecond => leads_startDevices_keyboard hch hfirst hsecond
  obtain ⟨t, ht, hsettles⟩ := leads_initPs2 hfind hlead ⟨_, wait, delays⟩ rfl
  refine ⟨t, hsettles, ?_⟩
  rw [ht, hch]
  exact ⟨rfl, rfl, rfl⟩

theorem not_identifies_mouse (hch : ch.second = .mouse)
    (hfind : Prog.run Machine.exec findPs2 m = .ok (true, m')) :
    ¬ Identifies ch ⟨⟨m, config, none, [], n, k⟩, wait, delays⟩ := by
  intro h
  obtain ⟨t', hsettles', _, hdevice, _⟩ := h
  obtain ⟨active, hlead⟩ := leads_startPs2 (m := m') (n := n) (k := k) config
    fun active hfirst hsecond => leads_startDevices_mouse hch hfirst hsecond
  obtain ⟨t, ht, hsettles⟩ := leads_initPs2 hfind hlead ⟨_, wait, delays⟩ rfl
  obtain rfl : t = t' := hsettles.unique hsettles'
  have hid : (0xFA#8 : Byte) ≠ Device.keyboard.id := by decide
  rw [ht] at hdevice
  exact hid hdevice

end Identifies

/-- `init_ps2` identifies the devices if and only if there are two keyboards. -/
theorem identifies_iff (s : Session) (houtput : s.desk.output = []) (hawaiting : s.desk.awaiting = none)
    {m : Machine} (hfind : Prog.run Machine.exec findPs2 s.desk.machine = .ok (true, m)) :
    Identifies ch s ↔ ch.second = .keyboard := by
  obtain ⟨⟨m₀, config, awaiting, output, n, k⟩, wait, delays⟩ := s
  obtain rfl : output = [] := houtput
  obtain rfl : awaiting = none := hawaiting
  cases hch : ch.second with
  | keyboard => exact iff_of_true (identifies_keyboard hch hfind) rfl
  | mouse => exact iff_of_false (not_identifies_mouse hch hfind) nofun

theorem identifies_iff_uniform :
    Identifies ⟨.keyboard, id⟩ ⟨⟨Machine.uniform, 0#8, none, [], 0, 0⟩, 0, fun i => i⟩ ↔
      (⟨.keyboard, id⟩ : Channels).second = .keyboard :=
  identifies_iff _ rfl rfl (m :=
    { Machine.uniform with globals := { initialGlobals with fadt := 0#32 } }) rfl

/-- The third byte of a mouse's answer to the reset is read as the answer to the next command. -/
theorem mouse_not_identified :
    ¬ Identifies ⟨.mouse, id⟩ ⟨⟨Machine.uniform, 0#8, none, [], 0, 0⟩, 0, fun _ => 0⟩ :=
  have hfind : Prog.run Machine.exec findPs2 Machine.uniform =
      .ok (true, { Machine.uniform with globals := { initialGlobals with fadt := 0#32 } }) := rfl
  not_identifies_mouse rfl hfind

end Session

end PekOS
