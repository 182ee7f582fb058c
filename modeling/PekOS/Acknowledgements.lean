import PekOS.Vectors
import PekOS.Library.Runs

/-! Which deliveries the handlers acknowledge as they should. -/

namespace PekOS

open OpTree Code I8259

theorem Source.perm_iff (source : Source) : source.acknowledged.Perm source.controllers ↔
    source.Proper := by
  have hpic : ∀ line, (pic line).acknowledged.Perm (pic line).controllers ↔ line ≠ 1 := by decide
  have hioapic : ∀ entry, (ioapic entry).acknowledged.Perm (ioapic entry).controllers ↔
      entry ≠ 1 ∧ entry ≠ 15 := by
    decide
  cases source with
  | pic line => simpa [Proper] using hpic line
  | timer => exact iff_of_true (List.Perm.refl _) ⟨by decide, by decide, by decide⟩
  | ioapic entry => simpa [Proper] using hioapic entry

/-- Reads of the keyboard controller. -/
def Op.Polls : Op → Prop
  | .inb port => port = 0x60#16 ∨ port = 0x64#16
  | .outOfFuel => True
  | _ => False

theorem readPs2Data_polls (fuel : Nat) : Prog.All Op.Polls (readPs2Data fuel) := by
  have hin (port : BitVec 16) (h : port = 0x60#16 ∨ port = 0x64#16) : Prog.All Op.Polls (Code.inb port) :=
    Prog.all_perform.mpr h
  refine Prog.All.bind (Prog.All.loop ?_ (fun _ => ?_) fuel ()) fun _ => hin _ (Or.inl rfl)
  · exact Prog.All.bind (Prog.all_perform.mpr trivial) nofun
  · exact Prog.All.bind (Prog.All.bind (hin _ (Or.inr rfl)) fun _ => trivial) fun _ => trivial

theorem isrStub_eq {v : Nat} (h32 : 32 ≤ v) (h256 : v < 256) (fuel : Nat) : isrStub fuel v =
    (if v = 33 ∨ v = 50 then Stub.testKbdInterrupt v
      else if v = 48 then .systemTimerInterrupt else .exceptionHandlerCode v).code fuel := by
  have hstubs : ∀ v < 256, 32 ≤ v → isrStubs[v - 32]? = some (if v = 33 ∨ v = 50 then .testKbdInterrupt v
      else if v = 48 then .systemTimerInterrupt else .exceptionHandlerCode v) := by decide +kernel
  rw [isrStub, if_neg (by omega), hstubs v h256 h32]

def Source.number : Source → Nat
  | pic line => 32 + line
  | timer => 48
  | ioapic entry => 49 + entry

theorem isrStub_number (fuel : Nat) (source : Source) :
    isrStub fuel source.number = source.handler fuel := by
  cases source with
  | pic line =>
    rw [Source.number, isrStub_eq (by omega) (by omega), Source.handler]
    by_cases h : line = 1
    · subst h
      rfl
    · have hne : line.val ≠ 1 := fun hv => h (Fin.ext hv)
      have hcode : ∀ line : Fin 16, (32#32 ≤ BitVec.ofNat 32 (32 + line) ∧
          BitVec.ofNat 32 (32 + line) < 48#32) ∧
          (BitVec.ofNat 32 (32 + line) - 32#32).setWidth 8 = BitVec.ofNat 8 line := by decide
      rw [if_neg h, if_neg (by omega), if_neg (by omega), Stub.code, exceptionHandlerCode,
        if_pos (hcode line).1, (hcode line).2]
  | timer => rfl
  | ioapic entry =>
    rw [Source.number, isrStub_eq (by omega) (by omega), Source.handler]
    by_cases h : entry = 1
    · subst h
      rfl
    · have hne : entry.val ≠ 1 := fun hv => h (Fin.ext hv)
      have hcode : ∀ entry : Fin 16, ¬ (32#32 ≤ BitVec.ofNat 32 (49 + entry) ∧
          BitVec.ofNat 32 (49 + entry) < 48#32) ∧
          (48#32 ≤ BitVec.ofNat 32 (49 + entry) ∧ BitVec.ofNat 32 (49 + entry) < 64#32 ↔
            entry ≠ 15) := by decide
      rw [if_neg h, if_neg (by omega), if_neg (by omega), Stub.code, exceptionHandlerCode,
        if_neg (hcode entry).1]
      by_cases h15 : entry = 15
      · rw [if_pos h15, if_neg (fun hc => (hcode entry).2.mp hc h15)]
      · rw [if_neg h15, if_pos ((hcode entry).2.mpr h15)]

namespace Board

variable {w : Wiring} {s t : Board} {fuel : Nat}

abbrev acks {α : Type} (w : Wiring) (p : Code α) (s : Board) : List Controller :=
  Prog.notes (exec w) (Op.acknowledges w) p s

theorem acks_picSendEOI (irq : Byte) :
    acks w (picSendEOI irq) s = if irq ≥ 8#8 then [.slave, .master] else [.master] := by
  by_cases h : irq ≥ 8#8
  · rw [picSendEOI, if_pos h, if_pos h]
    rfl
  · rw [picSendEOI, if_neg h, if_neg h]
    rfl

theorem run_apicSendEoi (h : s.globals.localApic1VirtAddr = w.localApic) :
    Prog.run (exec w) apicSendEoi s = .ok ((), { s with localApic := s.localApic.endOfInterrupt }) :=
  run_writeRegister h (by decide) 0#32

theorem acks_apicSendEoi (h : s.globals.localApic1VirtAddr = w.localApic) :
    acks w apicSendEoi s = [.localApic] := by
  have hget : Prog.run (exec w) (Code.get (·.localApic1VirtAddr)) s = .ok (w.localApic, s) := by
    rw [← h]
    rfl
  rw [acks, apicSendEoi, writeRegister, Prog.notes_bind_ok _ _ hget]
  simp [Prog.notes, Code.get, Code.globals, Code.store, Op.acknowledges]

theorem run_readPs2Data {b : Byte} (h : Prog.run (exec w) (readPs2Data fuel) s = .ok (b, t)) :
    ∃ n, t = { s with asked := n } := by
  refine (readPs2Data_polls fuel).run_inv (I := fun t => ∃ n, t = { s with asked := n }) ?_ h
    ⟨s.asked, rfl⟩
  rintro o _ x ho hx ⟨n, rfl⟩
  cases o with
  | inb port =>
    obtain rfl : _ = x := by simpa [exec] using hx
    refine ⟨n + 1, ?_⟩
    rcases ho with rfl | rfl <;> rfl
  | outOfFuel => cases hx
  | _ => exact ho.elim

theorem acks_readPs2Data : acks w (readPs2Data fuel) s = [] := by
  refine Prog.notes_eq_nil _ _ ((readPs2Data_polls fuel).mono fun o ho => ?_) s
  cases o with
  | inb | outOfFuel => rfl
  | _ => exact ho.elim

/-! What a delivery leaves. -/

theorem Programmed.deliver (h : s.Programmed w) (source : Source) : (s.deliver source).Programmed w := by
  cases source with
  | pic line =>
    rw [Board.deliver]
    by_cases hlow : line < 8
    · rw [if_pos hlow]
      exact ⟨⟨h.remapped.1.accept _, h.remapped.2⟩, h.timer, h.ioapic, h.localApic⟩
    · rw [if_neg hlow]
      exact ⟨⟨h.remapped.1.accept _, h.remapped.2.accept _⟩, h.timer, h.ioapic, h.localApic⟩
  | timer | ioapic => exact ⟨h.remapped, h.timer, h.ioapic, h.localApic⟩

theorem Programmed.endOfInterrupt (h : s.Programmed w) :
    ({ s with localApic := s.localApic.endOfInterrupt } : Board).Programmed w := by
  refine ⟨h.remapped, ?_, h.ioapic, h.localApic⟩
  unfold LocalApic.endOfInterrupt
  split
  · exact h.timer
  · exact h.timer

theorem Programmed.picSendEOI (h : s.Programmed w) (irq : Byte) :
    ∃ t, Prog.run (exec w) (PekOS.picSendEOI irq) s = .ok ((), t) ∧ t.Programmed w := by
  refine ⟨_, run_picSendEOI w irq, ?_⟩
  by_cases hirq : irq ≥ 8#8
  · rw [if_pos hirq]
    exact ⟨⟨h.remapped.1.setIsr _, h.remapped.2.setIsr _⟩, h.timer, h.ioapic, h.localApic⟩
  · rw [if_neg hirq]
    exact ⟨⟨h.remapped.1.setIsr _, h.remapped.2⟩, h.timer, h.ioapic, h.localApic⟩

theorem Programmed.asked (h : s.Programmed w) (n : Nat) : ({ s with asked := n } : Board).Programmed w :=
  ⟨h.remapped, h.timer, h.ioapic, h.localApic⟩

theorem Programmed.vector_eq (h : s.Programmed w) (source : Source) :
    s.vector source = source.number := by
  cases source with
  | pic line =>
    have hvector : ∀ line : Fin 16, (if line < 8 then 32#8 ||| BitVec.ofNat 8 line
        else 40#8 ||| BitVec.ofNat 8 (line - 8 : Nat)).toNat = 32 + line := by decide
    rw [Board.vector, Chip.vector, Chip.vector, h.remapped.1.base, h.remapped.2.base]
    exact hvector line
  | timer => exact h.timer
  | ioapic entry => exact h.ioapic entry

/-- The keyboard's handler acknowledges the local APIC once more than it should. -/
theorem Programmed.testKbdInterrupt {code : Word} {p : Code Unit} (h : s.Programmed w)
    (hcode : PekOS.testKbdInterrupt fuel code = (readPs2Data fuel >>= fun _ => p) >>=
      fun _ => apicSendEoi)
    (hp : ∀ s : Board, s.Programmed w → ∃ t, Prog.run (exec w) p s = .ok ((), t) ∧ t.Programmed w)
    (hr : Prog.run (exec w) (PekOS.testKbdInterrupt fuel code) s = .ok ((), t)) :
    t.Programmed w ∧ ∃ s' : Board, s'.Programmed w ∧
      acks w (PekOS.testKbdInterrupt fuel code) s = acks w p s' ++ [.localApic] := by
  rw [hcode] at hr ⊢
  obtain ⟨⟨⟩, u, hu, hlast⟩ := Prog.of_run_bind _ hr
  obtain ⟨b, v, hv, hv'⟩ := Prog.of_run_bind _ hu
  obtain ⟨n, rfl⟩ := run_readPs2Data hv
  obtain ⟨u', hu', hprog⟩ := hp _ (h.asked n)
  obtain rfl : u' = u := by simpa using hu'.symm.trans hv'
  obtain rfl : _ = t := by simpa using (run_apicSendEoi hprog.localApic).symm.trans hlast
  refine ⟨hprog.endOfInterrupt, _, h.asked n, ?_⟩
  rw [acks, Prog.notes_bind_ok _ _ hu, Prog.notes_bind_ok _ _ hv]
  rw [show Prog.notes (exec w) (Op.acknowledges w) (readPs2Data fuel) s = [] from acks_readPs2Data,
    List.nil_append]
  exact congrArg _ (acks_apicSendEoi hprog.localApic)

theorem Programmed.handler {source : Source} (h : s.Programmed w)
    (hr : Prog.run (exec w) (source.handler fuel) s = .ok ((), t)) :
    t.Programmed w ∧ acks w (source.handler fuel) s = source.acknowledged := by
  have hapic : ∀ s : Board, s.Programmed w → ∃ t, Prog.run (exec w) apicSendEoi s = .ok ((), t) ∧
      t.Programmed w :=
    fun s h => ⟨_, run_apicSendEoi h.localApic, h.endOfInterrupt⟩
  cases source with
  | pic line =>
    by_cases h1 : line = 1
    · subst h1
      obtain ⟨ht, s', _, hacks⟩ :=
        h.testKbdInterrupt (p := PekOS.picSendEOI 1#8) rfl (fun s h => h.picSendEOI 1#8) hr
      exact ⟨ht, hacks.trans (by rw [acks_picSendEOI]; rfl)⟩
    · have hge : ∀ line : Fin 16, BitVec.ofNat 8 line ≥ 8#8 ↔ ¬ line < 8 := by decide
      rw [Source.handler, if_neg h1] at hr ⊢
      obtain ⟨u, hu, hprog⟩ := h.picSendEOI (BitVec.ofNat 8 line)
      obtain rfl : u = t := by simpa using hu.symm.trans hr
      refine ⟨hprog, ?_⟩
      rw [acks_picSendEOI, Source.acknowledged, if_neg h1]
      by_cases hlow : line < 8
      · rw [if_pos hlow, if_neg (fun hc => (hge line).mp hc hlow)]
      · rw [if_neg hlow, if_pos ((hge line).mpr hlow)]
  | timer =>
    obtain ⟨u, hu, hprog⟩ := hapic s h
    obtain rfl : u = t := by simpa using hu.symm.trans hr
    exact ⟨hprog, acks_apicSendEoi h.localApic⟩
  | ioapic entry =>
    by_cases h1 : entry = 1
    · subst h1
      obtain ⟨ht, s', hs', hacks⟩ := h.testKbdInterrupt (p := apicSendEoi) rfl hapic hr
      exact ⟨ht, hacks.trans (by rw [acks_apicSendEoi hs'.localApic]; rfl)⟩
    · rw [Source.handler, if_neg h1] at hr ⊢
      rw [Source.acknowledged, if_neg h1]
      by_cases h15 : entry = 15
      · rw [if_pos h15] at hr ⊢
        obtain rfl : s = t := by simpa using hr
        rw [if_pos h15]
        exact ⟨h, rfl⟩
      · rw [if_neg h15] at hr ⊢
        obtain ⟨u, hu, hprog⟩ := hapic s h
        obtain rfl : u = t := by simpa using hu.symm.trans hr
        rw [if_neg h15]
        exact ⟨hprog, acks_apicSendEoi h.localApic⟩

theorem Idle.handler {source : Source} (hidle : s.Idle) (h : s.Programmed w) (hproper : source.Proper)
    (hr : Prog.run (exec w) (source.handler fuel) (s.deliver source) = .ok ((), t)) : t.Idle := by
  have hapic {vector : Nat} (hr : Prog.run (exec w) apicSendEoi
      { s with localApic := s.localApic.accept vector } = .ok ((), t)) : t.Idle := by
    obtain ⟨_, rfl⟩ : _ ∧ _ = t := by
      simpa only [Except.ok.injEq, Prod.mk.injEq] using
        (run_apicSendEoi (s := { s with localApic := s.localApic.accept vector })
          h.localApic).symm.trans hr
    exact ⟨hidle.master, hidle.slave, LocalApic.accept_endOfInterrupt hidle.localApic vector⟩
  cases source with
  | pic line =>
    have h1 : line ≠ 1 := fun h => hproper.1 (congrArg _ h)
    rw [Source.handler, if_neg h1] at hr
    obtain ⟨_, rfl⟩ : _ ∧ _ = t := by
      simpa only [Except.ok.injEq, Prod.mk.injEq] using (run_picSendEOI w _).symm.trans hr
    have hlt : ∀ line : Fin 16, (line < 8 → BitVec.ofNat 8 line < 8#8) ∧
        BitVec.ofNat 8 (line - 8 : Nat) < 8#8 := by
      decide
    by_cases hlow : line < 8
    · have hlt8 := (hlt line).1 hlow
      rw [Board.deliver, if_pos hlow, if_neg (BitVec.not_le.mpr hlt8)]
      exact ⟨Chip.accept_endOfInterrupt hidle.master h.remapped.1.autoEoi hlt8, hidle.slave,
        hidle.localApic⟩
    · have hge : ∀ line : Fin 16, ¬ line < 8 → BitVec.ofNat 8 line ≥ 8#8 := by decide
      rw [Board.deliver, if_neg hlow, if_pos (hge line hlow)]
      exact ⟨Chip.accept_endOfInterrupt hidle.master h.remapped.1.autoEoi (by decide),
        Chip.accept_endOfInterrupt hidle.slave h.remapped.2.autoEoi (hlt line).2, hidle.localApic⟩
  | timer => exact hapic hr
  | ioapic entry =>
    have h1 : entry ≠ 1 := fun h => hproper.2.1 (congrArg _ h)
    have h15 : entry ≠ 15 := fun h => hproper.2.2 (congrArg _ h)
    rw [Source.handler, if_neg h1, if_neg h15] at hr
    exact hapic hr

/-! Runs. -/

theorem Programmed.serves {e : Service} (h : s.Programmed w) (hs : Serves w fuel s e t) :
    t.Programmed w ∧ e.after = t ∧ e.acknowledged = e.source.acknowledged ∧
    (e.source.Proper → s.Idle → t.Idle) := by
  obtain ⟨hr, hacks, hafter⟩ := hs
  rw [h.vector_eq, isrStub_number] at hr hacks
  obtain ⟨ht, hacked⟩ := (h.deliver e.source).handler hr
  exact ⟨ht, hafter, hacks.trans hacked, fun hproper hidle => hidle.handler h hproper hr⟩

end Board

/-- The controller that delivered has the acknowledgement, no other has one, and
nothing is left in service. -/
def Service.Proper (e : Service) : Prop := e.acknowledged.Perm e.source.controllers ∧ e.after.Idle

theorem Board.Programmed.run {w : Wiring} {fuel : Nat} {s t : Board} {es : List Service}
    (h : s.Programmed w) (hidle : s.Idle) (hrun : Labelled.Run (Serves w fuel) s es t) :
    t.Programmed w ∧ (∀ e ∈ es, e.acknowledged = e.source.acknowledged) ∧
      ((∀ e ∈ es, e.source.Proper) → t.Idle ∧ ∀ e ∈ es, e.after.Idle) := by
  induction hrun with
  | nil => exact ⟨h, by simp, fun _ => ⟨hidle, by simp⟩⟩
  | @snoc es t u e _ hs ih =>
    obtain ⟨ht, hacks, hafter⟩ := ih
    obtain ⟨hu, he, heacks, hkeep⟩ := ht.serves hs
    refine ⟨hu, ?_, fun hproper => ?_⟩
    · rw [List.forall_mem_append, List.forall_mem_singleton]
      exact ⟨hacks, heacks⟩
    · rw [List.forall_mem_append, List.forall_mem_singleton] at hproper
      obtain ⟨hes, hep⟩ := hproper
      obtain ⟨hidle, hafter⟩ := hafter hes
      have huidle := hkeep hep hidle
      refine ⟨huidle, ?_⟩
      rw [List.forall_mem_append, List.forall_mem_singleton]
      exact ⟨hafter, he ▸ huidle⟩

/-- From any board with nothing in service, programmed by the kernel. -/
theorem services_proper_iff {w : Wiring} {s₀ : Board} (h : s₀.globals.localApic1VirtAddr = w.localApic)
    (hidle : s₀.Idle) :
    ∃ s, Prog.run (Board.exec w) (programVectors w.ioapic) s₀ = .ok ((), s) ∧
      ∀ (fuel : Nat) (es : List Service) (t : Board), Labelled.Run (Serves w fuel) s es t →
        ((∀ e ∈ es, e.Proper) ↔ ∀ e ∈ es, e.source.Proper) := by
  obtain ⟨s, hs, hprog, hkeep⟩ := Board.run_programVectors h
  refine ⟨s, hs, fun fuel es t hrun => ?_⟩
  obtain ⟨_, hacks, hafter⟩ := hprog.run (hkeep hidle) hrun
  constructor
  · intro hproper e he
    exact e.source.perm_iff.mp (hacks e he ▸ (hproper e he).1)
  · intro hproper e he
    exact ⟨hacks e he ▸ e.source.perm_iff.mpr (hproper e he), (hafter hproper).2 e he⟩

theorem services_proper_iff_idle :
    ∃ s, Prog.run (Board.exec .adjacent) (programVectors Wiring.adjacent.ioapic)
    Board.idle = .ok ((), s) ∧
      ∀ (fuel : Nat) (es : List Service) (t : Board), Labelled.Run (Serves .adjacent fuel) s es t →
        ((∀ e ∈ es, e.Proper) ↔ ∀ e ∈ es, e.source.Proper) :=
  services_proper_iff rfl ⟨rfl, rfl, rfl⟩

theorem Board.Programmed.serves_last {w : Wiring} {s : Board} (h : s.Programmed w) (fuel : Nat) :
    Serves w fuel s ⟨.ioapic 15, [], s.deliver (.ioapic 15)⟩ (s.deliver (.ioapic 15)) := by
  rw [Serves, h.vector_eq, isrStub_number]
  exact ⟨rfl, rfl, rfl⟩

/-- After one interrupt of the last redirection entry, vector 64 is in service. -/
theorem last_entry_in_service : ∃ (s t : Board) (e : Service),
    Prog.run (Board.exec .adjacent) (programVectors Wiring.adjacent.ioapic) Board.idle = .ok ((), s) ∧
      Labelled.Run (Serves .adjacent 0) s [e] t ∧ e.source = .ioapic 15 ∧ e.acknowledged = [] ∧
        64 ∈ e.after.localApic.inService := by
  obtain ⟨s, hs, hprog, _⟩ := Board.run_programVectors (w := .adjacent) (s := Board.idle) rfl
  refine ⟨s, _, _, hs, .single (hprog.serves_last 0), rfl, rfl, ?_⟩
  have hvector : s.vector (.ioapic 15) = 64 := hprog.vector_eq (.ioapic 15)
  rw [← hvector]
  exact Finset.mem_insert_self _ _

end PekOS
