import PekOS.Interrupts

/-! What the kernel's programming of the controllers leaves. -/

namespace PekOS

open OpTree Code I8259

namespace Board

variable {w : Wiring} {s : Board}

section Registers

theorem run_store_localApic {offset : Word} (ho : offset < 0x1000#32) (v : Word) :
    Prog.run (exec w) (Code.store (w.localApic + offset) v) s =
      .ok ((), { s with localApic := s.localApic.write offset v }) := by
  have hne := w.apart offset ho
  have hsub : w.localApic + offset - w.localApic = offset := by bv_omega
  rw [Code.store, Prog.run_perform, exec, Board.store, if_neg hne.1, if_neg hne.2, hsub, if_pos ho]
  rfl

theorem run_writeRegister (h : s.globals.localApic1VirtAddr = w.localApic) {offset : Word}
    (ho : offset < 0x1000#32) (v : Word) : Prog.run (exec w) (writeRegister offset v) s =
      .ok ((), { s with localApic := s.localApic.write offset v }) := by
  have hget : Prog.run (exec w) (Code.get (·.localApic1VirtAddr)) s = .ok (w.localApic, s) := by
    rw [← h]
    rfl
  rw [writeRegister, Prog.run_bind_ok _ hget]
  exact run_store_localApic ho v

theorem run_apicStartTimer (h : s.globals.localApic1VirtAddr = w.localApic) :
    ∃ a : LocalApic, Prog.run (exec w) apicStartTimer s = .ok ((), { s with localApic := a }) ∧
      a.registers 0x320#32 = (48#32 ||| 0x20000#32) ∧ a.inService = s.localApic.inService := by
  refine ⟨((s.localApic.write 0x320#32 (48#32 ||| 0x20000#32)).write 0x3E0#32 0x3#32).write 0x380#32
    100000#32, ?_, by simp [LocalApic.write], by simp [LocalApic.write]⟩
  have hwrite (a : LocalApic) {offset : Word} (ho : offset < 0x1000#32) (v : Word) :
      Prog.run (exec w) (writeRegister offset v) { s with localApic := a } =
        .ok ((), { s with localApic := a.write offset v }) :=
    run_writeRegister (s := { s with localApic := a }) h ho v
  rw [apicStartTimer, Prog.run_bind_ok _ (run_writeRegister h (by decide) _),
    Prog.run_bind_ok _ (hwrite _ (by decide) _), hwrite _ (by decide) _]

theorem run_select (offset : Byte) : Prog.run (exec w) (Code.store w.ioapic (offset.setWidth 32)) s =
    .ok ((), { s with ioapic := { s.ioapic with select := offset } }) := by
  have hwidth : (offset.setWidth 32).setWidth 8 = offset := by
    rw [BitVec.setWidth_setWidth_of_le _ (by decide), BitVec.setWidth_eq]
  rw [Code.store, Prog.run_perform, exec, Board.store, if_pos rfl, hwidth]
  rfl

theorem ioapic_add_ne : w.ioapic + 0x10#32 ≠ w.ioapic := by bv_omega

theorem run_writeIoapicRegister (offset : Byte) (v : Word) :
    Prog.run (exec w) (writeIoapicRegister w.ioapic offset v) s =
      .ok ((), { s with ioapic := ⟨offset, fun r => if r = offset then
        v else s.ioapic.registers r⟩ }) := by
  rw [writeIoapicRegister, Prog.run_bind_ok _ (run_select offset), Code.store, Prog.run_perform,
    exec, Board.store, if_neg ioapic_add_ne, if_pos rfl]
  rfl

theorem run_readIoapicRegister (offset : Byte) :
    Prog.run (exec w) (readIoapicRegister w.ioapic offset) s =
    .ok (s.ioapic.registers offset, { s with ioapic := { s.ioapic with select := offset } }) := by
  rw [readIoapicRegister, Prog.run_bind_ok _ (run_select offset), Code.load, Prog.run_perform, exec,
    Board.load, if_neg ioapic_add_ne, if_pos rfl]
  rfl

end Registers

theorem redirection_low (i : Nat) (v : Word) :
    (redirection i v).setWidth 8 = BitVec.ofNat 8 (49 + i) := by
  have hlow : ((v &&& 0xFFFF0000#32) ||| BitVec.ofNat 32 (48 + i + 1)).setWidth 8 = BitVec.ofNat 8
      (49 + i) := by
    rw [BitVec.setWidth_or, BitVec.setWidth_and]
    simp
    congr 1
    omega
  unfold redirection
  by_cases h2 : i ≠ 2
  · rw [if_pos h2, BitVec.setWidth_and, hlow]
    exact BitVec.and_allOnes
  · rw [if_neg h2, hlow]

theorem redirection_vector {i : Nat} (hi : i < 16) (v : Word) :
    (redirection i v).toNat % 256 = 49 + i := by
  have h := congrArg BitVec.toNat (redirection_low i v)
  rw [BitVec.toNat_setWidth, BitVec.toNat_ofNat] at h
  omega

theorem register_ne {m n : Nat} (hm : m < 256) (hn : n < 256) (h : m ≠ n) :
    BitVec.ofNat 8 m ≠ BitVec.ofNat 8 n := by
  intro he
  have := congrArg BitVec.toNat he
  rw [BitVec.toNat_ofNat, BitVec.toNat_ofNat] at this
  omega

/-- The entries up to `n` have their vectors, and only the IOAPIC has changed. -/
def Redirected (s : Board) (n : Nat) (t : Board) : Prop :=
  t = { s with ioapic := t.ioapic } ∧
    ∀ entry < n, (t.ioapic.registers (BitVec.ofNat 8 (0x10 + entry * 2))).toNat % 256 = 49 + entry

theorem Redirected.step {t : Board} {i : Nat} (h : s.Redirected i t) (hi : i < 16) :
    ∃ u, Prog.run (exec w) (do
      let regVal ← readIoapicRegister w.ioapic (BitVec.ofNat 8 (0x10 + i * 2))
      writeIoapicRegister w.ioapic (BitVec.ofNat 8 (0x10 + i * 2)) (redirection i regVal)
      let upperReg ← readIoapicRegister w.ioapic (BitVec.ofNat 8 (0x11 + i * 2))
      writeIoapicRegister w.ioapic (BitVec.ofNat 8 (0x11 + i * 2)) (upperReg &&& 0x00FFFFFF#32)) t =
        .ok ((), u) ∧
        s.Redirected (i + 1) u := by
  refine ⟨_, (Prog.run_bind_ok _ (run_readIoapicRegister _)).trans
    ((Prog.run_bind_ok _ (run_writeIoapicRegister _ _)).trans
    ((Prog.run_bind_ok _ (run_readIoapicRegister _)).trans (run_writeIoapicRegister _ _))), ?_, ?_⟩
  · rw [h.1]
  · intro entry hentry
    dsimp only
    rw [if_neg (register_ne (by omega) (by omega) (by omega))]
    by_cases he : entry = i
    · rw [if_pos (by rw [he]), he]
      exact redirection_vector hi _
    · rw [if_neg (register_ne (by omega) (by omega) (by omega))]
      exact h.2 entry (by omega)

theorem run_redirectInterrupts : ∃ t, Prog.run (exec w) (redirectInterrupts w.ioapic) s = .ok ((), t) ∧
    s.Redirected 16 t := by
  have hstart : s.Redirected 0 s := ⟨rfl, by simp⟩
  obtain ⟨⟨⟩, t, ht, h⟩ :=
    Prog.run_forUp (exec w) _ (fun n _ t => s.Redirected n t) hstart fun i _ t hi h => by
    obtain ⟨u, hu, h⟩ := h.step hi
    exact ⟨(), u, hu, h⟩
  exact ⟨t, ht, h⟩

theorem run_initPic :
    ∃ m c : Chip, Prog.run (exec w) initPic s = .ok ((), { s with master := m, slave := c }) ∧
    m.Initialised (1#8 <<< 2) 32#8 ∧ c.Initialised 2#8 40#8 ∧ m.isr = s.master.isr ∧
    c.isr = s.slave.isr := by
  refine ⟨_, _, (Prog.run_bind_ok _ (run_picRemap w 32#32 40#32)).trans
    (run_maskPicInterrupts w rfl rfl), ?_, ?_, rfl, rfl⟩
  · exact ⟨rfl, rfl, rfl, rfl, rfl, rfl⟩
  · exact ⟨rfl, rfl, rfl, rfl, rfl, rfl⟩

theorem run_programVectors (h : s.globals.localApic1VirtAddr = w.localApic) :
    ∃ t, Prog.run (exec w) (programVectors w.ioapic) s = .ok ((), t) ∧ t.Programmed w ∧
    (s.Idle → t.Idle) := by
  obtain ⟨m, c, hpic, hm, hc, hmi, hci⟩ := run_initPic (w := w) (s := s)
  obtain ⟨a, htimer, hvector, hservice⟩ :=
    run_apicStartTimer (w := w) (s := { s with master := m, slave := c }) h
  obtain ⟨t, hredirect, ht, hentries⟩ :=
    run_redirectInterrupts (w := w) (s := { s with master := m, slave := c, localApic := a })
  refine ⟨t, (Prog.run_bind_ok _ hpic).trans ((Prog.run_bind_ok _ htimer).trans hredirect), ?_,
    fun hidle => ?_⟩
  · rw [ht]
    refine ⟨⟨hm, hc⟩, ?_, fun entry => hentries entry entry.isLt, h⟩
    rw [hvector]
    decide
  · rw [ht]
    exact ⟨hmi.trans hidle.master, hci.trans hidle.slave, hservice.trans hidle.localApic⟩

end Board

end PekOS
