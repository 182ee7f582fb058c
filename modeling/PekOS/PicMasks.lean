import PekOS.Pic

/-! The pair of 8259s under the functions of pic.c: which lines are masked, and
how the chips are set up. -/

namespace PekOS

open OpTree Code I8259

inductive PicCall
  | remap (offset1 offset2 : Word)
  | setMask (line : Byte)
  | clearMask (line : Byte)
  | mask
  | unmask
  | sendEOI (irq : Byte)
  | irr
  | isr

namespace PicCall

def code : PicCall → Code Unit
  | remap offset1 offset2 => picRemap offset1 offset2
  | setMask line => irqSetMask line
  | clearMask line => irqClearMask line
  | mask => maskPicInterrupts
  | unmask => unmaskPicInterrupts
  | sendEOI irq => picSendEOI irq
  | irr => picGetIrr >>= fun _ => return ()
  | isr => picGetIsr >>= fun _ => return ()

/-- Offsets that are multiples of 8, and lines that exist. -/
def Allowed : PicCall → Prop
  | remap offset1 offset2 => aligned 8 offset1 ∧ aligned 8 offset2
  | setMask line | clearMask line => line < 16#8
  | _ => True

end PicCall

/-- What a caller of pic.c relies on: the lines that are masked, and the vector
offsets given last. -/
structure Pics where
  masked : Finset Nat
  offsets : Option (Word × Word)

def PicCall.apply (p : Pics) : PicCall → Pics
  | remap offset1 offset2 => { p with offsets := some (offset1, offset2) }
  | setMask line => { p with masked := insert line.toNat p.masked }
  | clearMask line => { p with masked := p.masked.erase line.toNat }
  | mask => { p with masked := Finset.range 16 }
  | unmask => { p with masked := ∅ }
  | sendEOI _ | irr | isr => p

namespace Board

/-- The two mask registers, the master's being the lower. -/
def imr (s : Board) : BitVec 16 := s.slave.imr ++ s.master.imr

def masked (s : Board) : Finset Nat := (Finset.range 16).filter fun line => s.imr.getLsbD line

/-- The chips are set up as a pair, the slave on line 2 of the master. -/
def Remapped (s : Board) (offsets : Word × Word) : Prop :=
  s.master.Initialised (1#8 <<< 2) (offsets.1.setWidth 8) ∧ s.slave.Initialised 2#8 (offsets.2.setWidth 8)

structure Refines (s : Board) (p : Pics) : Prop where
  master : s.master.phase = .ready
  slave : s.slave.phase = .ready
  masked : s.masked = p.masked
  remapped : ∀ o, p.offsets = some o → s.Remapped o

variable {s : Board} {p : Pics}

theorem mem_masked {line : Nat} : line ∈ s.masked ↔ line < 16 ∧ s.imr.getLsbD line = true := by
  simp [masked]

theorem getLsbD_imr (line : Nat) : s.imr.getLsbD line =
    if line < 8 then s.master.imr.getLsbD line else s.slave.imr.getLsbD (line - 8) :=
  BitVec.getLsbD_append

/-- The lines masked by a pair of masks, line by line. -/
theorem masked_eq {S : Finset Nat} (hS : ∀ line ∈ S, line < 16)
    (hlow : ∀ line < 8, s.master.imr.getLsbD line = decide (line ∈ S))
    (hhigh : ∀ line < 8, s.slave.imr.getLsbD line = decide (line + 8 ∈ S)) : s.masked = S := by
  ext line
  rw [mem_masked, getLsbD_imr]
  by_cases h : line < 8
  · rw [if_pos h, hlow line h]
    simp only [decide_eq_true_eq]
    exact and_iff_right_of_imp (hS line)
  · by_cases h16 : line < 16
    · rw [if_neg h, hhigh (line - 8) (by omega), Nat.sub_add_cancel (by omega)]
      simp only [decide_eq_true_eq]
      exact and_iff_right_of_imp (hS line)
    · exact ⟨fun hl => absurd hl.1 h16, fun hl => absurd (hS line hl) h16⟩

theorem masked_low {line : Nat} (h : line < 8) :
    s.master.imr.getLsbD line = decide (line ∈ s.masked) := by
  have hmem : line ∈ s.masked ↔ s.master.imr.getLsbD line = true := by
    rw [mem_masked, getLsbD_imr, if_pos h]
    exact and_iff_right (by omega)
  rw [Bool.eq_iff_iff, decide_eq_true_eq, hmem]

theorem masked_high {line : Nat} (h : line < 8) :
    s.slave.imr.getLsbD line = decide (line + 8 ∈ s.masked) := by
  have hmem : line + 8 ∈ s.masked ↔ s.slave.imr.getLsbD line = true := by
    rw [mem_masked, getLsbD_imr, if_neg (by omega), Nat.add_sub_cancel]
    exact and_iff_right (by omega)
  rw [Bool.eq_iff_iff, decide_eq_true_eq, hmem]

theorem Refines.imr {v₁ v₂ : Byte} {S : Finset Nat} (h : s.Refines p) (hS : ∀ line ∈ S, line < 16)
    (hlow : ∀ line < 8, v₁.getLsbD line = decide (line ∈ S))
    (hhigh : ∀ line < 8, v₂.getLsbD line = decide (line + 8 ∈ S)) :
    Refines { s with
      master := { s.master with imr := v₁ }
      slave := { s.slave with imr := v₂ } } { p with masked := S } :=
  ⟨h.master, h.slave, masked_eq hS hlow hhigh, fun o ho => ⟨(h.remapped o ho).1.setImr v₁,
    (h.remapped o ho).2.setImr v₂⟩⟩

variable (w : Wiring)

theorem run_maskPicInterrupts (h1 : s.master.phase = .ready) (h2 : s.slave.phase = .ready) :
    Prog.run (exec w) maskPicInterrupts s =
      .ok ((), { s with
        master := { s.master with imr := 0xFF#8 }
        slave := { s.slave with imr := 0xFF#8 } }) := by
  rw [← Chip.writeData_of_ready h1, ← Chip.writeData_of_ready h2]
  rfl

theorem run_unmaskPicInterrupts (h1 : s.master.phase = .ready) (h2 : s.slave.phase = .ready) :
    Prog.run (exec w) unmaskPicInterrupts s =
      .ok ((), { s with
        master := { s.master with imr := 0x00#8 }
        slave := { s.slave with imr := 0x00#8 } }) := by
  rw [← Chip.writeData_of_ready h1, ← Chip.writeData_of_ready h2]
  rfl

/-- A chip that `PIC_remap` has set up. -/
def remapChip (c : Chip) (cascade : Byte) (offset : Word) : Chip :=
  { c with
    base := offset.setWidth 8 &&& 0xF8#8
    cascade := cascade
    phase := .ready
    single := false
    needsIcw4 := true
    mode8086 := true
    autoEoi := false
    readIsr := false }

theorem run_picRemap (offset1 offset2 : Word) : Prog.run (exec w) (picRemap offset1 offset2) s =
    .ok ((), { s with
      master := remapChip s.master (1#8 <<< 2) offset1
      slave := remapChip s.slave (1#8 <<< 1) offset2 }) := by
  rfl

theorem run_picSendEOI (irq : Byte) : Prog.run (exec w) (picSendEOI irq) s =
    .ok ((), { s with
      master := { s.master with isr := endOfInterrupt s.master.isr }
      slave := if irq ≥ 8#8 then { s.slave with isr := endOfInterrupt s.slave.isr } else s.slave }) := by
  by_cases hirq : irq ≥ 8#8
  · rw [picSendEOI, if_pos hirq, if_pos hirq]
    rfl
  · rw [picSendEOI, if_neg hirq, if_neg hirq]
    rfl

/-- What `IRQ_set_mask` and `IRQ_clear_mask` share. -/
theorem run_line (f : Byte → Byte → Byte) (line : Byte) (h1 : s.master.phase = .ready)
    (h2 : s.slave.phase = .ready) :
    Prog.run (exec w) (do
      let (port, line) := picLine line
      let value ← Code.inb port
      Code.outb port (f value line)) s =
      .ok ((), { s with
        master := { s.master with imr := if line < 8#8 then f s.master.imr line else s.master.imr }
        slave := { s.slave with
          imr := if line < 8#8 then s.slave.imr else f s.slave.imr (line - 8#8) } }) := by
  by_cases hline : line < 8#8
  · rw [picLine, if_pos hline, if_pos hline, if_pos hline, ← Chip.writeData_of_ready h1]
    rfl
  · rw [picLine, if_neg hline, if_neg hline, if_neg hline, ← Chip.writeData_of_ready h2]
    rfl

section Calls

variable (h : s.Refines p)

include h

theorem Refines.mem_lt {line : Nat} (hl : line ∈ p.masked) : line < 16 :=
  (mem_masked.mp (h.masked ▸ hl)).1

/-- A function that gives the bit of one line the value `b`. -/
theorem Refines.line {f : Byte → Byte → Byte} {b : Bool} {line : Byte} {S : Finset Nat}
    (hline : line < 16#8) (hf : ∀ (v i : Byte) (l : Nat), l < 8 →
      (f v i).getLsbD l = if l = i.toNat then b else v.getLsbD l)
    (hself : decide (line.toNat ∈ S) = b) (hother : ∀ l, l ≠ line.toNat → (l ∈ S ↔ l ∈ p.masked)) :
    ∃ t, Prog.run (exec w) (do
      let (port, line) := picLine line
      let value ← Code.inb port
      Code.outb port (f value line)) s = .ok ((), t) ∧ t.Refines { p with masked := S } := by
  have hlt : line.toNat < 16 := hline
  have hold (l : Nat) (hl : l ≠ line.toNat) : decide (l ∈ s.masked) = decide (l ∈ S) :=
    decide_eq_decide.mpr (by rw [hother l hl, h.masked])
  refine ⟨_, run_line w f line h.master h.slave, h.imr ?_ ?_ ?_⟩
  · intro l hl
    by_cases he : l = line.toNat
    · exact he ▸ hlt
    · exact h.mem_lt ((hother l he).mp hl)
  · intro l hl
    by_cases hlow : line < 8#8
    · rw [if_pos hlow, hf _ _ l hl]
      by_cases he : l = line.toNat
      · rw [if_pos he, he, hself]
      · rw [if_neg he, masked_low hl, hold l he]
    · have hge : 8 ≤ line.toNat := BitVec.not_lt.mp hlow
      rw [if_neg hlow, masked_low hl, hold l (by omega)]
  · intro l hl
    by_cases hlow : line < 8#8
    · have hlt : line.toNat < 8 := hlow
      rw [if_pos hlow, masked_high hl, hold (l + 8) (by omega)]
    · have hge : 8 ≤ line.toNat := BitVec.not_lt.mp hlow
      have hsub : (line - 8#8).toNat = line.toNat - 8 := BitVec.toNat_sub_of_le hge
      rw [if_neg hlow, hf _ _ l hl, hsub]
      by_cases he : l = line.toNat - 8
      · rw [if_pos he, show l + 8 = line.toNat by omega, hself]
      · rw [if_neg he, masked_high hl, hold (l + 8) (by omega)]

theorem Refines.setMask {line : Byte} (hline : line < 16#8) :
    ∃ t, Prog.run (exec w) (irqSetMask line) s = .ok ((), t) ∧
      t.Refines { p with masked := insert line.toNat p.masked } := by
  refine h.line w (f := fun v i => v ||| 1#8 <<< i.toNat) (b := true) hline (fun v i l hl => ?_)
    (by simp) fun l hl => by simp [hl]
  rw [getLsbD_or_bit v hl]
  by_cases he : l = i.toNat <;> simp [he]

theorem Refines.clearMask {line : Byte} (hline : line < 16#8) :
    ∃ t, Prog.run (exec w) (irqClearMask line) s = .ok ((), t) ∧
      t.Refines { p with masked := p.masked.erase line.toNat } := by
  refine h.line w (f := fun v i => v &&& ~~~(1#8 <<< i.toNat)) (b := false) hline
    (fun v i l hl => ?_) (by simp) fun l hl => by simp [hl]
  rw [getLsbD_and_not_bit v hl]
  by_cases he : l = i.toNat <;> simp [he]

theorem Refines.mask : ∃ t, Prog.run (exec w) maskPicInterrupts s = .ok ((), t) ∧
    t.Refines { p with masked := Finset.range 16 } :=
  ⟨_, run_maskPicInterrupts w h.master h.slave, h.imr (fun _ => Finset.mem_range.mp) (by decide)
    (by decide)⟩

theorem Refines.unmask : ∃ t, Prog.run (exec w) unmaskPicInterrupts s = .ok ((), t) ∧
    t.Refines { p with masked := ∅ } :=
  ⟨_, run_unmaskPicInterrupts w h.master h.slave, h.imr (by simp) (by decide) (by decide)⟩

theorem Refines.remap {offset1 offset2 : Word} (h1 : aligned 8 offset1) (h2 : aligned 8 offset2) :
    ∃ t, Prog.run (exec w) (picRemap offset1 offset2) s = .ok ((), t) ∧
      t.Refines { p with offsets := some (offset1, offset2) } := by
  have hbase (offset : Word) (ho : offset.toNat % 8 = 0) :
      offset.setWidth 8 &&& 0xF8#8 = offset.setWidth 8 := by
    refine base_of_multiple _ ?_
    rw [BitVec.toNat_setWidth]
    omega
  refine ⟨_, run_picRemap w offset1 offset2, rfl, rfl, h.masked, fun o ho => ?_⟩
  obtain rfl : (offset1, offset2) = o := by simpa using ho
  exact ⟨⟨rfl, rfl, rfl, rfl, rfl, hbase offset1 h1⟩, ⟨rfl, rfl, rfl, rfl, rfl, hbase offset2 h2⟩⟩

theorem Refines.sendEOI (irq : Byte) : ∃ t, Prog.run (exec w) (picSendEOI irq) s = .ok ((), t) ∧
    t.Refines p := by
  refine ⟨_, run_picSendEOI w irq, ?_⟩
  by_cases hirq : irq ≥ 8#8
  · rw [if_pos hirq]
    exact ⟨h.master, h.slave, h.masked, fun o ho => ⟨(h.remapped o ho).1.setIsr _,
      (h.remapped o ho).2.setIsr _⟩⟩
  · rw [if_neg hirq]
    exact ⟨h.master, h.slave, h.masked, fun o ho => ⟨(h.remapped o ho).1.setIsr _, (h.remapped o ho).2⟩⟩

theorem Refines.readIsr (b : Bool) : ({ s with
    master := { s.master with readIsr := b }
    slave := { s.slave with readIsr := b } } : Board).Refines p :=
  ⟨h.master, h.slave, h.masked,
    fun o ho => ⟨(h.remapped o ho).1.setReadIsr b, (h.remapped o ho).2.setReadIsr b⟩⟩

theorem Refines.call {c : PicCall} (hc : c.Allowed) :
    ∃ t, Prog.run (exec w) c.code s = .ok ((), t) ∧ t.Refines (c.apply p) := by
  cases c with
  | remap offset1 offset2 => exact h.remap w hc.1 hc.2
  | setMask line => exact h.setMask w hc
  | clearMask line => exact h.clearMask w hc
  | mask => exact h.mask w
  | unmask => exact h.unmask w
  | sendEOI irq => exact h.sendEOI w irq
  | irr => exact ⟨_, rfl, h.readIsr false⟩
  | isr => exact ⟨_, rfl, h.readIsr true⟩

end Calls

end Board

def picCalls : List PicCall → Code Unit
  | [] => return ()
  | c :: cs => do
    c.code
    picCalls cs

theorem Board.Refines.calls {w : Wiring} {s : Board} {p : Pics} (h : s.Refines p) {cs : List PicCall}
    (hcs : ∀ c ∈ cs, c.Allowed) :
    ∃ t, Prog.run (exec w) (picCalls cs) s = .ok ((), t) ∧ t.Refines (cs.foldl PicCall.apply p) := by
  induction cs generalizing s p with
  | nil => exact ⟨s, rfl, h⟩
  | cons c cs ih =>
    obtain ⟨t, ht, href⟩ := h.call w (hcs c List.mem_cons_self)
    obtain ⟨u, hu, href⟩ := ih href fun c hc => hcs c (List.mem_cons_of_mem _ hc)
    exact ⟨u, (Prog.run_bind_ok _ ht).trans hu, href⟩

/-- From any masks, vector bases, requests and interrupts in service on. -/
theorem run_picCalls (w : Wiring) {s : Board} (h1 : s.master.phase = .ready) (h2 : s.slave.phase = .ready)
    {cs : List PicCall} (hcs : ∀ c ∈ cs, c.Allowed) :
    ∃ t, Prog.run (Board.exec w) (picCalls cs) s = .ok ((), t) ∧
      t.masked = (cs.foldl PicCall.apply ⟨s.masked, none⟩).masked ∧
        ∀ o, (cs.foldl PicCall.apply ⟨s.masked, none⟩).offsets = some o → t.Remapped o := by
  have h : s.Refines ⟨s.masked, none⟩ := ⟨h1, h2, rfl, by simp⟩
  obtain ⟨t, ht, href⟩ := h.calls hcs
  exact ⟨t, ht, href.masked, href.remapped⟩

theorem run_picCalls_initPic : ∃ t, Prog.run (Board.exec .adjacent)
    (picCalls [.setMask 9#8, .remap 32#32 40#32, .clearMask 9#8, .mask]) Board.idle = .ok ((), t) ∧
      t.masked = Finset.range 16 ∧ ∀ o, some (32#32, 40#32) = some o → t.Remapped o :=
  run_picCalls .adjacent rfl rfl (by
    simp only [List.forall_mem_cons, PicCall.Allowed]
    exact ⟨by decide, by decide, by decide, trivial, by simp⟩)

end PekOS
