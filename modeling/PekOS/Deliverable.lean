import PekOS.Acknowledgements

/-! Which interrupts get through the controllers, once the kernel has programmed
them and as its handlers go on acknowledging. -/

namespace PekOS

open OpTree Code I8259

/-- `init_apic` on the registers of the local APIC. -/
def programLocalRegisters (virtAddr : Word) : Code Unit := do
  let spurious ← readRegister 0xF0#32
  writeRegister 0xF0#32 (spurious ||| 0x100#32)
  let _ ← loadByte (virtAddr + 3#32)
  writeRegister 0x80#32 3#32
  apicStartTimer

/-- `init_apic` on those of the IOAPIC. -/
def programIoapicRegisters (ioapicVirtAddress : Word) : Code Unit := do
  redirectInterrupts ioapicVirtAddress
  let _ ← readIoapicRegister ioapicVirtAddress 0x0#8
  let _ ← readIoapicRegister ioapicVirtAddress 0x1#8
  let _ ← readIoapicRegister ioapicVirtAddress 0x10#8
  let _ ← readIoapicRegister ioapicVirtAddress 0x12#8
  return ()

section Lookups

variable (image : KernelImage)

/-- The page of the local APIC's registers. -/
def mapLocalPage (msrAvailable : Bool) (madt : Word) : Code Word := do
  let physAddr ← if msrAvailable then cpuGetApicBase else do
    deref .findByHeader madt
    load (madt + 36#32)
  modify fun g => { g with localApic1PhysAddr := physAddr }
  let virtAddr ← globals findFreeVirtaddr
  modify fun g => { g with localApic1VirtAddr := virtAddr }
  mapPage image physAddr virtAddr 3#32
  (if msrAvailable then enableApic else return ())
  return virtAddr

/-- `init_apic` up to the registers of the local APIC: where it has mapped them,
unless it returns early. -/
def mapLocalRegisters : Code (Option Word) := do
  let msrAvailable ← cpuHasMsr
  modify fun g => { g with msrAvailable := msrAvailable }
  let madt ← findByHeader [0x41#8, 0x50#8, 0x49#8, 0x43#8]
  modify fun g => { g with madt := madt }
  let usable ← if madt = 0#32 then pure false
    else if msrAvailable then checkApic else pure true
  if usable then
    let virtAddr ← mapLocalPage image msrAvailable madt
    return some virtAddr
  else return none

/-- `init_apic` from the timer up to the registers of the IOAPIC. -/
def mapIoapicRegisters (fuel : Nat) : Code (Option Word) := do
  let ioApic1Head ← findMADTEntryByType fuel 1#32
  if ioApic1Head = 0#32 then return none
  else
    let ioapicIso ← findMADTEntryByType fuel 2#32
    deref .findMADTEntryByType ioapicIso
    let _ ← loadByte (ioapicIso + 2#32)
    let _ ← loadByte (ioapicIso + 3#32)
    let _ ← load (ioapicIso + 4#32)
    let _ ← loadByte (ioapicIso + 8#32)
    let _ ← loadByte (ioapicIso + 9#32)
    deref .findMADTEntryByType ioApic1Head
    let ioapicPhysAddress ← load (ioApic1Head + 4#32)
    let page ← globals findFreeVirtaddr
    let ioapicVirtAddress := (page &&& 0xFFFFF000#32) ||| (ioapicPhysAddress &&& 0xFFF#32)
    mapPage image (ioapicPhysAddress &&& 0xFFFFF000#32) (ioapicVirtAddress &&& 0xFFFFF000#32) 3#32
    return some ioapicVirtAddress

end Lookups

/-- `init_apic`, by what its lookups and mappings come to. -/
def initApicBy (localRegisters ioapicRegisters : Code (Option Word)) : Code Unit := do
  let virtAddr ← localRegisters
  match virtAddr with
  | none => return ()
  | some virtAddr => do
    programLocalRegisters virtAddr
    let ioapicVirtAddress ← ioapicRegisters
    match ioapicVirtAddress with
    | none => return ()
    | some ioapicVirtAddress => programIoapicRegisters ioapicVirtAddress

/-- What the lookups of `init_apic` find. -/
inductive Found
  | nothing
  | localApic
  | both

def Found.localRegisters (w : Wiring) : Found → Option Word
  | nothing => none
  | _ => some w.localApic

def Found.ioapicRegisters (w : Wiring) : Found → Option Word
  | both => some w.ioapic
  | _ => none

/-- `init_pic`, and what `init_apic` does to the controllers. -/
def programControllers (w : Wiring) (found : Found) : Code Unit := do
  initPic
  initApicBy (return found.localRegisters w) (return found.ioapicRegisters w)

section Equations

variable (image : KernelImage)

theorem programLocalApic_eq_map (msrAvailable : Bool) (madt : Word) :
    programLocalApic image msrAvailable madt =
    mapLocalPage image msrAvailable madt >>= programLocalRegisters := by
  cases msrAvailable <;> simp only [programLocalApic, mapLocalPage, programLocalRegisters,
    Prog.bind_assoc, Prog.pure_eq, Prog.ret_bind, Bool.false_eq_true, if_false, if_true]

/-- It returns early where there is no MADT, and where `check_apic` fails. -/
theorem startLocalApic_eq : startLocalApic image = mapLocalRegisters image >>= fun virtAddr =>
    match virtAddr with
    | none => return false
    | some virtAddr => do
      programLocalRegisters virtAddr
      return true := by
  have hmapped (msrAvailable : Bool) (madt : Word) :
      (programLocalApic image msrAvailable madt >>= fun _ => return true) =
        (mapLocalPage image msrAvailable madt >>= fun virtAddr => return some virtAddr) >>=
        fun virtAddr =>
          match virtAddr with
          | none => return false
          | some virtAddr => programLocalRegisters virtAddr >>= fun _ => return true := by
    rw [programLocalApic_eq_map, Prog.bind_assoc, Prog.bind_assoc]
    rfl
  rw [startLocalApic, mapLocalRegisters]
  simp only [Prog.bind_assoc]
  refine congrArg _ (funext fun msrAvailable => congrArg _ (funext fun _ => congrArg _ (funext fun madt =>
    congrArg _ (funext fun _ => ?_))))
  by_cases h0 : madt = 0#32
  · rw [if_pos h0, if_pos h0]
    rfl
  rw [if_neg h0, if_neg h0]
  cases msrAvailable with
  | false => exact hmapped false madt
  | true =>
    rw [if_pos rfl, if_pos rfl, Prog.bind_assoc]
    refine congrArg _ (funext fun usable => ?_)
    cases usable with
    | false => rfl
    | true => exact hmapped true madt

/-- It returns early where there is no record of an IOAPIC. -/
theorem startIoapic_eq (fuel : Nat) : startIoapic image fuel = mapIoapicRegisters image fuel >>=
    fun ioapicVirtAddress =>
    match ioapicVirtAddress with
    | none => return ()
    | some ioapicVirtAddress => programIoapicRegisters ioapicVirtAddress := by
  rw [startIoapic, mapIoapicRegisters, Prog.bind_assoc]
  refine congrArg _ (funext fun ioApic1Head => ?_)
  by_cases h0 : ioApic1Head = 0#32
  · rw [if_pos h0, if_pos h0]
    rfl
  · rw [if_neg h0, if_neg h0]
    simp only [programIoapic, programIoapicRegisters, Prog.bind_assoc, Prog.pure_eq, Prog.ret_bind]

/-- The controllers are programmed where the lookups have found them. -/
theorem initApic_eq (fuel : Nat) :
    initApic image fuel = initApicBy (mapLocalRegisters image) (mapIoapicRegisters image fuel) := by
  rw [initApic, startLocalApic_eq, startIoapic_eq, initApicBy, Prog.bind_assoc]
  refine congrArg _ (funext fun virtAddr => ?_)
  cases virtAddr with
  | none => rfl
  | some virtAddr => exact Prog.bind_assoc _ _ _

end Equations

/-- The local APIC is enabled, and neither its task priority nor a vector in service is of this
vector's class or a higher one. -/
def LocalApic.Takes (a : LocalApic) (vector : Nat) : Prop :=
  (a.registers 0xF0#32).getLsbD 8 = true ∧ (a.registers 0x80#32).toNat % 256 / 16 < vector / 16 ∧
    ∀ v ∈ a.inService, v / 16 < vector / 16

namespace Board

variable (s : Board)

/-- An interrupt of this source would be delivered now. -/
def Deliverable : Source → Prop
  | .pic line => s.imr.getLsbD line = false
  | .timer => (s.localApic.registers 0x320#32).getLsbD 16 = false ∧ s.localApic.Takes (s.vector .timer)
  | .ioapic entry => (s.ioapic.registers (BitVec.ofNat 8 (0x10 + entry * 2))).getLsbD 16 = false ∧
      s.localApic.Takes (s.vector (.ioapic entry))

/-- The registers of an IOAPIC, of whose redirection entries the first `n` have been rewritten. -/
def rewired (registers : Byte → Word) (n : Nat) (r : Byte) : Word :=
  if 0x10 ≤ r.toNat ∧ r.toNat < 0x10 + 2 * n then
    if r.toNat % 2 = 0 then redirection ((r.toNat - 0x10) / 2) (registers r)
      else registers r &&& 0x00FFFFFF#32
  else registers r

end Board

/-- The local APIC once its timer runs. -/
structure LocalApic.Started (a : LocalApic) : Prop where
  enabled : (a.registers 0xF0#32).getLsbD 8 = true
  priority : a.registers 0x80#32 = 3#32
  periodic : a.registers 0x320#32 = 0x20030#32
  divider : a.registers 0x3E0#32 = 3#32
  count : a.registers 0x380#32 = 100000#32

/-- The controllers as the kernel leaves them where it finds them all,
`registers` being what the IOAPIC held. -/
structure Board.Configured (s : Board) (w : Wiring) (registers : Byte → Word) : Prop
    extends Programmed s w where
  masked : s.imr = 0xFFFF#16
  started : s.localApic.Started
  redirected : s.ioapic.registers = rewired registers 16

/-- A handler runs to completion for an interrupt that gets through. -/
def Serviced (w : Wiring) (fuel : Nat) (s : Board) (e : Service) (t : Board) : Prop :=
  s.Deliverable e.source ∧ Serves w fuel s e t

namespace Board

variable {w : Wiring} {s t : Board}

section Programming

theorem rewired_zero (registers : Byte → Word) : rewired registers 0 = registers :=
  funext fun r => if_neg (by omega)

theorem rewired_succ (registers : Byte → Word) {i : Nat} (hi : i < 16) :
    rewired registers (i + 1) = fun r =>
      if r = BitVec.ofNat 8 (0x11 + i * 2) then
        rewired registers i (BitVec.ofNat 8 (0x11 + i * 2)) &&& 0x00FFFFFF#32
      else if r = BitVec.ofNat 8 (0x10 + i * 2) then
        redirection i (rewired registers i (BitVec.ofNat 8 (0x10 + i * 2)))
      else rewired registers i r := by
  funext r
  have hlt := r.isLt
  have hnat (n : Nat) (hn : n < 256) : r = BitVec.ofNat 8 n ↔ r.toNat = n := by
    rw [← BitVec.toNat_inj, BitVec.toNat_ofNat, Nat.mod_eq_of_lt hn]
  have hodd := hnat (0x11 + i * 2) (by omega)
  have heven := hnat (0x10 + i * 2) (by omega)
  by_cases h1 : r = BitVec.ofNat 8 (0x11 + i * 2)
  · have hr := hodd.mp h1
    rw [if_pos h1, ← h1, rewired, rewired, if_pos (by omega), if_neg (by omega), if_neg (by omega)]
  · have hr := mt hodd.mpr h1
    rw [if_neg h1]
    by_cases h0 : r = BitVec.ofNat 8 (0x10 + i * 2)
    · have hr := heven.mp h0
      have hentry : (r.toNat - 0x10) / 2 = i := by omega
      rw [if_pos h0, ← h0, rewired, rewired, if_pos (by omega), if_pos (by omega),
        if_neg (by omega), hentry]
    · have hr := mt heven.mpr h0
      rw [if_neg h0, rewired, rewired]
      exact if_congr (by omega) rfl rfl

/-- One turn of the loop. -/
theorem run_redirectEntry {i : Nat} (hi : i < 16) (select : Byte) : Prog.run (exec w) (do
      let regVal ← readIoapicRegister w.ioapic (BitVec.ofNat 8 (0x10 + i * 2))
      writeIoapicRegister w.ioapic (BitVec.ofNat 8 (0x10 + i * 2)) (redirection i regVal)
      let upperReg ← readIoapicRegister w.ioapic (BitVec.ofNat 8 (0x11 + i * 2))
      writeIoapicRegister w.ioapic (BitVec.ofNat 8 (0x11 + i * 2)) (upperReg &&& 0x00FFFFFF#32))
      { s with ioapic := ⟨select, rewired s.ioapic.registers i⟩ } = .ok ((), { s with
        ioapic := ⟨BitVec.ofNat 8 (0x11 + i * 2), rewired s.ioapic.registers (i + 1)⟩ }) := by
  have hne : BitVec.ofNat 8 (0x11 + i * 2) ≠ BitVec.ofNat 8 (0x10 + i * 2) :=
    register_ne (by omega) (by omega) (by omega)
  rw [Prog.run_bind_ok _ (run_readIoapicRegister _), Prog.run_bind_ok _ (run_writeIoapicRegister _ _),
    Prog.run_bind_ok _ (run_readIoapicRegister _), run_writeIoapicRegister, rewired_succ _ hi]
  dsimp only
  rw [if_neg hne]

theorem run_redirectInterrupts_eq : ∃ select, Prog.run (exec w) (redirectInterrupts w.ioapic) s =
    .ok ((), { s with ioapic := ⟨select, rewired s.ioapic.registers 16⟩ }) := by
  have hstart : ∃ select, s = { s with ioapic := ⟨select, rewired s.ioapic.registers 0⟩ } :=
    ⟨s.ioapic.select, by rw [rewired_zero]⟩
  obtain ⟨⟨⟩, t, ht, select, h⟩ := Prog.run_forUp (exec w) _
    (fun n _ t => ∃ select, t = { s with ioapic := ⟨select, rewired s.ioapic.registers n⟩ }) hstart
    fun i _ t hi h => by
      obtain ⟨select, rfl⟩ := h
      exact ⟨(), _, run_redirectEntry hi select, _, rfl⟩
  exact ⟨select, ht.trans (by rw [h])⟩

theorem run_initPic_eq : Prog.run (exec w) initPic s = .ok ((), { s with
    master := { remapChip s.master (1#8 <<< 2) 32#32 with imr := 0xFF#8 }
    slave := { remapChip s.slave (1#8 <<< 1) 40#32 with imr := 0xFF#8 } }) := by
  rw [initPic, Prog.run_bind_ok _ (run_picRemap w 32#32 40#32)]
  exact run_maskPicInterrupts w rfl rfl

theorem run_readRegister (h : s.globals.localApic1VirtAddr = w.localApic) {offset : Word}
    (ho : offset < 0x1000#32) :
    Prog.run (exec w) (readRegister offset) s = .ok (s.localApic.registers offset, s) := by
  have hget : Prog.run (exec w) (Code.get (·.localApic1VirtAddr)) s = .ok (w.localApic, s) := by
    rw [← h]
    rfl
  have hne := w.apart offset ho
  have hsub : w.localApic + offset - w.localApic = offset := by bv_omega
  rw [readRegister, Prog.run_bind_ok _ hget, Code.load, Prog.run_perform, exec, Board.load,
    if_neg hne.1, if_neg hne.2, hsub, if_pos ho]
  rfl

theorem run_apicStartTimer_eq (h : s.globals.localApic1VirtAddr = w.localApic) :
    Prog.run (exec w) apicStartTimer s = .ok ((), { s with
      localApic := ((s.localApic.write 0x320#32 (48#32 ||| 0x20000#32)).write 0x3E0#32 0x3#32).write
        0x380#32 100000#32 }) := by
  have hwrite (a : LocalApic) {offset : Word} (ho : offset < 0x1000#32) (v : Word) :
      Prog.run (exec w) (writeRegister offset v) { s with localApic := a } =
        .ok ((), { s with localApic := a.write offset v }) :=
    run_writeRegister (s := { s with localApic := a }) h ho v
  rw [apicStartTimer, Prog.run_bind_ok _ (run_writeRegister h (by decide) _),
    Prog.run_bind_ok _ (hwrite _ (by decide) _), hwrite _ (by decide) _]

theorem rewired_low (registers : Byte → Word) (entry : Fin 16) :
    rewired registers 16 (BitVec.ofNat 8 (0x10 + entry * 2)) =
      redirection entry (registers (BitVec.ofNat 8 (0x10 + entry * 2))) := by
  have hlt := entry.isLt
  have hnat : (BitVec.ofNat 8 (0x10 + entry * 2)).toNat = 0x10 + entry * 2 := by
    rw [BitVec.toNat_ofNat, Nat.mod_eq_of_lt (by omega)]
  have hentry : (0x10 + entry * 2 - 0x10) / 2 = entry.val := by omega
  rw [rewired, hnat, if_pos (by omega), if_pos (by omega), hentry]

/-- Entry 2 stays masked if it was. -/
theorem masked_redirection (i : Nat) (hi : i < 16) (v : Word) :
    (redirection i v).getLsbD 16 = (decide (i = 2) && v.getLsbD 16) := by
  have hvector : ∀ i < 16, (BitVec.ofNat 32 (48 + i + 1)).getLsbD 16 = false := by decide
  have hlow : ((v &&& 0xFFFF0000#32) ||| BitVec.ofNat 32 (48 + i + 1)).getLsbD 16 = v.getLsbD 16 := by
    rw [BitVec.getLsbD_or, BitVec.getLsbD_and, hvector i hi, Bool.or_false,
      show (0xFFFF0000#32).getLsbD 16 = true by decide, Bool.and_true]
  unfold redirection
  by_cases h2 : i = 2
  · rw [if_neg (not_not.mpr h2), hlow, decide_eq_true h2, Bool.true_and]
  · rw [if_pos h2, BitVec.getLsbD_and, show (~~~(1#32 <<< 16)).getLsbD 16 = false by decide,
      Bool.and_false, decide_eq_false h2, Bool.false_and]

/-- The controllers once the 8259s have been set up. -/
def withPics (s : Board) : Board := { s with
  master := { remapChip s.master (1#8 <<< 2) 32#32 with imr := 0xFF#8 }
  slave := { remapChip s.slave (1#8 <<< 1) 40#32 with imr := 0xFF#8 } }

theorem withPics_masked (s : Board) : s.withPics.imr = 0xFFFF#16 :=
  show (0xFF#8 ++ 0xFF#8 : BitVec 16) = 0xFFFF#16 by decide

/-- The byte that is read in between is only printed. -/
theorem run_programLocalRegisters (h : s.globals.localApic1VirtAddr = w.localApic) :
    ∃ a : LocalApic, Prog.run (exec w) (programLocalRegisters w.localApic) s =
      .ok ((), { s with localApic := a }) ∧
      a.Started ∧ a.inService = s.localApic.inService := by
  let s₁ : Board := { s with localApic := s.localApic.write 0xF0#32 (s.localApic.registers
    0xF0#32 ||| 0x100#32) }
  let s₂ : Board := { s₁ with localApic := s₁.localApic.write 0x80#32 3#32 }
  obtain ⟨b, hbyte⟩ : ∃ b, Prog.run (exec w) (Code.loadByte (w.localApic + 3#32)) s₁ = .ok (b, s₁) := by
    have hk : ((w.localApic + 3#32) &&& 3#32).toNat ≤ 3 := by
      rw [BitVec.toNat_and]
      exact Nat.and_le_right
    let offset := 3#32 - ((w.localApic + 3#32) &&& 3#32)
    have ho : offset < 0x1000#32 := by
      show 3#32 - ((w.localApic + 3#32) &&& 3#32) < 0x1000#32
      generalize (w.localApic + 3#32) &&& 3#32 = k at hk
      bv_omega
    have haddr : w.localApic + 3#32 - ((w.localApic + 3#32) &&& 3#32) = w.localApic + offset := by
      rw [BitVec.sub_eq_add_neg, BitVec.add_assoc, ← BitVec.sub_eq_add_neg]
    have hne := w.apart offset ho
    have hsub : w.localApic + offset - w.localApic = offset := by bv_omega
    have hload : s₁.load w (w.localApic + offset) = .ok (s₁.localApic.registers offset) := by
      rw [Board.load, if_neg hne.1, if_neg hne.2, hsub, if_pos ho]
    refine ⟨(s₁.localApic.registers offset).extractLsb' (8 * ((w.localApic + 3#32) &&& 3#32).toNat) 8, ?_⟩
    rw [Code.loadByte, Prog.run_perform]
    show (s₁.load w (w.localApic + 3#32 - ((w.localApic + 3#32) &&& 3#32))).map _ = _
    rw [haddr, hload]
    rfl
  refine ⟨_, (Prog.run_bind_ok _ (run_readRegister h (by decide))).trans
    ((Prog.run_bind_ok _ (run_writeRegister h (by decide) _)).trans ((Prog.run_bind_ok _ hbyte).trans
      ((Prog.run_bind_ok _ (run_writeRegister (s := s₁) h (by decide) _)).trans
        (run_apicStartTimer_eq (s := s₂) h)))), ⟨?_, rfl, rfl, rfl, rfl⟩, rfl⟩
  have hbit : (0x100#32).getLsbD 8 = true := by decide
  show (s.localApic.registers 0xF0#32 ||| 0x100#32).getLsbD 8 = true
  rw [BitVec.getLsbD_or, hbit, Bool.or_true]

theorem run_programIoapicRegisters : ∃ select, Prog.run (exec w) (programIoapicRegisters w.ioapic) s =
    .ok ((), { s with ioapic := ⟨select, rewired s.ioapic.registers 16⟩ }) := by
  obtain ⟨select, h⟩ := run_redirectInterrupts_eq (w := w) (s := s)
  refine ⟨0x12#8, (Prog.run_bind_ok _ h).trans ?_⟩
  rw [Prog.run_bind_ok _ (run_readIoapicRegister _), Prog.run_bind_ok _ (run_readIoapicRegister _),
    Prog.run_bind_ok _ (run_readIoapicRegister _), Prog.run_bind_ok _ (run_readIoapicRegister _)]
  rfl

/-- Where no MADT is found, or the processor has no APIC. -/
theorem run_programControllers_nothing :
    Prog.run (exec w) (programControllers w .nothing) s = .ok ((), s.withPics) :=
  Prog.run_bind_ok _ run_initPic_eq

/-- Where the MADT has no record of an IOAPIC. -/
theorem run_programControllers_localApic (h : s.globals.localApic1VirtAddr = w.localApic) :
    ∃ a : LocalApic, Prog.run (exec w) (programControllers w .localApic) s =
      .ok ((), { s.withPics with localApic := a }) ∧ a.Started ∧ a.inService = s.localApic.inService := by
  obtain ⟨a, ha, hstarted, hservice⟩ := run_programLocalRegisters (s := s.withPics) h
  exact ⟨a, (Prog.run_bind_ok _ run_initPic_eq).trans (Prog.run_bind_ok _ ha), hstarted, hservice⟩

theorem run_programControllers (h : s.globals.localApic1VirtAddr = w.localApic) :
    ∃ t, Prog.run (exec w) (programControllers w .both) s = .ok ((), t) ∧
      t.Configured w s.ioapic.registers ∧
      t.localApic.inService = s.localApic.inService := by
  obtain ⟨a, ha, hstarted, hservice⟩ := run_programLocalRegisters (s := s.withPics) h
  obtain ⟨select, hlast⟩ := run_programIoapicRegisters (w := w) (s := { s.withPics with localApic := a })
  refine ⟨_, (Prog.run_bind_ok _ run_initPic_eq).trans ((Prog.run_bind_ok _ ha).trans hlast), ?_,
    hservice⟩
  refine ⟨⟨⟨⟨rfl, rfl, rfl, rfl, rfl, rfl⟩, ⟨rfl, rfl, rfl, rfl, rfl, rfl⟩⟩, ?_, fun entry => ?_,
    h⟩, withPics_masked s, hstarted, rfl⟩
  · have hvector : (0x20030#32).toNat % 256 = 48 := by decide
    exact (congrArg (fun v : Word => v.toNat % 256) hstarted.periodic).trans hvector
  · exact (congrArg (fun v : Word => v.toNat % 256) (rewired_low s.ioapic.registers entry)).trans
      (redirection_vector entry.isLt _)

end Programming

section Services

variable {registers : Byte → Word} {fuel : Nat}

theorem endOfInterrupt_registers (a : LocalApic) : a.endOfInterrupt.registers = a.registers := by
  unfold LocalApic.endOfInterrupt
  split <;> rfl

/-- Served by the local APIC, this has changed. -/
def served (s : Board) (inService : Finset Nat) (asked : Nat) : Board :=
  { s with localApic := ⟨s.localApic.registers, inService⟩, asked := asked }

theorem run_apicSendEoi_accepted (h : s.globals.localApic1VirtAddr = w.localApic)
    (hidle : s.localApic.inService = ∅) (vector asked : Nat) :
    Prog.run (exec w) apicSendEoi (s.served {vector} asked) = .ok ((), s.served ∅ asked) := by
  have haccepted : ({vector} : Finset Nat) = (s.localApic.accept vector).inService := by
    simp [LocalApic.accept, hidle]
  have hregisters := endOfInterrupt_registers (s.localApic.accept vector)
  have hserved := LocalApic.accept_endOfInterrupt hidle vector
  have hend : (⟨s.localApic.registers, {vector}⟩ : LocalApic).endOfInterrupt =
      ⟨s.localApic.registers, ∅⟩ := by
    rw [haccepted]
    exact congrArg₂ LocalApic.mk hregisters hserved
  rw [run_apicSendEoi (s := s.served {vector} asked) h]
  exact congrArg (fun a => Except.ok ((), { s with localApic := a, asked := asked })) hend

theorem run_apicSendEoi_idle (h : s.globals.localApic1VirtAddr = w.localApic) (asked : Nat) :
    Prog.run (exec w) apicSendEoi (s.served ∅ asked) = .ok ((), s.served ∅ asked) := by
  rw [run_apicSendEoi (s := s.served ∅ asked) h]
  rfl

/-- What a source of the local APIC leaves behind. -/
def left (source : Source) : Finset Nat := if source.number = 64 then {64} else ∅

theorem Programmed.served_of_handler (h : s.Programmed w) (hidle : s.localApic.inService = ∅)
    {source : Source} (hsource : ∀ line, source ≠ .pic line)
    (hr : Prog.run (exec w) (source.handler fuel) (s.deliver source) = .ok ((), t)) :
    ∃ asked, t = s.served (left source) asked := by
  have hdeliver : s.deliver source = s.served {source.number} s.asked := by
    have haccept : s.localApic.accept (s.vector source) = ⟨s.localApic.registers, {source.number}⟩ := by
      simp [LocalApic.accept, hidle, h.vector_eq source]
    cases source with
    | pic line => exact absurd rfl (hsource line)
    | timer | ioapic => exact congrArg (fun a => ({ s with localApic := a } : Board)) haccept
  have heoi (vector asked : Nat) {u : Board}
      (hu : Prog.run (exec w) apicSendEoi (s.served {vector} asked) = .ok ((), u)) :
      u = s.served ∅ asked := by
    simpa using (hu.symm.trans (run_apicSendEoi_accepted h.localApic hidle vector asked))
  rw [hdeliver] at hr
  cases source with
  | pic line => exact absurd rfl (hsource line)
  | timer => exact ⟨s.asked, heoi _ _ hr⟩
  | ioapic entry =>
    by_cases h1 : entry = 1
    · subst h1
      -- the second acknowledgement finds nothing in service
      obtain ⟨⟨⟩, u, hu, hlast⟩ := Prog.of_run_bind _ hr
      obtain ⟨b, v, hv, hv'⟩ := Prog.of_run_bind _ hu
      obtain ⟨n, rfl⟩ := run_readPs2Data hv
      obtain rfl := heoi _ n hv'
      obtain rfl : _ = t := by simpa using (run_apicSendEoi_idle h.localApic n).symm.trans hlast
      exact ⟨n, rfl⟩
    · rw [Source.handler, if_neg h1] at hr
      by_cases h15 : entry = 15
      · subst h15
        obtain rfl : s.served {(Source.ioapic 15).number} s.asked = t := by simpa using hr
        exact ⟨s.asked, rfl⟩
      · have hne : (Source.ioapic entry).number ≠ 64 :=
          fun he => h15 (Fin.ext (Nat.add_left_cancel (n := 49) he))
        rw [if_neg h15] at hr
        rw [left, if_neg hne]
        exact ⟨s.asked, heoi _ _ hr⟩

theorem Configured.served (h : s.Configured w registers) (inService : Finset Nat) (asked : Nat) :
    (s.served inService asked).Configured w registers where
  remapped := h.remapped
  timer := h.timer
  ioapic := h.ioapic
  localApic := h.localApic
  masked := h.masked
  started := ⟨h.started.enabled, h.started.priority, h.started.periodic, h.started.divider,
    h.started.count⟩
  redirected := h.redirected

/-- All but the lines of the 8259s, and entry 2 if it was masked before. -/
def Unmasked (registers : Byte → Word) : Source → Prop
  | .pic _ => False
  | .timer => True
  | .ioapic entry => entry.val = 2 → (registers 0x14#8).getLsbD 16 = false

theorem Configured.deliverable_iff (h : s.Configured w registers) (source : Source) :
    s.Deliverable source ↔ Unmasked registers source ∧
    ∀ v ∈ s.localApic.inService, v / 16 < source.number / 16 := by
  have htakes (source : Source) (hnumber : 48 ≤ source.number) : s.localApic.Takes (s.vector source) ↔
      ∀ v ∈ s.localApic.inService, v / 16 < source.number / 16 := by
    have hpriority : (3#32).toNat % 256 / 16 < source.number / 16 := by
      rw [BitVec.toNat_ofNat]
      omega
    rw [LocalApic.Takes, h.started.enabled, h.started.priority, h.vector_eq]
    exact ⟨fun ht => ht.2.2, fun ht => ⟨rfl, hpriority, ht⟩⟩
  cases source with
  | pic line =>
    have hmask : ∀ line : Fin 16, (0xFFFF#16).getLsbD line = true := by decide
    rw [Deliverable, Unmasked, h.masked, hmask line]
    simp
  | timer =>
    have hmask : (0x20030#32).getLsbD 16 = false := by decide
    rw [Deliverable, Unmasked, h.started.periodic, htakes .timer (Nat.le_refl 48), hmask]
    simp
  | ioapic entry =>
    have hmask : (s.ioapic.registers (BitVec.ofNat 8 (0x10 + entry * 2))).getLsbD 16 = false ↔
        (entry.val = 2 → (registers 0x14#8).getLsbD 16 = false) := by
      rw [h.redirected, rewired_low, masked_redirection _ entry.isLt, Bool.and_eq_false_imp,
        decide_eq_true_eq]
      refine forall_congr' fun he => ?_
      rw [he]
    rw [Deliverable, Unmasked, htakes _ (Nat.le_trans (by decide) (Nat.le_add_right 49 entry)), hmask]

theorem number_le (source : Source) : source.number ≤ 64 := by
  cases source with
  | pic line => exact Nat.le_of_lt (by rw [Source.number]; omega)
  | timer => decide
  | ioapic entry => rw [Source.number]; omega

/-- Vector 64 has been served. -/
def Spent (es : List Service) : Prop := ∃ e ∈ es, e.source.number = 64

theorem Configured.run (h : s.Configured w registers) (hidle : s.localApic.inService = ∅)
    {es : List Service} (hrun : Labelled.Run (Serviced w fuel) s es t) :
    ¬ Spent es ∧ (∃ n, t = s.served ∅ n) ∨ Spent es ∧ ∃ n, t = s.served {64} n := by
  have hstart : s = s.served ∅ s.asked := by rw [Board.served, ← hidle]
  refine hrun.inv_history (I := fun es t => ¬ Spent es ∧ (∃ n, t = s.served ∅ n) ∨ Spent es ∧
    ∃ n, t = s.served {64} n) (Or.inl ⟨by simp [Spent], _, hstart⟩) fun es t e u hinv hs => ?_
  have hspent : Spent (es ++ [e]) ↔ Spent es ∨ e.source.number = 64 := by
    simp [Spent, or_and_right, exists_or]
  obtain ⟨hdeliverable, hserves⟩ := hs
  rcases hinv with ⟨hnot, n, rfl⟩ | ⟨_, n, rfl⟩
  · have hserved := h.served ∅ n
    have hunmasked := ((hserved.deliverable_iff _).mp hdeliverable).1
    have hsource (line : Fin 16) : e.source ≠ .pic line := by
      intro he
      rw [he] at hunmasked
      exact hunmasked
    have hr := hserves.1
    rw [hserved.vector_eq, isrStub_number] at hr
    obtain ⟨n', hu⟩ := hserved.served_of_handler rfl hsource hr
    rw [hspent, left] at *
    by_cases h64 : e.source.number = 64
    · rw [if_pos h64] at hu
      exact Or.inr ⟨Or.inr h64, n', hu⟩
    · rw [if_neg h64] at hu
      exact Or.inl ⟨not_or.mpr ⟨hnot, h64⟩, n', hu⟩
  · -- nothing has a higher class than vector 64
    have hclass := ((h.served {64} n).deliverable_iff _).mp hdeliverable |>.2 64
      (Finset.mem_singleton_self 64)
    have hnumber := number_le e.source
    omega

end Services

end Board

end PekOS
