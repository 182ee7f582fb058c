import PekOS.Ps2

/-! apic.c. -/

namespace PekOS

open OpTree Code

/-! The local APIC, through the page it is mapped at. -/

def readRegister (registerOffset : Word) : Code Word := do
  let base ← get (·.localApic1VirtAddr)
  load (base + registerOffset)

def writeRegister (registerOffset value : Word) : Code Unit := do
  let base ← get (·.localApic1VirtAddr)
  store (base + registerOffset) value

def apicSendEoi : Code Unit := writeRegister 0xB0#32 0#32

/-- `apic_start_timer`: the timer's interrupt is vector 48, periodic. -/
def apicStartTimer : Code Unit := do
  writeRegister 0x320#32 (48#32 ||| 0x20000#32)
  writeRegister 0x3E0#32 0x3#32
  writeRegister 0x380#32 100000#32

def cpuHasMsr : Code Bool := do
  let edx ← cpuid
  return edx &&& 0x20#32 ≠ 0#32

def checkApic : Code Bool := do
  let edx ← cpuid
  return edx &&& 0x200#32 ≠ 0#32

def cpuGetApicBase : Code Word := do
  let msr ← rdmsr
  return msr.setWidth 32 &&& 0xFFFFF000#32

/-- `cpu_set_apic_base`. The mask is `0xfffff0000`, nine digits long. -/
def cpuSetApicBase (apic : Word) : Code Unit :=
  wrmsr (((apic.setWidth 64 &&& 0xFFFFF0000#64) ||| 0x800#64).setWidth 32 |>.setWidth 64)

def enableApic : Code Unit := do
  let apic ← cpuGetApicBase
  cpuSetApicBase apic

/-! The IOAPIC. -/

def writeIoapicRegister (apicBase : Word) (offset : Byte) (val : Word) : Code Unit := do
  store apicBase (offset.setWidth 32)
  store (apicBase + 0x10#32) val

def readIoapicRegister (apicBase : Word) (offset : Byte) : Code Word := do
  store apicBase (offset.setWidth 32)
  load (apicBase + 0x10#32)

/-- The lower word of redirection entry `i`: vector 49 + `i`, fixed delivery,
and the mask bit cleared for all but entry 2. -/
def redirection (i : Nat) (regVal : Word) : Word :=
  let regVal := (regVal &&& 0xFFFF0000#32) ||| BitVec.ofNat 32 (48 + i + 1)
  if i ≠ 2 then regVal &&& ~~~(1#32 <<< 16) else regVal

/-- The loop of `init_apic` over the redirection entries. -/
def redirectInterrupts (ioapicVirtAddress : Word) : Code Unit :=
  Prog.forUp 16 () fun i _ => do
    let regVal ← readIoapicRegister ioapicVirtAddress (BitVec.ofNat 8 (0x10 + i * 2))
    writeIoapicRegister ioapicVirtAddress (BitVec.ofNat 8 (0x10 + i * 2)) (redirection i regVal)
    let upperReg ← readIoapicRegister ioapicVirtAddress (BitVec.ofNat 8 (0x11 + i * 2))
    writeIoapicRegister ioapicVirtAddress (BitVec.ofNat 8 (0x11 + i * 2)) (upperReg &&& 0x00FFFFFF#32)

/-- One step through the MADT's records, at offset `i` of `len` bytes. -/
def madtRecord (start len type i : Word) : Code (Word ⊕ Word) := do
  if i < len then
    let cur := start + i
    let entryType ← loadByte cur
    if entryType.setWidth 32 = type then return .inr cur
    else
      let recordLength ← loadByte (cur + 1#32)
      return .inl (i + recordLength.setWidth 32)
  else return .inr 0#32

def findMADTEntryByType (fuel : Nat) (type : Word) : Code Word := do
  let madt ← get (·.madt)
  deref .findByHeader madt
  let length ← load (madt + 4#32)
  Prog.loop outOfFuel (madtRecord (madt + 44#32) (length - 44#32) type) fuel 0#32

section Image

variable (image : KernelImage)

/-- `init_apic` from the local APIC's address up to the timer. -/
def programLocalApic (msrAvailable : Bool) (madt : Word) : Code Unit := do
  let physAddr ← if msrAvailable then cpuGetApicBase else do
    deref .findByHeader madt
    load (madt + 36#32)
  modify fun g => { g with localApic1PhysAddr := physAddr }
  let virtAddr ← globals findFreeVirtaddr
  modify fun g => { g with localApic1VirtAddr := virtAddr }
  mapPage image physAddr virtAddr 3#32
  (if msrAvailable then enableApic else return ())
  let spurious ← readRegister 0xF0#32
  writeRegister 0xF0#32 (spurious ||| 0x100#32)
  let _ ← loadByte (virtAddr + 3#32)
  writeRegister 0x80#32 3#32
  apicStartTimer

/-- `init_apic` up to the timer; `false` where it returns early. -/
def startLocalApic : Code Bool := do
  let msrAvailable ← cpuHasMsr
  modify fun g => { g with msrAvailable := msrAvailable }
  let madt ← findByHeader [0x41#8, 0x50#8, 0x49#8, 0x43#8]
  modify fun g => { g with madt := madt }
  let usable ← if madt = 0#32 then pure false
    else if msrAvailable then checkApic else pure true
  if usable then
    programLocalApic image msrAvailable madt
    return true
  else return false

/-- `init_apic` from the two records it has looked up on. -/
def programIoapic (ioApic1Head ioapicIso : Word) : Code Unit := do
  deref .findMADTEntryByType ioapicIso
  let _ ← loadByte (ioapicIso + 2#32)
  let _ ← loadByte (ioapicIso + 3#32)
  let _ ← load (ioapicIso + 4#32)
  let _ ← loadByte (ioapicIso + 8#32)
  let _ ← loadByte (ioapicIso + 9#32)
  deref .findMADTEntryByType ioApic1Head
  let ioapicPhysAddress ← load (ioApic1Head + 4#32)
  let page ← globals findFreeVirtaddr
  let ioapicVirtAddress := (page &&& 0xFFFFF000#32) ||| (ioapicPhysAddress &&& 0xFFF#32)
  mapPage image (ioapicPhysAddress &&& 0xFFFFF000#32) (ioapicVirtAddress &&& 0xFFFFF000#32) 3#32
  redirectInterrupts ioapicVirtAddress
  let _ ← readIoapicRegister ioapicVirtAddress 0x0#8
  let _ ← readIoapicRegister ioapicVirtAddress 0x1#8
  let _ ← readIoapicRegister ioapicVirtAddress 0x10#8
  let _ ← readIoapicRegister ioapicVirtAddress 0x12#8
  return ()

/-- The rest of `init_apic`: only the type 1 lookup is checked. -/
def startIoapic (fuel : Nat) : Code Unit := do
  let ioApic1Head ← findMADTEntryByType fuel 1#32
  if ioApic1Head = 0#32 then return ()
  else
    let ioapicIso ← findMADTEntryByType fuel 2#32
    programIoapic image ioApic1Head ioapicIso

def initApic (fuel : Nat) : Code Unit := do
  let started ← startLocalApic image
  if started then startIoapic image fuel else return ()

end Image

end PekOS
