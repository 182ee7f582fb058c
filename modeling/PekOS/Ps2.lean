import PekOS.Rsdt
import PekOS.Library.Loops

/-! ps2.c. `fuel` bounds the polling loops, which wait for the controller as
long as it takes. -/

namespace PekOS

open OpTree Code

def ioWait : Code Unit := outb 0x80#16 0#8

section Fuel

variable (fuel : Nat)

def ps2OutputBufferFull : Code Bool := do
  let status ← inb 0x64#16
  return status &&& 1#8 ≠ 0#8

def readPs2Data : Code Byte := do
  Prog.loop outOfFuel (fun _ => do
    let full ← ps2OutputBufferFull
    return if full then .inr () else .inl ()) fuel ()
  inb 0x60#16

/-- Waiting until the input buffer is empty. -/
def waitPs2 : Code Unit :=
  Prog.loop outOfFuel (fun _ => do
    let status ← inb 0x64#16
    return if status &&& 2#8 ≠ 0#8 then .inl () else .inr ()) fuel ()

def sendPs2Command (command : Byte) : Code Unit := do
  waitPs2 fuel
  outb 0x64#16 command

def sendDeviceData (command : Byte) : Code Unit := do
  waitPs2 fuel
  outb 0x60#16 command

def detectPs2Device (port : Byte) : Code Byte := do
  (if port = 2#8 then sendPs2Command fuel 0xD4#8 else return ())
  sendDeviceData fuel 0xF5#8
  let _ ← readPs2Data fuel
  sendDeviceData fuel 0xF2#8
  let _ ← readPs2Data fuel
  let res ← readPs2Data fuel
  ioWait
  let _ ← readPs2Data fuel
  return res

/-- `while (inb(PS2_STATUS_REGISTER) & 1) { if (!inb(PS2_DATA_PORT)) break; }` -/
def flushPs2 : Code Unit :=
  Prog.loop outOfFuel (fun _ => do
    let status ← inb 0x64#16
    if status &&& 1#8 = 0#8 then return .inr ()
    else
      let b ← inb 0x60#16
      return if b = 0#8 then .inr () else .inl ()) fuel ()

/-- Whether the controller has a second channel, by the configuration byte. -/
def ps2IsDualChannel (controllerConfig : Byte) : Code Bool := do
  if controllerConfig &&& 0x20#8 = 0#8 then return false
  else
    sendPs2Command fuel 0xA8#8
    sendPs2Command fuel 0x20#8
    let config ← readPs2Data fuel
    if config &&& 0x20#8 = 0#8 then
      sendPs2Command fuel 0xA7#8
      return true
    else return false

/-- The answer to a reset command. -/
def readPs2Reset : Code Unit := do
  let resetRes ← readPs2Data fuel
  if resetRes = 0xFA#8 then
    let _ ← readPs2Data fuel
    return ()
  else return ()

/-- `init_ps2` from the reset of the devices on, the interface tests having passed or failed. -/
def startDevices (first second : Bool) : Code Unit := do
  -- reset devices
  sendDeviceData fuel 0xFF#8
  readPs2Reset fuel
  sendPs2Command fuel 0xD4#8
  sendDeviceData fuel 0xFF#8
  readPs2Reset fuel
  -- detect devices
  (if first then do
    let d ← detectPs2Device fuel 1#8
    modify fun g => { g with device1 := d }
  else return ())
  (if second then do
    let d ← detectPs2Device fuel 2#8
    modify fun g => { g with device2 := d }
  else return ())
  -- enable scanning, then interrupts
  sendDeviceData fuel 0xF4#8
  let commandRes ← readPs2Data fuel
  modify fun g => { g with commandRes := commandRes }
  sendPs2Command fuel 0x20#8
  let config ← readPs2Data fuel
  sendPs2Command fuel 0x60#8
  outb 0x60#16 (config ||| 3#8)

/-- The part of `init_ps2` for a machine that has a controller. -/
def startPs2 : Code Unit := do
  outb 0x64#16 0xAD#8
  outb 0x64#16 0xA7#8
  flushPs2 fuel
  sendPs2Command fuel 0x20#8
  let config ← readPs2Data fuel
  let controllerConfig := config &&& 0xBC#8
  sendPs2Command fuel 0x60#8
  outb 0x60#16 controllerConfig
  sendPs2Command fuel 0xAA#8
  let response ← readPs2Data fuel
  if response ≠ 0x55#8 then return () else
  sendPs2Command fuel 0x60#8
  outb 0x60#16 controllerConfig
  let _ ← ps2IsDualChannel fuel controllerConfig
  -- interface tests
  sendPs2Command fuel 0xAB#8
  let test1 ← readPs2Data fuel
  modify fun g => { g with firstControllerWorks := test1 = 0#8 }
  sendPs2Command fuel 0xA9#8
  let test2 ← readPs2Data fuel
  modify fun g => { g with secondControllerWorks := test2 = 0#8 }
  let first ← flag (·.firstControllerWorks)
  (if first then sendPs2Command fuel 0xAE#8 else return ())
  let second ← flag (·.secondControllerWorks)
  (if second then sendPs2Command fuel 0xA8#8 else return ())
  startDevices fuel first second

/-- The condition of `init_ps2`. The boot architecture flags stand at offset 110 of the struct. -/
def ps2Available : Code Bool := do
  let rsdp ← get (·.rsdp)
  deref .findRSDP rsdp
  let revision ← loadByte (rsdp + 15#32)
  if revision = 0#8 then return true
  else
    let fadt ← get (·.fadt)
    deref .findByHeader fadt
    let flags ← loadByte (fadt + 110#32)
    let _ ← loadByte (fadt + 111#32)
    return flags &&& 2#8 ≠ 0#8

def initPs2 : Code Unit := do
  let fadt ← findByHeader [0x46#8, 0x41#8, 0x43#8, 0x50#8]
  modify fun g => { g with fadt := fadt }
  let available ← ps2Available
  if available then startPs2 fuel else return ()

end Fuel

end PekOS
