import PekOS.Board
import PekOS.Ps2

/-! pic.c. -/

namespace PekOS

open OpTree Code

def pic1Command : BitVec 16 := 0x20#16
def pic1Data : BitVec 16 := 0x21#16
def pic2Command : BitVec 16 := 0xA0#16
def pic2Data : BitVec 16 := 0xA1#16

def maskPicInterrupts : Code Unit := do
  outb pic1Data 0xFF#8
  outb pic2Data 0xFF#8

def unmaskPicInterrupts : Code Unit := do
  outb pic1Data 0x00#8
  outb pic2Data 0x00#8

/-- `PIC_remap`: a word that starts the initialisation, and three that follow. -/
def picRemap (offset1 offset2 : Word) : Code Unit := do
  let a1 ← inb pic1Data
  let a2 ← inb pic2Data
  outb pic1Command (0x10#8 ||| 0x01#8)
  ioWait
  outb pic2Command (0x10#8 ||| 0x01#8)
  ioWait
  outb pic1Data (offset1.setWidth 8)
  ioWait
  outb pic2Data (offset2.setWidth 8)
  ioWait
  outb pic1Data (1#8 <<< 2)
  ioWait
  outb pic2Data (1#8 <<< 1)
  ioWait
  outb pic1Data 0x01#8
  ioWait
  outb pic2Data 0x01#8
  ioWait
  outb pic1Data a1
  outb pic2Data a2

def initPic : Code Unit := do
  picRemap 32#32 40#32
  maskPicInterrupts

def picSendEOI (irq : Byte) : Code Unit := do
  (if irq ≥ 8#8 then outb pic2Command 0x20#8 else return ())
  outb pic1Command 0x20#8

/-- The data port of the chip that `line` is on, and its number there. -/
def picLine (line : Byte) : BitVec 16 × Byte :=
  if line < 8#8 then (pic1Data, line) else (pic2Data, line - 8#8)

def irqSetMask (line : Byte) : Code Unit := do
  let (port, line) := picLine line
  let value ← inb port
  outb port (value ||| 1#8 <<< line.toNat)

def irqClearMask (line : Byte) : Code Unit := do
  let (port, line) := picLine line
  let value ← inb port
  outb port (value &&& ~~~(1#8 <<< line.toNat))

def picGetIrqReg (ocw3 : Byte) : Code (BitVec 16) := do
  outb pic1Command ocw3
  outb pic2Command ocw3
  let high ← inb pic2Command
  let low ← inb pic1Command
  return (high.setWidth 16 <<< 8) ||| low.setWidth 16

def picGetIrr : Code (BitVec 16) := picGetIrqReg 0x0A#8

def picGetIsr : Code (BitVec 16) := picGetIrqReg 0x0B#8

end PekOS
