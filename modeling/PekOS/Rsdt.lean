import PekOS.Paging

/-! rsdt.c, and the functions of the C library it calls. The progress messages
are left out, the reads of memory they make are not. -/

namespace PekOS

open OpTree Code

/-- A C string or array, by the address of its first byte or as a literal. -/
def bytesAt (p : Word) (i : Nat) : Code Byte := loadByte (p + BitVec.ofNat 32 i)

def literal (l : List Byte) (i : Nat) : Code Byte := return l.getD i 0#8

/-- `strncmp`, from index `i` on with `n` bytes left. -/
def strncmp (s1 s2 : Nat → Code Byte) : Nat → Nat → Code Int
  | _, 0 => return 0
  | i, n + 1 => do
    let a ← s1 i
    let same ← if a = 0#8 then pure false else do
      let b ← s2 i
      pure (b ≠ 0#8 ∧ a = b : Bool)
    if same then strncmp s1 s2 (i + 1) n
    else
      let a ← s1 i
      let b ← s2 i
      return (a.toNat : Int) - b.toNat

/-- `memcmp`, from index `i` on with `n` bytes left. -/
def memcmp (a b : Nat → Code Byte) : Nat → Nat → Code Int
  | _, 0 => return 0
  | i, n + 1 => do
    let x ← a i
    let y ← b i
    if x < y then return -1
    else if y < x then return 1
    else memcmp a b (i + 1) n

def rsdPtr : List Byte := [0x52#8, 0x53#8, 0x44#8, 0x20#8, 0x50#8, 0x54#8, 0x52#8, 0x20#8]

def facp : List Byte := [0x46#8, 0x41#8, 0x43#8, 0x50#8]

def readWordAtAddress (addr : Word) : Code (BitVec 16) := do
  let w ← load addr
  return w.setWidth 16

def doChecksumRSDP (rsdp : Word) : Code Bool := do
  let revision ← loadByte (rsdp + 15#32)
  modify fun g => { g with acpiVersion := revision ≠ 0#8 }
  let sum ← Prog.forUp (if revision ≠ 0#8 then 36 else 20) 0#8 fun i sum => do
    let b ← loadByte (rsdp + BitVec.ofNat 32 i)
    return sum + b
  return sum = 0#8

/-- One location of the search for the RSDP. -/
def candidate (location : Word) : Code (Option Word) := do
  let c ← strncmp (bytesAt location) (literal rsdPtr) 0 8
  if c = 0 then
    let valid ← doChecksumRSDP location
    return if valid then some location else none
  else return none

/-- The `i`-th location in the EBDA, `w` being the BIOS's word at 0x413. -/
def ebdaLocation (w : BitVec 16) (i : Nat) : Word :=
  (w.setWidth 32 <<< 10) + kernelMapStart + BitVec.ofNat 32 (0x10 * i)

/-- The `i`-th location from 0xE0000 on. -/
def biosLocation (i : Nat) : Word := kernelMapStart + BitVec.ofNat 32 (0x000E0000 + 0x10 * i)

/-- The first of `m` locations, then of `m'` others, that passes. -/
def searchRSDP (f f' : Nat → Word) (m m' : Nat) : Code Word := do
  let found ← Prog.search (fun i => candidate (f i)) 0 m
  match found with
  | some location => return location
  | none =>
    let found ← Prog.search (fun i => candidate (f' i)) 0 m'
    return found.getD 0#32

def findRSDP : Code Word := do
  let w ← readWordAtAddress (kernelMapStart + 0x413#32)
  searchRSDP (ebdaLocation w) biosLocation 0x100 0x2000

def findRSDT : Code Word := do
  let rsdp ← get (·.rsdp)
  deref .findRSDP rsdp
  let revision ← loadByte (rsdp + 15#32)
  if revision = 0#8 then
    deref .findRSDP rsdp
    load (rsdp + 16#32)
  else
    deref .findRSDP rsdp
    load (rsdp + 24#32)

/-- Printing a table's signature. -/
def readSignature (table : Word) : Code Unit :=
  Prog.forUp 4 () fun i _ => do
    let _ ← loadByte (table + BitVec.ofNat 32 i)
    return ()

section Image

variable (image : KernelImage)

/-- The loop of `init_rsdt` over the entries of a root table: an entry is read
`stride` pointers after the one before it, and its new value is written one
pointer after the one before it. -/
def mapEntries (table : Word) (stride n : Nat) : Code Unit :=
  Prog.forUp n () fun entry _ => do
    let sdtHeader ← load (table + 36#32 + 4#32 * BitVec.ofNat 32 (stride * entry))
    let pageVirtLocation ← globals findFreeVirtaddr
    mapPage image (sdtHeader &&& ~~~0xFFF#32) pageVirtLocation 3#32
    store (table + 36#32 + 4#32 * BitVec.ofNat 32 entry) (pageVirtLocation + (sdtHeader &&& 0xFFF#32))
    let sdtHeader ← load (table + 36#32 + 4#32 * BitVec.ofNat 32 entry)
    readSignature sdtHeader

/-- `init_rsdt` from the mapping of the root table on. -/
def mapRootTable (rsdtPhysaddr : Word) : Code Unit := do
  let pageVirtLocation ← globals findFreeVirtaddr
  mapPage image (rsdtPhysaddr &&& ~~~0xFFF#32) pageVirtLocation 3#32
  let table := pageVirtLocation + (rsdtPhysaddr &&& 0xFFF#32)
  let acpiVersion ← flag (·.acpiVersion)
  if acpiVersion then
    modify fun g => { g with xsdt := table }
    readSignature table
    let length ← load (table + 4#32)
    let entries := (length - 36#32) / 8#32
    modify fun g => { g with entries := entries }
    mapEntries image table 2 entries.toNat
  else
    modify fun g => { g with rsdt := table }
    readSignature table
    let length ← load (table + 4#32)
    let entries := (length - 36#32) / 4#32
    modify fun g => { g with entries := entries }
    mapEntries image table 1 entries.toNat

def initRsdt : Code Unit := do
  let rsdp ← findRSDP
  modify fun g => { g with rsdp := rsdp }
  let rsdtPhysaddr ← findRSDT
  modify fun g => { g with rsdtPhysaddr := rsdtPhysaddr }
  mapRootTable image rsdtPhysaddr

end Image

/-- One iteration of `find_entry_in_RSDT`, where `pointer_to_other_SDT`, the first
entry of the table, is indexed. -/
def pointedEntry (rsdt : Word) (signature : List Byte) (i : Nat) : Code (Option Word) := do
  let pointerToOtherSDT ← load (rsdt + 36#32)
  let h ← load (pointerToOtherSDT + 4#32 * BitVec.ofNat 32 i)
  let c ← strncmp (bytesAt h) (literal signature) 0 4
  return if c = 0 then some h else none

def findEntryInRSDT (signature : List Byte) : Code Word := do
  let rsdt ← get (·.rsdt)
  let length ← load (rsdt + 4#32)
  let entries := (length - 36#32) / 4#32
  let found ← Prog.search (pointedEntry rsdt signature) 0 entries.toNat
  return found.getD 0#32

/-- One entry of the RSDT compared with a signature. -/
def tableEntry (rsdt : Word) (head : List Byte) (entry : Nat) : Code (Option Word) := do
  let sdtHeader ← load (rsdt + 36#32 + 4#32 * BitVec.ofNat 32 entry)
  let c ← memcmp (bytesAt sdtHeader) (literal head) 0 4
  return if c = 0 then some sdtHeader else none

/-- `find_by_header`. In ACPI 2.0 mode nothing is looked for. -/
def findByHeader (head : List Byte) : Code Word := do
  let acpiVersion ← flag (·.acpiVersion)
  if acpiVersion then return 0#32
  else
    let rsdt ← get (·.rsdt)
    let length ← load (rsdt + 4#32)
    let entries := (length - 36#32) / 4#32
    modify fun g => { g with entries := entries }
    let found ← Prog.search (tableEntry rsdt head) 0 entries.toNat
    return found.getD 0#32

end PekOS
