import PekOS.Acknowledgements
import PekOS.Address
import PekOS.AddressSpace
import PekOS.Allocations
import PekOS.Apic
import PekOS.ApicBase
import PekOS.ApicRegisters
import PekOS.Backing
import PekOS.Bitmap
import PekOS.Board
import PekOS.Boot
import PekOS.Bytes
import PekOS.Comparisons
import PekOS.Contract
import PekOS.Cursor
import PekOS.Deliverable
import PekOS.Delivery
import PekOS.Demand
import PekOS.Descriptors
import PekOS.DeviceStart
import PekOS.EarlyPaging
import PekOS.ExceptionCaller
import PekOS.FaultHandling
import PekOS.FindByHeader
import PekOS.FindEntry
import PekOS.FindRsdp
import PekOS.Firmware
import PekOS.Formats
import PekOS.Frames
import PekOS.FreePages
import PekOS.Image
import PekOS.InitRsdt
import PekOS.Interrupts
import PekOS.Invariant
import PekOS.Kernel
import PekOS.Library.BitFields
import PekOS.Library.FirstFit
import PekOS.Library.I386
import PekOS.Library.I8259
import PekOS.Library.InPlace
import PekOS.Library.Instructions
import PekOS.Library.Interference
import PekOS.Library.LittleEndian
import PekOS.Library.Loops
import PekOS.Library.Positional
import PekOS.Library.Products
import PekOS.Library.Program
import PekOS.Library.Protection
import PekOS.Library.Runs
import PekOS.Library.Simulation
import PekOS.Library.StructLayout
import PekOS.Library.Uart16550
import PekOS.Library.Walks
import PekOS.Lookups
import PekOS.Machine
import PekOS.MadtRecords
import PekOS.MapPage
import PekOS.MappedTables
import PekOS.Marking
import PekOS.Memmove
import PekOS.NullChecks
import PekOS.NullLookups
import PekOS.Numerals
import PekOS.PageFault
import PekOS.Paged
import PekOS.Paging
import PekOS.Pic
import PekOS.PicMasks
import PekOS.Preallocated
import PekOS.Preemption
import PekOS.Printf
import PekOS.PrintfRuns
import PekOS.Printing
import PekOS.Ps2
import PekOS.Ps2Devices
import PekOS.Ps2Flags
import PekOS.Ps2Flush
import PekOS.Ps2Session
import PekOS.Ps2Writes
import PekOS.Reading
import PekOS.Resumption
import PekOS.RootBounds
import PekOS.RootTable
import PekOS.RsdpSearch
import PekOS.Rsdt
import PekOS.Searches
import PekOS.Segmentation
import PekOS.Serial
import PekOS.SerialInit
import PekOS.SerialSessions
import PekOS.Signatures
import PekOS.Stdout
import PekOS.Steps
import PekOS.Stores
import PekOS.Structs
import PekOS.Terminal
import PekOS.TerminalRing
import PekOS.TerminalRows
import PekOS.TerminalScroll
import PekOS.Vectors
import PekOS.VirtualMemory
import PekOS.Window
import PekOS.WindowPages
import PekOS.WindowReads
