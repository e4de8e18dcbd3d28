import RvBoard.Board.Basic
import RvBoard.Board.DeviceStep
import RvBoard.Board.DeviceTree
import RvBoard.Board.Host
import RvBoard.Board.Run
import RvBoard.Bus
import RvBoard.Bytes
import RvBoard.CommandLine.Number
import RvBoard.CommandLine.Options
import RvBoard.CommandLine.Parse
import RvBoard.Debug.Command
import RvBoard.Debug.HexText
import RvBoard.Debug.Network
import RvBoard.Debug.Packet
import RvBoard.Debug.Stub
import RvBoard.Debug.Target
import RvBoard.Device
import RvBoard.Device.BlockStore
import RvBoard.Device.BootRom
import RvBoard.Device.Clint
import RvBoard.Device.Console
import RvBoard.Device.Ram
import RvBoard.Device.Rtc
import RvBoard.Device.SystemController
import RvBoard.Device.Uart
import RvBoard.Fdt
import RvBoard.Hart.Arithmetic
import RvBoard.Hart.Csr
import RvBoard.Hart.CsrAccess
import RvBoard.Hart.Execute
import RvBoard.Hart.Privilege
import RvBoard.Hart.Registers
import RvBoard.Hart.Snapshot
import RvBoard.Hart.State
import RvBoard.Hart.Step
import RvBoard.Hart.Trap
import RvBoard.Hart.TrapEntry
import RvBoard.Image.Elf
import RvBoard.Image.Load
import RvBoard.Instr.Compressed
import RvBoard.Instr.Decode
import RvBoard.Instr.Encode
import RvBoard.Instr.Op
import RvBoard.Instr.Table
import RvBoard.Instr.Text
import RvBoard.Machine.Build
import RvBoard.Machine.Program
import RvBoard.Machine.Run
import RvBoard.Main
import RvBoard.MemFault
import RvBoard.Memory.PageTable
import RvBoard.Memory.Tlb
import RvBoard.Memory.Virtual
import RvBoard.NineP.FileSystem
import RvBoard.NineP.Request
import RvBoard.NineP.Server
import RvBoard.NineP.Wire
import RvBoard.Pins
import RvBoard.Plic
import RvBoard.Proofs.AddressMap
import RvBoard.Proofs.Bits
import RvBoard.Proofs.Board.Activity
import RvBoard.Proofs.Board.Clocks
import RvBoard.Proofs.Board.Conditions
import RvBoard.Proofs.Board.Courses
import RvBoard.Proofs.Board.Deeds
import RvBoard.Proofs.Board.History
import RvBoard.Proofs.Board.Interrupts
import RvBoard.Proofs.Board.Lifecycle
import RvBoard.Proofs.Board.Lines
import RvBoard.Proofs.Board.PowerOn
import RvBoard.Proofs.Board.Requests
import RvBoard.Proofs.Board.Reset
import RvBoard.Proofs.Board.Shapes
import RvBoard.Proofs.Board.Timekeeping
import RvBoard.Proofs.Boot.Handoff
import RvBoard.Proofs.Boot.Rom
import RvBoard.Proofs.Bus
import RvBoard.Proofs.Bytes
import RvBoard.Proofs.Cells
import RvBoard.Proofs.Debug.Exchanges
import RvBoard.Proofs.Debug.Framing
import RvBoard.Proofs.Debug.RegisterPackets
import RvBoard.Proofs.Debug.Sessions
import RvBoard.Proofs.Debug.SingleSteps
import RvBoard.Proofs.Debug.Targets
import RvBoard.Proofs.Debug.WordTexts
import RvBoard.Proofs.Even
import RvBoard.Proofs.Fdt.Reading
import RvBoard.Proofs.Fdt.RoundTrip
import RvBoard.Proofs.Fdt.Writing
import RvBoard.Proofs.FreeSlots
import RvBoard.Proofs.Hart.Arithmetic
import RvBoard.Proofs.Hart.Breakpoints
import RvBoard.Proofs.Hart.Containment
import RvBoard.Proofs.Hart.CsrAccess
import RvBoard.Proofs.Hart.Execution
import RvBoard.Proofs.Hart.Instruction
import RvBoard.Proofs.Hart.Interrupts
import RvBoard.Proofs.Hart.Isolation
import RvBoard.Proofs.Hart.Jumps
import RvBoard.Proofs.Hart.Legality
import RvBoard.Proofs.Hart.Masking
import RvBoard.Proofs.Hart.Moves
import RvBoard.Proofs.Hart.Paging
import RvBoard.Proofs.Hart.PreciseTraps
import RvBoard.Proofs.Hart.Reservations
import RvBoard.Proofs.Hart.Slicing
import RvBoard.Proofs.Hart.Steady
import RvBoard.Proofs.Hart.SupervisorExternal
import RvBoard.Proofs.Hart.TrapEntry
import RvBoard.Proofs.Hart.TrapReturn
import RvBoard.Proofs.Hart.Views
import RvBoard.Proofs.Hart.ZeroRegister
import RvBoard.Proofs.Image.Loading
import RvBoard.Proofs.Instr.Decoding
import RvBoard.Proofs.Instr.Fields
import RvBoard.Proofs.Lookup
import RvBoard.Proofs.Memory.Access
import RvBoard.Proofs.Memory.ByteViews
import RvBoard.Proofs.Memory.Descent
import RvBoard.Proofs.Memory.Entry
import RvBoard.Proofs.Memory.Grants
import RvBoard.Proofs.Memory.Layout
import RvBoard.Proofs.Memory.Marking
import RvBoard.Proofs.Memory.Memories
import RvBoard.Proofs.Memory.OneMemory
import RvBoard.Proofs.Memory.Pages
import RvBoard.Proofs.Memory.Parcels
import RvBoard.Proofs.Memory.Remarks
import RvBoard.Proofs.Memory.Transparency
import RvBoard.Proofs.Memory.Veils
import RvBoard.Proofs.Memory.Visits
import RvBoard.Proofs.Memory.Walk
import RvBoard.Proofs.NineP.Asides
import RvBoard.Proofs.NineP.Containment
import RvBoard.Proofs.NineP.Effects
import RvBoard.Proofs.NineP.Entries
import RvBoard.Proofs.NineP.Failures
import RvBoard.Proofs.NineP.Listings
import RvBoard.Proofs.NineP.MessageSizes
import RvBoard.Proofs.NineP.MountTag
import RvBoard.Proofs.NineP.Renaming
import RvBoard.Proofs.NineP.Replies
import RvBoard.Proofs.NineP.RoundTrip
import RvBoard.Proofs.NineP.Session
import RvBoard.Proofs.NineP.Walks
import RvBoard.Proofs.NineP.Withheld
import RvBoard.Proofs.Outcome
import RvBoard.Proofs.Plic.Candidates
import RvBoard.Proofs.Plic.Claims
import RvBoard.Proofs.Plic.Pins
import RvBoard.Proofs.Routing
import RvBoard.Proofs.Rtc.Alarms
import RvBoard.Proofs.Rtc.Deeds
import RvBoard.Proofs.Share.Directories
import RvBoard.Proofs.Share.Identity
import RvBoard.Proofs.Share.Numbers
import RvBoard.Proofs.Share.Resolution
import RvBoard.Proofs.Share.TrailingSlash
import RvBoard.Proofs.Steady
import RvBoard.Proofs.Uart.Deeds
import RvBoard.Proofs.Uart.Input
import RvBoard.Proofs.Uart.Output
import RvBoard.Proofs.Uart.Transmitter
import RvBoard.Proofs.Virtio.BlockRequests
import RvBoard.Proofs.Virtio.Buffers
import RvBoard.Proofs.Virtio.Capacity
import RvBoard.Proofs.Virtio.Chains
import RvBoard.Proofs.Virtio.Completion
import RvBoard.Proofs.Virtio.Negotiation
import RvBoard.Proofs.Virtio.Requests
import RvBoard.Proofs.Virtio.ScatterGather
import RvBoard.Proofs.Virtio.Service
import RvBoard.Proofs.Virtio.Settings
import RvBoard.Proofs.Virtio.Termination
import RvBoard.Proofs.Virtio.Turns
import RvBoard.Proofs.Virtio.Walks
import RvBoard.Share.Changes
import RvBoard.Share.Errno
import RvBoard.Share.Host
import RvBoard.Share.HostShare
import RvBoard.Share.Node
import RvBoard.Share.Path
import RvBoard.Text.Hex
import RvBoard.Text.Lossy
import RvBoard.Virtio.Backends
import RvBoard.Virtio.Dma
import RvBoard.Virtio.Process
import RvBoard.Virtio.Queue
import RvBoard.Virtio.Service
import RvBoard.Virtio.Transport
import RvBoard.Wires
import RvBoard.Word
