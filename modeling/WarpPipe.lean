import WarpPipe.Library.Buffer
import WarpPipe.Library.BitField
import WarpPipe.Library.Masks
import WarpPipe.Library.Runs
import WarpPipe.ProtoCore
import WarpPipe.CrcCore
import WarpPipe.ClientCore
import WarpPipe.ProtoCodec
import WarpPipe.RequestCodec
import WarpPipe.Library.BitLayout
import WarpPipe.WireLayout
import WarpPipe.Packets
import WarpPipe.Library.ShiftRegister
import WarpPipe.Library.RegisterPeriod
import WarpPipe.Checksums
import WarpPipe.ClientSend
import WarpPipe.Messages
import WarpPipe.ClientRead
import WarpPipe.Calls
import WarpPipe.ReceiveBuffer
import WarpPipe.WriteBlock
import WarpPipe.Handlers
import WarpPipe.Windows
import WarpPipe.Trace
import WarpPipe.Registrations
import WarpPipe.Transactions
import WarpPipe.ClientRuns
import WarpPipe.Invocations
import WarpPipe.CompletionData
import WarpPipe.BarDecoding
import WarpPipe.SentRequests
import WarpPipe.BarLifetime
import WarpPipe.HeapContents
import WarpPipe.Slots
import WarpPipe.Library.SlotTable
import WarpPipe.ReadTags
import WarpPipe.ReadRuns
import WarpPipe.Pipelining
import WarpPipe.NestedReads
import WarpPipe.FailedReads
import WarpPipe.Framing
import WarpPipe.Segmentation
import WarpPipe.LinkLayer
import WarpPipe.BrokenSend
import WarpPipe.Library.Exchange
import WarpPipe.Turns
import WarpPipe.Duplex
import WarpPipe.Matching
import WarpPipe.MemoryMockCore
import WarpPipe.MemoryMock
import WarpPipe.MemoryRuns
import WarpPipe.MemoryRefinement
import WarpPipe.Library.Keyed
import WarpPipe.ServerCore
import WarpPipe.Server
import WarpPipe.ServerRuns
import WarpPipe.FailedAccepts
import WarpPipe.Shutdown
import WarpPipe.MockConfigCore
import WarpPipe.ConfigAccess
import WarpPipe.Isolation
import WarpPipe.EnumerateCore
import WarpPipe.DirectAccess
import WarpPipe.Enumeration
import WarpPipe.Library.ByteMemory
import WarpPipe.DmaCore
import WarpPipe.DmaChannels
import WarpPipe.Library.LinkChain
import WarpPipe.DmaStart
import WarpPipe.DmaTransfer
import WarpPipe.DmaCalls
import WarpPipe.Library.Strtoul
import WarpPipe.Library.FieldTable
import WarpPipe.YamlCore
import WarpPipe.YamlReading
import WarpPipe.YamlFlat
import WarpPipe.YamlRanges
import WarpPipe.YamlDocuments
import WarpPipe.HostPrograms
import WarpPipe.HubTurns
import WarpPipe.Hub
import WarpPipe.SharedMemory
import WarpPipe.StateView
import WarpPipe.LoopMachine
import WarpPipe.SoleHost
import WarpPipe.Upkeep
import WarpPipe.MockMainCore
import WarpPipe.MockIntegrity
import WarpPipe.ConfiguredMock
import WarpPipe.DmaChain
import WarpPipe.DmaLink
