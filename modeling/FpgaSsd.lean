import FpgaSsd.Lib.Program
import FpgaSsd.Lib.Bytes
import FpgaSsd.Lib.Bitmap
import FpgaSsd.Lib.Tiling
import FpgaSsd.Driver.Types
import FpgaSsd.Driver.Space
import FpgaSsd.Driver.Device
import FpgaSsd.Driver.Requests
import FpgaSsd.Driver.Flush
import FpgaSsd.Api.Library
import FpgaSsd.Theory.Alone
import FpgaSsd.Theory.Partition
import FpgaSsd.Lib.Typestate
import FpgaSsd.Theory.Discipline
import FpgaSsd.Lib.Pool
import FpgaSsd.Theory.Exclusive
import FpgaSsd.Driver.Completion
import FpgaSsd.Theory.Attribution
import FpgaSsd.Theory.View
import FpgaSsd.Theory.Reserve
import FpgaSsd.Theory.Search
import FpgaSsd.Theory.TableBlocks
import FpgaSsd.Theory.MetaArea
import FpgaSsd.Theory.Image
import FpgaSsd.Theory.Durable
import FpgaSsd.Theory.FlushRun
import FpgaSsd.Lib.Projection
import FpgaSsd.Theory.Globals
import FpgaSsd.Theory.Regions
import FpgaSsd.Theory.Snapshot
import FpgaSsd.Theory.Copies
import FpgaSsd.Lib.History
import FpgaSsd.Theory.Wear
import FpgaSsd.Lib.Trace
import FpgaSsd.Theory.Table
import FpgaSsd.Api.Process
import FpgaSsd.Lib.Machine
import FpgaSsd.Theory.Sessions
import FpgaSsd.Theory.Effects
import FpgaSsd.Theory.Capacity
import FpgaSsd.Theory.Alignment
import FpgaSsd.Lib.Twin
import FpgaSsd.Theory.ReadBounds
import FpgaSsd.Driver.Interrupt
import FpgaSsd.Theory.Decoding
import FpgaSsd.Theory.NoTrace
import FpgaSsd.Theory.MarkBad
import FpgaSsd.Lib.Renewal
import FpgaSsd.Theory.Programmed
import FpgaSsd.Theory.ReadFlush
import FpgaSsd.Theory.Firmware
import FpgaSsd.Api.Tables
import FpgaSsd.Theory.ChannelRange
import FpgaSsd.Api.Ftw
import FpgaSsd.Theory.DirectoryWalk
import FpgaSsd.Api.BhpLib
import FpgaSsd.Theory.Checksum
import FpgaSsd.Theory.WriteCheck
import FpgaSsd.Api.Util
import FpgaSsd.Theory.IdleSpace
import FpgaSsd.Tools.SsdRecover
import FpgaSsd.Theory.Recovery
import FpgaSsd.Lib.Overlay
import FpgaSsd.Theory.Collect
import FpgaSsd.Theory.Mcs
import FpgaSsd.Theory.Payload
import FpgaSsd.Lib.Dues
import FpgaSsd.Theory.FreeCount
import FpgaSsd.Theory.CorruptRecord
import FpgaSsd.Tools.SsdIdToChannel
import FpgaSsd.Theory.Spread
import FpgaSsd.Theory.CommandWord
import FpgaSsd.Theory.Names
import FpgaSsd.Theory.Rates
import FpgaSsd.Theory.FailedBits
import FpgaSsd.Lib.Writes
import FpgaSsd.Tools.SsdMarkEraseCount
import FpgaSsd.Theory.EraseImport
import FpgaSsd.Lib.Fence
import FpgaSsd.Theory.FlushBounds
import FpgaSsd.Theory.Contents
import FpgaSsd.Theory.Store
import FpgaSsd.Theory.Format
import FpgaSsd.Theory.Reopen
import FpgaSsd.Theory.Crash
import FpgaSsd.Theory.Reuse
import FpgaSsd.Theory.CutSearch
import FpgaSsd.Theory.Unclean
import FpgaSsd.Theory.Wrap
import FpgaSsd.Theory.Lifetime
import FpgaSsd.Theory.Clients
import FpgaSsd.Theory.Course
import FpgaSsd.Theory.Moments
