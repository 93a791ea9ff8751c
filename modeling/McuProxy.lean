import McuProxy.Math.BigEndian
import McuProxy.Math.CSemantics
import McuProxy.Math.Armv7
import McuProxy.Math.Machine
import McuProxy.Math.Reading
import McuProxy.Math.Editing
import McuProxy.Math.StableInsert
import McuProxy.Math.DeltaList
import McuProxy.Math.LimitedMap
import McuProxy.Math.SizeOrder
import McuProxy.Math.CString
import McuProxy.Math.Playback
import McuProxy.Memory.Word
import McuProxy.Memory.Ring
import McuProxy.Memory.Blocks
import McuProxy.Memory.Accounts
import McuProxy.Memory.BlockHeap
import McuProxy.Memory.Chain
import McuProxy.Memory.Strings
import McuProxy.Conf.MixFunc
import McuProxy.Conf.MixAssembly
import McuProxy.Conf.AudioConfMix
import McuProxy.Conf.Membership
import McuProxy.Conf.Round
import McuProxy.Conf.RoundAccess
import McuProxy.Conf.VideoConfMix
import McuProxy.Conf.VideoRound
import McuProxy.Conf.WaitingRoom
import McuProxy.Conf.RoomPacing
import McuProxy.Conf.CompoundMix
import McuProxy.Time.Timeval
import McuProxy.Time.Deadline
import McuProxy.Net.TimedEventQ
import McuProxy.Net.TimerRun
import McuProxy.Net.Cancellation
import McuProxy.Net.TokenRun
import McuProxy.Net.PollTimeout
import McuProxy.Net.WakePipe
import McuProxy.Ckits.TimeList
import McuProxy.Ckits.TimeListRun
import McuProxy.Ckits.TimeListWord
import McuProxy.Ckits.EpTimeout
import McuProxy.Ckits.ShmAlloc
import McuProxy.Ckits.ShmHeap
import McuProxy.Ckits.ShmOps
import McuProxy.Ckits.ShmCalls
import McuProxy.Ckits.ShmRun
import McuProxy.Ckits.ShmRefs
import McuProxy.Ckits.ShmFresh
import McuProxy.Ckits.MyAlloc
import McuProxy.Ckits.PoolOps
import McuProxy.Ckits.PoolRun
import McuProxy.Ckits.PoolBounds
import McuProxy.Ckits.PoolOrder
import McuProxy.Ckits.SlotAlloc
import McuProxy.Ckits.SlotRun
import McuProxy.Ckits.EpCore
import McuProxy.Ckits.EpCoreRun
import McuProxy.Ckits.EpCoreQueue
import McuProxy.Ckits.HashTable
import McuProxy.Ckits.HashTableRun
import McuProxy.Ckits.IoStream
import McuProxy.Ckits.IoPosition
import McuProxy.System.RefBase
import McuProxy.System.RefCounts
import McuProxy.System.RefOperations
import McuProxy.Meta.TokenPool
import McuProxy.Meta.MetaStore
import McuProxy.Net.MetaBuffer
import McuProxy.Net.RtpTransport
import McuProxy.Net.SendStatistics
import McuProxy.Net.Rtcp
import McuProxy.Net.ReportBytes
import McuProxy.Net.WallClock
import McuProxy.Net.RtcpGrammar
import McuProxy.Net.RtpFormat
import McuProxy.Net.RtcpReads
import McuProxy.Net.UdpReceive
import McuProxy.Net.RtpReceive
import McuProxy.Net.RtcpReceive
import McuProxy.Net.StunResponse
import McuProxy.Net.StunAttributes
import McuProxy.Net.Holder
import McuProxy.Net.HolderShape
import McuProxy.Net.HolderRun
import McuProxy.Net.Sender
import McuProxy.Net.Network
import McuProxy.Net.Registration
import McuProxy.Net.Descriptors
import McuProxy.Net.PassiveClose
import McuProxy.Net.Dispatch
import McuProxy.Net.Delivery
import McuProxy.Net.HolderLock
import McuProxy.Tone.GenTone
import McuProxy.Tone.Voice
import McuProxy.Tone.ToneGene
import McuProxy.Tone.ToneScript
import McuProxy.Tone.Replay
import McuProxy.Json.Accept
import McuProxy.Json.RoundTrip
