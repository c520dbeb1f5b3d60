import Redic.Foundation.TimedMap
import Redic.Foundation.HostWord
import Redic.Foundation.DecimalText
import Redic.Foundation.SignedDecimal
import Redic.Foundation.Int64Range
import Redic.Foundation.RecordStream
import Redic.Foundation.RecordFormat
import Redic.Foundation.ProbeWindow
import Redic.Foundation.EventRun
import Redic.Foundation.AppendLog
import Redic.Foundation.ArenaHeap
import Redic.Foundation.CyclicCheck
import Redic.Foundation.BufferedFile
import Redic.Foundation.ByteBuffer
import Redic.Foundation.ByteBlock
import Redic.Foundation.SwapForward
import Redic.Data
import Redic.ParseInt64
import Redic.Arena
import Redic.ArenaRun
import Redic.Hector
import Redic.Hashmap.Hash
import Redic.Hashmap.Crc
import Redic.Hashmap.Hashmap
import Redic.Hashmap.Invariant
import Redic.Hashmap.Rehash
import Redic.Hashmap.Preserves
import Redic.Hashmap.Contract
import Redic.Hashmap.Ownership
import Redic.Hashmap.Chain
import Redic.Hashmap.Termination
import Redic.Hashmap.Denied
import Redic.SepticTank.KeyStore
import Redic.Hashmap.Store
import Redic.SepticTank.Operation
import Redic.SepticTank.Resolve
import Redic.SepticTank.Outcome
import Redic.SepticTank.Digest
import Redic.SepticTank.LazyExpiry
import Redic.SepticTank.Existence
import Redic.SepticTank.Replay
import Redic.SepticTank.SetExpiry
import Redic.SepticTank.SetContract
import Redic.SepticTank.ExpireContract
import Redic.SepticTank.Counter
import Redic.SepticTank.ResponseArena
import Redic.SepticTank.Handoff
import Redic.SepticTank.HandoffRun
import Redic.SepticTank.HandoffValue
import Redic.Potty.Serializer
import Redic.Potty.Parser
import Redic.Potty.Format
import Redic.Potty.Trainer
import Redic.Potty.Pipeline
import Redic.Potty.Progress
import Redic.Potty.Thread
import Redic.Potty.Flusher
import Redic.Sewer.Ring
import Redic.Sewer.RingBytes
import Redic.Sewer.Sewer
import Redic.SepticTank.Feed
import Redic.SepticTank.FeedOrder
import Redic.SepticTank.FeedSteps
import Redic.SepticTank.FeedProgress
import Redic.SepticTank.Linearizable
import Redic.Resp.Value
import Redic.Resp.Serializer
import Redic.Resp.Parser
import Redic.Resp.Frame
import Redic.Resp.FrameSize
import Redic.Resp.Settle
import Redic.Resp.Grammar
import Redic.Resp.RoundTrip
import Redic.Resp.Reached
import Redic.Resp.Sizes
import Redic.Resp.Accepts
import Redic.Resp.ClientSocket
import Redic.Command.Definition
import Redic.Command.ArgParser
import Redic.Command.ArgWindow
import Redic.Command.ArgShape
import Redic.Command.ArgConsumption
import Redic.Command.SetArguments
import Redic.Command.SetCommand
import Redic.Command.SetAdjacency
import Redic.Command.SetExpiryOperand
import Redic.Command.Handlers
import Redic.Command.SetHandler
import Redic.Command.Deadline
import Redic.Command.Effect
import Redic.Command.FailedStore
import Redic.Command.Decrement
import Redic.Command.Expire
import Redic.Command.Call
import Redic.Command.Plan
import Redic.Cli
import Redic.CliOrder
import Redic.Server
import Redic.ReplySize
import Redic.RoundSafety
import Redic.Threads
import Redic.Serial
import Redic.Recovery.Session
import Redic.Recovery.Host
import Redic.Recovery.HostInv
import Redic.Recovery.Survival
import Redic.Recovery.Drain
import Redic.Potty.ThreadInv
