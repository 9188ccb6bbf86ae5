import TickBatch.Lib.Transition
import TickBatch.Lib.TicketInvariant
import TickBatch.Lib.Words
import TickBatch.Lib.Bytes
import TickBatch.Lib.Crc
import TickBatch.Lib.CrcErrors
import TickBatch.Lib.Framing
import TickBatch.Lib.QueueHistory
import TickBatch.Lib.Logged
import TickBatch.Ring.Basic
import TickBatch.Ring.Machine
import TickBatch.Ring.Fifo
import TickBatch.Ring.Sequential
import TickBatch.Ring.Eviction
import TickBatch.Ring.Quiescent
import TickBatch.Ring.Verdicts
import TickBatch.Ring.Depth
import TickBatch.Ring.Inversion
import TickBatch.Ring.LockFree
import TickBatch.Ring.Atomic
import TickBatch.Ring.Counters
import TickBatch.Wire.Codec
import TickBatch.Wire.Detection
import TickBatch.Wire.Encode
import TickBatch.Wire.Access
import TickBatch.Engine.Config
import TickBatch.Engine.Drain
import TickBatch.Engine.Assemble
import TickBatch.Engine.Header
import TickBatch.Engine.Capacity
import TickBatch.Engine.Stream
import TickBatch.Engine.Idle
import TickBatch.Engine.Shutdown
import TickBatch.Engine.Ledger
import TickBatch.Engine.Outcome
import TickBatch.Engine.Accounting
import TickBatch.Engine.RawFrames
import TickBatch.Engine.Progress
import TickBatch.Engine.Cadence
import TickBatch.Engine.Machine
import TickBatch.Engine.Flights
import TickBatch.Engine.Sequential
import TickBatch.Engine.Delivery
import TickBatch.Engine.Liveness
import TickBatch.Engine.Ticker
import TickBatch.Engine.ErrorLog
import TickBatch.Wire.TcpSink
import TickBatch.Delta.Resync
import TickBatch.Delta.RoundTrip
import TickBatch.Delta.Staleness
import TickBatch.Delta.Timeouts
import TickBatch.Delta.Receiver
import TickBatch.Delta.Recovery
import TickBatch.Wire.EndToEnd
import TickBatch.Wire.UdpSink
import TickBatch.Wire.CopySink
