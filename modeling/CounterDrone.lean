import CounterDrone.Lib.Bytes
import CounterDrone.Lib.Circular
import CounterDrone.Lib.Scanner
import CounterDrone.Telemetry
import CounterDrone.RingBuffer
import CounterDrone.Packet
import CounterDrone.StreamingParser
import CounterDrone.FrameScan
import CounterDrone.Simulation
import CounterDrone.Isolation
import CounterDrone.Encoder
import CounterDrone.Resync
import CounterDrone.Recovery
import CounterDrone.Lib.Reach
import CounterDrone.Listener
import CounterDrone.Framing
import CounterDrone.Draining
import CounterDrone.BusinessLogic
import CounterDrone.Pipeline
import CounterDrone.Lib.Refine
import CounterDrone.RingFifo
import CounterDrone.Accounting
import CounterDrone.Ownership
import CounterDrone.Payload
import CounterDrone.Lib.Tally
import CounterDrone.Linearization
import CounterDrone.AsyncLogger
import CounterDrone.Wakeups
import CounterDrone.Lib.BitPoly
import CounterDrone.Lib.ErrorPatterns
import CounterDrone.Checksum
import CounterDrone.ErrorDetection
import CounterDrone.Lib.Turns
import CounterDrone.Termination
import CounterDrone.Lifetime
import CounterDrone.Server
import CounterDrone.Delivery
import CounterDrone.Lib.Fair
import CounterDrone.Progress
import CounterDrone.ServerLog
import CounterDrone.Waking
import CounterDrone.Liveness
import CounterDrone.Shutdown
import CounterDrone.EdgeTriggered
import CounterDrone.QueueLiveness
import CounterDrone.Summary
import CounterDrone.Work
