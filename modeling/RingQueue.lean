import RingQueue.Json.Reader
import RingQueue.Config
import RingQueue.Status
import RingQueue.Batch
import RingQueue.Effect
import RingQueue.Entry
import RingQueue.Ring.Basic
import RingQueue.Config.Binary
import RingQueue.Config.Document
import RingQueue.Ring.Timed
import RingQueue.Ring.Words
import RingQueue.PolicyQueue
import RingQueue.Protocol.Scenario
import RingQueue.Session.Step
import RingQueue.Session.Run
import RingQueue.Tracing
import RingQueue.Proofs.Ring.Front
import RingQueue.Proofs.Ring.Calls
import RingQueue.Proofs.Ring.Fifo
import RingQueue.Proofs.Ring.Words
import RingQueue.Proofs.Ring.Whole
import RingQueue.Proofs.Ring.Refinement
import RingQueue.Proofs.Protocol.Stage
import RingQueue.Proofs.Protocol.Tally
import RingQueue.Proofs.Protocol.Cursors
import RingQueue.Proofs.Protocol.Invariant
import RingQueue.Proofs.Protocol.Ownership
import RingQueue.Proofs.Protocol.Threads
import RingQueue.Proofs.Protocol.Waits
import RingQueue.Proofs.Protocol.Accounts
import RingQueue.Proofs.Protocol.Fates
import RingQueue.Proofs.Protocol.ExactlyOnce
import RingQueue.Proofs.Protocol.HandOver
import RingQueue.Proofs.Ring.Admissions
import RingQueue.Proofs.Ring.Endings
import RingQueue.Proofs.Ring.Conservation
import RingQueue.Proofs.Ring.Logs
import RingQueue.Proofs.Ring.Blocks
import RingQueue.Proofs.Protocol.Refusals
import RingQueue.Proofs.Session.Keys
import RingQueue.Proofs.Session.Soundness
import RingQueue.Proofs.Session.Ledger
import RingQueue.Proofs.Session.Balance
import RingQueue.Proofs.Session.Pushes
import RingQueue.Proofs.Session.Clones
import RingQueue.Proofs.Session.Conservation
import RingQueue.Proofs.Session.SoleQueue
import RingQueue.Proofs.Session.PolicyTurns
import RingQueue.Proofs.Session.PolicyStream
import RingQueue.Proofs.Session.PolicyLaw
import RingQueue.Proofs.Session.Histories
import RingQueue.Proofs.Session.Spared
import RingQueue.Proofs.Session.Calls
import RingQueue.Proofs.Session.Accounts
import RingQueue.Proofs.Session.Lives
import RingQueue.Proofs.Session.Allocations
import RingQueue.Proofs.Session.Trace
import RingQueue.Proofs.Session.Echoes
import RingQueue.Proofs.Session.Handles
import RingQueue.Proofs.Session.Unsplit
import RingQueue.Proofs.Session.Mirrors
import RingQueue.Proofs.Session.SplitHandles
import RingQueue.Proofs.Varint
import RingQueue.Proofs.Config.Binary
import RingQueue.Proofs.Protocol.Alike
import RingQueue.Proofs.Session.Reachable
import RingQueue.Proofs.Ring.Alike
import RingQueue.Proofs.Session.Alike
import RingQueue.Proofs.Ring.Rebuilding
import RingQueue.Proofs.Session.Rebuilding
import RingQueue.Proofs.Session.Frames
import RingQueue.Proofs.Ring.Copies
import RingQueue.Proofs.Session.Copies
import RingQueue.Proofs.Ring.Constructors
import RingQueue.Proofs.Session.Constructors
import RingQueue.Proofs.Session.Fronts
import RingQueue.Proofs.Ring.Timed
import RingQueue.Proofs.Ring.Clearing
import RingQueue.Proofs.Session.Clearing
import RingQueue.Proofs.Session.Filling
import RingQueue.Proofs.Session.Deadlines
import RingQueue.Ring.Storage
import RingQueue.Ring.Checked
import RingQueue.Ring.Runs
import RingQueue.Proofs.Config.Document
import RingQueue.Proofs.Config.Construction
import RingQueue.Proofs.Ring.Storage
import RingQueue.Proofs.Ring.Resting
import RingQueue.Proofs.Ring.Checked
import RingQueue.Proofs.Ring.Runs
