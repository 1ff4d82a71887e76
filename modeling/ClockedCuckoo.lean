import ClockedCuckoo.Word
import ClockedCuckoo.Violation
import ClockedCuckoo.Request
import ClockedCuckoo.LaneSet
import ClockedCuckoo.Handshake
import ClockedCuckoo.Error
import ClockedCuckoo.Event
import ClockedCuckoo.Hash.XXH64
import ClockedCuckoo.Hash.SipHash
import ClockedCuckoo.Hash.Algorithm
import ClockedCuckoo.Hash.Hasher
import ClockedCuckoo.Config
import ClockedCuckoo.Slot
import ClockedCuckoo.Bank
import ClockedCuckoo.Lane
import ClockedCuckoo.Register.InFlight
import ClockedCuckoo.Register.Sweep
import ClockedCuckoo.Register.Staging
import ClockedCuckoo.Register.Choice
import ClockedCuckoo.Register.Phase
import ClockedCuckoo.Arbiter
import ClockedCuckoo.Stats
import ClockedCuckoo.Engine.Basic
import ClockedCuckoo.Engine.Signals
import ClockedCuckoo.Engine.Cycle
import ClockedCuckoo.Backlog
import ClockedCuckoo.Frontend
import ClockedCuckoo.Proofs.LaneMembers
import ClockedCuckoo.Proofs.LaneFlags
import ClockedCuckoo.Proofs.Selection
import ClockedCuckoo.Proofs.Targets
import ClockedCuckoo.Proofs.Run
import ClockedCuckoo.Proofs.SlotView
import ClockedCuckoo.Proofs.Phases
import ClockedCuckoo.Proofs.Admission
import ClockedCuckoo.Proofs.Advance
import ClockedCuckoo.Proofs.Accounting
import ClockedCuckoo.Proofs.Move
import ClockedCuckoo.Proofs.Pipeline
import ClockedCuckoo.Proofs.Safety
import ClockedCuckoo.Proofs.Placement
import ClockedCuckoo.Proofs.Store
import ClockedCuckoo.Proofs.Refinement
import ClockedCuckoo.Proofs.Lookups
import ClockedCuckoo.Proofs.HiddenResults
import ClockedCuckoo.Proofs.Outcomes
import ClockedCuckoo.Proofs.Progress
import ClockedCuckoo.Proofs.KeptKeys
import ClockedCuckoo.Proofs.Inserting
import ClockedCuckoo.Proofs.EvictionWalk
import ClockedCuckoo.Proofs.VictimOrder
import ClockedCuckoo.Proofs.Exclusion
import ClockedCuckoo.Proofs.FrontendRun
import ClockedCuckoo.Proofs.Drain
import ClockedCuckoo.Proofs.Ports
import ClockedCuckoo.Proofs.Faults
import ClockedCuckoo.Proofs.Totals
import ClockedCuckoo.Proofs.Resume
import ClockedCuckoo.Proofs.Calls
import ClockedCuckoo.Proofs.Batch
import ClockedCuckoo.Proofs.OwnAnswer
import ClockedCuckoo.Proofs.CleanPass
import ClockedCuckoo.Proofs.Backpressure
import ClockedCuckoo.Proofs.BusyEngine
import ClockedCuckoo.Proofs.Ledger
import ClockedCuckoo.Proofs.Twins
import ClockedCuckoo.Proofs.AbsentDelete
import ClockedCuckoo.Proofs.Latency
import ClockedCuckoo.Proofs.Serving
import ClockedCuckoo.Proofs.Capacity
import ClockedCuckoo.Proofs.Throughput
import ClockedCuckoo.Proofs.OneRound
import ClockedCuckoo.Proofs.Widths
import ClockedCuckoo.Proofs.BankContract
import ClockedCuckoo.Proofs.Exposition
import ClockedCuckoo.Proofs.IndexWidth
