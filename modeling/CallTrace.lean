import CallTrace.Counters.Reporter
import CallTrace.Main
import CallTrace.Proofs.Pipeline.RecordLimit
import CallTrace.Proofs.Pipeline.Refinement
import CallTrace.Proofs.Reduction.BestEffort
import CallTrace.Proofs.Reduction.Idempotence
import CallTrace.Proofs.Reduction.Iterations
import CallTrace.Proofs.Reduction.Reordering
import CallTrace.Proofs.Window.ArrivalOrder
import CallTrace.Proofs.Window.Conservation
import CallTrace.Proofs.Window.Emission
import CallTrace.Proofs.Window.Fates
import CallTrace.Proofs.Window.Homogeneity
import CallTrace.Proofs.Window.Isolation
import CallTrace.Proofs.Window.SizeLimit
import CallTrace.Proofs.Window.Watermark
import CallTrace.Record.Trace
import CallTrace.Proofs.Pipeline.History
import CallTrace.Proofs.Reduction.RoundTrip
import CallTrace.Proofs.Record.RoundTrip
import CallTrace.Proofs.Ingress.Skipping
import CallTrace.Proofs.Pipeline.Requests
import CallTrace.Proofs.Pipeline.SingleSave
import CallTrace.Proofs.Pipeline.Agreement
import CallTrace.Proofs.Pipeline.Shutdown
import CallTrace.Proofs.Pipeline.SaveFailures
import CallTrace.Proofs.Pipeline.Barrier
import CallTrace.Proofs.Store.History
import CallTrace.Proofs.Reduction.Grouping
import CallTrace.Proofs.Reduction.Top
import CallTrace.Proofs.Tree.ReadOff
import CallTrace.Proofs.Tree.Verdict
import CallTrace.Proofs.Digest.Identity
import CallTrace.Proofs.Json.Acceptance
import CallTrace.Proofs.Record.Members
import CallTrace.Proofs.Pipeline.LateInBatch
import CallTrace.Proofs.Pipeline.StreamWatermark
import CallTrace.Proofs.Counters.Ticks
import CallTrace.Proofs.Settings.Environment
import CallTrace.Proofs.Store.Cloning
import CallTrace.Proofs.Window.Arithmetic
import CallTrace.Proofs.Tree.Search
import CallTrace.Proofs.Tree.Attachments
import CallTrace.Proofs.Tree.BreadthFirst
