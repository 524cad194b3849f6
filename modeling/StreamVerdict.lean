import StreamVerdict.Body.Creation
import StreamVerdict.Body.Draft
import StreamVerdict.Body.Store
import StreamVerdict.CallGraph.Library
import StreamVerdict.CallGraph.Matching
import StreamVerdict.Data.OrdSet
import StreamVerdict.Data.Reach
import StreamVerdict.Data.Text
import StreamVerdict.Hierarchy.Dispatch
import StreamVerdict.Json.Parser
import StreamVerdict.Json.Printer
import StreamVerdict.Json.Wire
import StreamVerdict.Source.CreationSite
import StreamVerdict.StaticType.Inference
import StreamVerdict.Typestate.Solver
import StreamVerdict.Ordering.Inference
import StreamVerdict.Yaml.Parser
import StreamVerdict.Settings.Document
import StreamVerdict.Wire.Body
import StreamVerdict.Wire.CallGraph
import StreamVerdict.Wire.Overview
import StreamVerdict.Proofs.Data.OrdSet
import StreamVerdict.Proofs.Data.Order
import StreamVerdict.Proofs.CallGraph.PointsTo
import StreamVerdict.Proofs.Data.Worklist
import StreamVerdict.Proofs.CallGraph.Graph
import StreamVerdict.Proofs.Data.Fold
import StreamVerdict.Proofs.CallGraph.Growth
import StreamVerdict.Proofs.CallGraph.Closure
import StreamVerdict.Proofs.CallGraph.Seeding
import StreamVerdict.Proofs.CallGraph.FlowClosure
import StreamVerdict.Proofs.Body.Draft
import StreamVerdict.Proofs.CallGraph.ReturnFlow
import StreamVerdict.Proofs.Typestate.Protocol
import StreamVerdict.Proofs.Typestate.Visits
import StreamVerdict.Proofs.Typestate.Moves
import StreamVerdict.Proofs.Typestate.Solved
import StreamVerdict.Proofs.Typestate.Runs
import StreamVerdict.Proofs.Typestate.Termination
import StreamVerdict.Proofs.Typestate.LeastSolution
import StreamVerdict.Proofs.CallGraph.Derivation
import StreamVerdict.Proofs.CallGraph.Grounded
import StreamVerdict.Proofs.CallGraph.Extent
import StreamVerdict.Proofs.CallGraph.CallStrings
import StreamVerdict.Proofs.CallGraph.Receivers
import StreamVerdict.Proofs.CallGraph.Termination
import StreamVerdict.Proofs.CallGraph.Matching
import StreamVerdict.Proofs.Typestate.Lifecycle
import StreamVerdict.Proofs.Typestate.Events
import StreamVerdict.Proofs.Typestate.Threshold
import StreamVerdict.Proofs.CallGraph.Determinacy
import StreamVerdict.Proofs.Verdict.Consistency
import StreamVerdict.Proofs.Cache.Faithful
import StreamVerdict.Proofs.Verdict.Transparency
import StreamVerdict.Proofs.Data.Metering
import StreamVerdict.Proofs.Verdict.Cancellation
import StreamVerdict.Proofs.Probe.Custody
import StreamVerdict.Proofs.Probe.Release
import StreamVerdict.Proofs.Cache.History
import StreamVerdict.Proofs.Cache.Memo
import StreamVerdict.Proofs.Json.Spelling
import StreamVerdict.Proofs.Json.RoundTrip
import StreamVerdict.Proofs.Wire.Lawful
import StreamVerdict.Proofs.Wire.Report
import StreamVerdict.Proofs.Data.Reach
import StreamVerdict.Proofs.Hierarchy.Subtyping
import StreamVerdict.Proofs.Hierarchy.Selection
import StreamVerdict.Proofs.Hierarchy.Acceptance
import StreamVerdict.Proofs.Hierarchy.Descent
import StreamVerdict.Proofs.Wire.Codec
import StreamVerdict.Proofs.Wire.Body
import StreamVerdict.Proofs.Body.SingleAssignment
import StreamVerdict.Proofs.Body.Acceptance
import StreamVerdict.Proofs.StaticType.Sources
import StreamVerdict.Proofs.Ordering.Agreement
import StreamVerdict.Proofs.Probe.Descriptor
import StreamVerdict.Proofs.Verdict.Representatives
import StreamVerdict.Proofs.Settings.Overrides
import StreamVerdict.Proofs.Yaml.Lines
import StreamVerdict.Proofs.Settings.RoundTrip
import StreamVerdict.Proofs.Jvm.RoundTrip
import StreamVerdict.Proofs.Jvm.Selector
import StreamVerdict.Proofs.CallGraph.Library
import StreamVerdict.Proofs.CallGraph.Representation
