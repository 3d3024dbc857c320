import LiveTypes.Config
import LiveTypes.Diagnostic.Basic
import LiveTypes.Diagnostic.Code
import LiveTypes.Diagnostic.Render
import LiveTypes.Diagnostic.Severity
import LiveTypes.Engine.Host
import LiveTypes.Engine.Keeping
import LiveTypes.Engine.Log
import LiveTypes.Engine.Run
import LiveTypes.Engine.State
import LiveTypes.Engine.Step
import LiveTypes.Exchange
import LiveTypes.Inference
import LiveTypes.Json.Basic
import LiveTypes.Json.Fields
import LiveTypes.Json.Limits
import LiveTypes.Json.Reader
import LiveTypes.Json.Writer
import LiveTypes.Node
import LiveTypes.Problem.Basic
import LiveTypes.Problem.Record
import LiveTypes.Proofs.Accounts
import LiveTypes.Proofs.Additions
import LiveTypes.Proofs.Agreement
import LiveTypes.Proofs.Alternation
import LiveTypes.Proofs.Arrivals
import LiveTypes.Proofs.Assignability
import LiveTypes.Proofs.Attendance
import LiveTypes.Proofs.Bystanders
import LiveTypes.Proofs.Chains
import LiveTypes.Proofs.Checks
import LiveTypes.Proofs.Coherence
import LiveTypes.Proofs.Courses
import LiveTypes.Proofs.Deconstruction
import LiveTypes.Proofs.Departures
import LiveTypes.Proofs.Detours
import LiveTypes.Proofs.Discretion
import LiveTypes.Proofs.Edges
import LiveTypes.Proofs.Evaluation
import LiveTypes.Proofs.FinalHandles
import LiveTypes.Proofs.Furnishing
import LiveTypes.Proofs.GraphWork
import LiveTypes.Proofs.Ground
import LiveTypes.Proofs.Growth
import LiveTypes.Proofs.Hops
import LiveTypes.Proofs.Moves
import LiveTypes.Proofs.Notes
import LiveTypes.Proofs.Numbering
import LiveTypes.Proofs.Origins
import LiveTypes.Proofs.Outlines
import LiveTypes.Proofs.Overtaking
import LiveTypes.Proofs.Ownership
import LiveTypes.Proofs.Plain
import LiveTypes.Proofs.Positions
import LiveTypes.Proofs.Pruning
import LiveTypes.Proofs.Queues
import LiveTypes.Proofs.Quiet
import LiveTypes.Proofs.Ranking
import LiveTypes.Proofs.Records
import LiveTypes.Proofs.ReferenceWork
import LiveTypes.Proofs.References
import LiveTypes.Proofs.Registrations
import LiveTypes.Proofs.Registry
import LiveTypes.Proofs.Removal
import LiveTypes.Proofs.Restarts
import LiveTypes.Proofs.Retries
import LiveTypes.Proofs.RoundTrip
import LiveTypes.Proofs.RoundWork
import LiveTypes.Proofs.Rounds
import LiveTypes.Proofs.RuleLedger
import LiveTypes.Proofs.RuleWork
import LiveTypes.Proofs.Selections
import LiveTypes.Proofs.Settings
import LiveTypes.Proofs.Sources
import LiveTypes.Proofs.Subscriptions
import LiveTypes.Proofs.Termination
import LiveTypes.Proofs.Tidings
import LiveTypes.Proofs.Transitions
import LiveTypes.Proofs.TypeGraph
import LiveTypes.Registry
import LiveTypes.Relation
import LiveTypes.Selector
import LiveTypes.Session.Answer
import LiveTypes.Session.Existence
import LiveTypes.Session.Respond
import LiveTypes.Session.Run
import LiveTypes.Session.Script
import LiveTypes.Session.Selector
import LiveTypes.Session.State
import LiveTypes.Session.Steps.Graph
import LiveTypes.Session.Steps.Reference
import LiveTypes.Session.Steps.Validation
import LiveTypes.Span
import LiveTypes.Table
import LiveTypes.Text.Lines
import LiveTypes.Text.Quoted
import LiveTypes.Text.Unprintable
import LiveTypes.Text.Uppercase
import LiveTypes.TypeGraph.Assignable
import LiveTypes.TypeGraph.Basic
import LiveTypes.TypeGraph.Ty
