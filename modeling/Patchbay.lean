import Patchbay.Binding
import Patchbay.CommandLine
import Patchbay.Descriptor
import Patchbay.Directive
import Patchbay.Emit
import Patchbay.Engine.Behaviour
import Patchbay.Engine.Command
import Patchbay.Engine.Connecting
import Patchbay.Engine.Deliveries
import Patchbay.Engine.Listeners
import Patchbay.Engine.Negotiation
import Patchbay.Engine.Run
import Patchbay.Engine.Sessions
import Patchbay.Engine.Step
import Patchbay.Engine.Task
import Patchbay.Engine.Trace
import Patchbay.Engine.Transport
import Patchbay.Engine.Wiring
import Patchbay.Engine.World
import Patchbay.Failure
import Patchbay.Fields
import Patchbay.Ident
import Patchbay.Json.Basic
import Patchbay.Json.Double
import Patchbay.Json.Number
import Patchbay.Json.Parser
import Patchbay.Json.Printer
import Patchbay.Json.Shortest
import Patchbay.LogFilter
import Patchbay.Main
import Patchbay.Proofs.Answers.Awaited
import Patchbay.Proofs.Answers.Correlation
import Patchbay.Proofs.Directive.Cuts
import Patchbay.Proofs.Directive.Grammar
import Patchbay.Proofs.Directive.Spaced
import Patchbay.Proofs.Emit.Account
import Patchbay.Proofs.Emit.Ack
import Patchbay.Proofs.Emit.EmitterCall
import Patchbay.Proofs.Emit.Result
import Patchbay.Proofs.Emit.Seen
import Patchbay.Proofs.Emit.Settlement
import Patchbay.Proofs.Emit.Stage
import Patchbay.Proofs.Emit.Writes
import Patchbay.Proofs.EmitBack.ExactlyOnce
import Patchbay.Proofs.EmitBack.Ledger
import Patchbay.Proofs.EmitBack.OnePerScope
import Patchbay.Proofs.EmitBack.Tended
import Patchbay.Proofs.Engine.Attaching
import Patchbay.Proofs.Engine.Change
import Patchbay.Proofs.Engine.Command
import Patchbay.Proofs.Engine.Connecting
import Patchbay.Proofs.Engine.Connections
import Patchbay.Proofs.Engine.Effect
import Patchbay.Proofs.Engine.Follow
import Patchbay.Proofs.Engine.Registrations
import Patchbay.Proofs.Engine.Run
import Patchbay.Proofs.Engine.Step
import Patchbay.Proofs.Engine.Tasks
import Patchbay.Proofs.Engine.Transport
import Patchbay.Proofs.Engine.Trees
import Patchbay.Proofs.Engine.Watches
import Patchbay.Proofs.Engine.Wiring
import Patchbay.Proofs.Json.Equality
import Patchbay.Proofs.Json.Ordered
import Patchbay.Proofs.Listeners.AfterTeardown
import Patchbay.Proofs.Listeners.InOrder
import Patchbay.Proofs.Listeners.Reentrant
import Patchbay.Proofs.Negotiation.Callables
import Patchbay.Proofs.Negotiation.EmitHelpers
import Patchbay.Proofs.Negotiation.HelperMessage
import Patchbay.Proofs.Negotiation.OwnValues
import Patchbay.Proofs.Negotiation.Publication
import Patchbay.Proofs.Negotiation.ServerApi
import Patchbay.Proofs.Registry.History
import Patchbay.Proofs.Sessions.Actions
import Patchbay.Proofs.Sessions.Attached
import Patchbay.Proofs.Sessions.Causes
import Patchbay.Proofs.Sessions.Charges
import Patchbay.Proofs.Sessions.Closing
import Patchbay.Proofs.Sessions.Endpoint
import Patchbay.Proofs.Sessions.FailedConnect
import Patchbay.Proofs.Sessions.Holders
import Patchbay.Proofs.Sessions.Inert
import Patchbay.Proofs.Sessions.Isolation
import Patchbay.Proofs.Sessions.Kept
import Patchbay.Proofs.Sessions.Labels
import Patchbay.Proofs.Sessions.Minded
import Patchbay.Proofs.Sessions.OnePerSlot
import Patchbay.Proofs.Sessions.OneScope
import Patchbay.Proofs.Sessions.Origins
import Patchbay.Proofs.Sessions.Reconnect
import Patchbay.Proofs.Sessions.Requests
import Patchbay.Proofs.Sessions.Residue
import Patchbay.Proofs.Sessions.RolledBack
import Patchbay.Proofs.Sessions.Slots
import Patchbay.Proofs.Sessions.StoreWiring
import Patchbay.Proofs.Sessions.Tidy
import Patchbay.Proofs.Sessions.Timeouts
import Patchbay.Proofs.Sessions.Undisturbed
import Patchbay.Proofs.Sessions.Waiting
import Patchbay.Proofs.Settings.Layer
import Patchbay.Proofs.Settings.Nulls
import Patchbay.Proofs.Settings.Resolve
import Patchbay.Proofs.Settings.RoundTrip
import Patchbay.Proofs.Settings.Selection
import Patchbay.Proofs.State.Defaults
import Patchbay.Proofs.State.Path
import Patchbay.Proofs.State.Watch
import Patchbay.Proofs.State.WriteLaw
import Patchbay.Proofs.Wiring.Additions
import Patchbay.Proofs.Wiring.Exact
import Patchbay.Proofs.Wiring.Reported
import Patchbay.Record
import Patchbay.Registry
import Patchbay.Report
import Patchbay.Settings.Basic
import Patchbay.Settings.Environment
import Patchbay.Settings.File
import Patchbay.Settings.Layer
import Patchbay.Settings.Resolve
import Patchbay.SocketState
import Patchbay.State.Path
import Patchbay.State.Tree
import Patchbay.Subscription
import Patchbay.Text.Blank
import Patchbay.Warning
