import Patchbay.Directive
import Patchbay.Emit
import Patchbay.Engine.Behaviour
import Patchbay.Engine.Listeners
import Patchbay.Registry
import Patchbay.Settings.Resolve
import Patchbay.Subscription

/-!
Tasks of the engine as data. A job is what a task does next, with all it has to
remember; a task that waits is parked with the signals that wake it. Nothing here runs.
-/

namespace Patchbay

/-- Cancels everything that was started under it. -/
abbrev Token := Nat

/-- A place for one answer, from whoever was asked to whoever waits. -/
abbrev CellId := Nat

inductive Cell where
  | empty
  | answered (v : Json)
  /-- No answer will come. -/
  | abandoned

/-- A connection as emitters see it: where to send, under which scope errors are kept,
and how long to wait when a request does not say. -/
structure Channel where
  connection : Nat
  scope : String
  timeout : Option Nat
deriving DecidableEq

structure Hook where
  owner : ComponentId
  handler : String
deriving DecidableEq

structure Hooks where
  pre : Option Hook := none
  post : Option Hook := none

/-- One emit under way. -/
structure EmitRun where
  channel : Channel
  event : String
  msg : Option Json
  /-- Wins over the channel's timeout. -/
  timeout : Option Nat := none
  noAck : Bool := false
  hooks : Hooks := {}

namespace EmitRun

def payload (run : EmitRun) : Json := .ofOption run.msg

def bound (run : EmitRun) : Option Nat := run.timeout <|> run.channel.timeout

end EmitRun

/-- What the engine puts on a component for the application to call. -/
inductive Callable where
  | emitter (channel : Channel) (binding : Binding) (hooks : Hooks)
  /-- A method of the peer's API. -/
  | method (channel : Channel) (name : String)
  /-- Sends an event of the component's own API. -/
  | helper (channel : Channel) (event : String)

/-- Where a watched value lives. -/
inductive Place where
  | component (owner : ComponentId)
  | store
deriving DecidableEq

/-- Where a listener puts its payloads. -/
inductive Sink where
  | data (owner : ComponentId)
  | dispatch
  | commit

/-- A listener's worker applies the queued payloads one at a time. -/
structure Worker where
  event : String
  target : String
  sink : Sink
  hooks : Hooks
  token : Token
  queue : List Json := []
  /-- The listener that feeds the queue is still there. -/
  fed : Bool := true

/-- An attached emitBack: its watch and what it sends. -/
structure EmitBack where
  channel : Channel
  event : String
  place : Place
  watch : Nat
  validator : Option Hook
  post : Option Hook
  token : Token
  /-- Cancels this emitBack alone. -/
  own : Token
deriving DecidableEq

/-- What a listener of a connection does with a payload. -/
inductive Reaction where
  /-- Queues it for a worker. -/
  | enqueue (worker : Nat) (token : Token)
  /-- Keeps a slot of the connection status current. -/
  | status (owner : ComponentId) (path : String) (token : Token)
  /-- Writes an event of the peer's API to its places. -/
  | apiEvent (owner : ComponentId) (paths : List String) (token : Token)
  /-- Answers a call of the component's own API. -/
  | serve (hook : Hook) (token : Token)
  /-- Answers discovery. -/
  | publish (descriptor : Json)
  /-- A listener of the application. -/
  | probe (name : String) (answer : Option Json)
  /-- Hands the payload to whoever waits for the event. -/
  | await (cell : CellId)

/-- How a part of a wiring pass is undone. -/
inductive Detach where
  | listener (connection id : Nat)
  | token (token : Token)
deriving DecidableEq

/-- What a wiring pass attached. -/
structure Wired where
  bindings : List Binding := []
  skipped : List Directive.Skipped := []
  subscriptions : List (Subscription Detach) := []

def Wired.append (a b : Wired) : Wired :=
  ⟨a.bindings ++ b.bindings, a.skipped ++ b.skipped, a.subscriptions ++ b.subscriptions⟩

/-- What a wiring pass binds against. -/
structure Pass where
  channel : Channel
  owner : ComponentId
  token : Token
  warnings : Bool

/-- One component's use of one connection. -/
structure Session where
  label : String
  channel : Channel
  owner : ComponentId
  teardown : Bool
  token : Token
  subscriptions : List (Subscription Detach)

/-- The negotiated API of a peer. -/
structure ServerApi where
  channel : Channel
  owner : ComponentId
  descriptor : Descriptor

/-- What the application holds of a connection: the session of a connect, or nothing more
than the connection itself. -/
structure Handle where
  connection : Nat
  session : Option Session := none
  api : Option ServerApi := none

/-- A connect request on its way. -/
structure Connecting where
  ticket : Nat
  name : String
  resolved : Resolved
  pass : Pass
  reused : Bool
  wired : Wired

/-- Who goes on when an emit has settled. -/
inductive AfterEmit where
  | emitter (owner : ComponentId) (target : Option String) (ticket : Nat)
  | method (owner : ComponentId) (path : String) (ticket : Nat)
  | helper (ticket : Nat)
  | answer (ticket : Nat)
  | outcome (ticket : Nat)
  | change (back : EmitBack)
  | discovery (connecting : Connecting)

/-- Who goes on when a handler has returned. -/
inductive AfterHook where
  | gate (run : EmitRun) (after : AfterEmit)
  | settled (result : Except EmitError EmitOutcome) (after : AfterEmit)
  | validated (back : EmitBack) (msg : Json)
  | admitted (worker : Nat) (payload : Json)
  | applied (worker : Nat)
  | served (ack : Option CellId)

/-- Who goes on when a store action has ended. -/
inductive AfterAction where
  | ticket (ticket : Nat)
  | applied (worker : Nat) (payload : Json)

/-- Who goes on with a bare answer. -/
inductive AfterAnswer where
  /-- The answer is handed to the connection that asked. -/
  | forward (connection key : Nat)
  /-- A missing answer means that the connection was closed. -/
  | reply (ticket : Nat) (event : String)
  /-- A missing answer is reported as such. -/
  | raw (ticket : Nat)

inductive Job where
  | connect (ticket : Nat) (name : String) (owner : ComponentId) (opts : ConnectOptions)
  | call (ticket : Nat) (owner : ComponentId) (callable : Callable) (argument : Option Json)
  | emit (run : EmitRun) (after : AfterEmit)
  | transmit (run : EmitRun) (after : AfterEmit)
  | await (cell : CellId) (due : Option Nat) (run : EmitRun) (after : AfterEmit)
  | settle (result : Except EmitError Json) (run : EmitRun) (after : AfterEmit)
  | emitDone (result : Except EmitError EmitOutcome) (after : AfterEmit)
  | hook (hook : Hook) (argument : Json) (after : AfterHook)
  | hookEnd (hook : Hook) (reply : Reply) (after : AfterHook)
  | hookDone (verdict : Verdict) (after : AfterHook)
  | dispatch (action : String) (payload : Json) (after : AfterAction)
  | actionEnd (action : String) (payload : Json) (plan : ActionPlan) (after : AfterAction)
  | actionDone (result : Except StoreError Json) (after : AfterAction)
  | work (worker : Nat)
  | apply (worker : Nat) (payload : Json)
  | applied (worker : Nat) (payload : Json)
  | watch (back : EmitBack)
  | change (back : EmitBack) (value : Json)
  | serve (connection : Nat) (event : String) (payload : Json) (ack : Option CellId)
  | serveEnd (connection : Nat) (reply : PeerReply) (ack : Option CellId)
  | receive (cell : CellId) (after : AfterAnswer)

/-- A task is known by its number; its job says how it goes on. -/
structure Task where
  id : Nat
  job : Job

/-- What a parked task waits for. -/
inductive Signal where
  | cell (id : CellId)
  | queue (worker : Nat)
  | watch (place : Place) (id : Nat)
  | token (token : Token)
deriving DecidableEq

structure Parked where
  task : Task
  signals : List Signal
  /-- When it goes on without a signal. -/
  due : Option Nat

/-- What a request of the application came to. -/
inductive Outcome where
  | connected (handle : Handle) (wired : Wired)
  | value (v : Json)
  | answer (v : Option Json)
  | emitted (outcome : EmitOutcome)
  | dropped
  | failed (error : EngineError)
  | storeFailed (error : StoreError)

end Patchbay
