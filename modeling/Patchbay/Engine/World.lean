import Patchbay.Engine.Task
import Patchbay.Engine.Trace
import Patchbay.SocketState

/-!
The state of a running engine with everything around it, and its primitive changes. The task
at the head of the ready queue runs next; a task that is woken or started goes to its end.
-/

namespace Patchbay

structure Connection where
  url : String
  namespaceName : String
  connected : Bool := true
  listeners : Listeners Reaction := {}
  /-- Answers that emits still wait for, by the number of the emit. -/
  waiting : List (Nat × CellId) := []
  nextKey : Nat := 1

structure Component where
  data : Tree := {}
  handlers : Fields Handler := []
  callables : Fields Callable := []
deriving Inhabited

structure Store where
  tree : Tree := {}
  mutations : Fields Mutation := []
  actions : Fields StoreAction := []
deriving Inhabited

structure World where
  settings : Settings
  runtimeSockets : List SocketEntry := []
  /-- The time text put on error records. -/
  stamp : String := ""
  now : Nat := 0
  servers : List Server := []
  /-- The connections the hub knows, by their serial numbers. -/
  hub : List Nat := []
  /-- All connections ever opened; the first one has serial number 1. -/
  connections : List Connection := []
  /-- Responders that servers keep, in order of arrival; a used one is gone. -/
  held : List (Option CellId) := []
  components : Fields Component := []
  store : Store := {}
  sockets : SocketState := {}
  registry : Registry := {}
  /-- Connections kept for later requests, by scope and persistence key. -/
  persisted : List ((String × String) × Nat) := []
  owned : List (ComponentId × List Session) := []
  /-- Sessions that outlived their component. -/
  detached : List Session := []
  cells : List Cell := []
  workers : List Worker := []
  tokens : Nat := 0
  cancelled : List Token := []
  /-- The task that does its job now, or did last. -/
  running : Nat := 0
  /-- How many tasks were ever started; it numbers the next one. -/
  started : Nat := 0
  ready : List Task := []
  parked : List Parked := []
  trace : List Event := []
  handles : Fields Handle := []
  outcomes : List (Nat × Outcome) := []

namespace World

/-! Observation -/

def record (w : World) (event : Event) : World := { w with trace := w.trace ++ [event] }

def warn (w : World) (warning : Warning) : World := w.record (.warned warning)

/-- A warning about the configuration, unless those are switched off. -/
def warnIf (w : World) (on : Bool) (warning : Warning) : World :=
  if on then w.warn warning else w

def report (w : World) (ticket : Nat) (outcome : Outcome) : World :=
  { w with outcomes := w.outcomes ++ [(ticket, outcome)] }

/-! Tasks -/

/-- The running task goes on with this job. -/
def resume (w : World) (job : Job) : World := { w with ready := ⟨w.running, job⟩ :: w.ready }

/-- Starts a task. -/
def spawn (w : World) (job : Job) : World :=
  { w with ready := w.ready ++ [⟨w.started + 1, job⟩], started := w.started + 1 }

/-- The running task waits with this job. -/
def park (w : World) (job : Job) (signals : List Signal) (due : Option Nat := none) : World :=
  { w with parked := w.parked ++ [⟨⟨w.running, job⟩, signals, due⟩] }

/-- The running task goes on with this job after a delay. -/
def resumeAfter (w : World) (delay : Option Nat) (job : Job) : World :=
  if delay.getD 0 = 0 then w.resume job else w.park job [] (some (w.now + delay.getD 0))

def wakeIf (w : World) (out : Parked → Bool) : World :=
  { w with
    ready := w.ready ++ (w.parked.filter out).map (·.task)
    parked := w.parked.filter fun p => !out p }

def signal (w : World) (s : Signal) : World := w.wakeIf fun p => p.signals.contains s

/-- Wakes what waits for this moment or an earlier one. -/
def wakeDue (w : World) : World :=
  w.wakeIf fun p => match p.due with
    | some due => decide (due ≤ w.now)
    | none => false

def newCell (w : World) : World × CellId :=
  ({ w with cells := w.cells ++ [.empty] }, w.cells.length)

def cell (w : World) (id : CellId) : Cell := w.cells.getD id .abandoned

/-- Only an empty cell takes an answer. -/
def fill (w : World) (id : CellId) (content : Cell) : World :=
  match w.cell id with
  | .empty => signal { w with cells := w.cells.set id content } (.cell id)
  | _ => w

def answer (w : World) (id : CellId) (v : Json) : World := w.fill id (.answered v)

def abandon (w : World) (id : CellId) : World := w.fill id .abandoned

/-- Gives up a responder, if there is one. -/
def abandonIf (w : World) : Option CellId → World
  | none => w
  | some id => w.abandon id

def answerIf (w : World) (ack : Option CellId) (v : Json) : World :=
  match ack with
  | none => w
  | some id => w.answer id v

def newToken (w : World) : World × Token := ({ w with tokens := w.tokens + 1 }, w.tokens)

def isCancelled (w : World) (t : Token) : Bool := w.cancelled.contains t

def cancel (w : World) (t : Token) : World :=
  if w.isCancelled t then w else signal { w with cancelled := t :: w.cancelled } (.token t)

/-! Components and store -/

def component (w : World) (id : ComponentId) : Component :=
  (Fields.get? id.text w.components).getD {}

def setComponent (w : World) (id : ComponentId) (c : Component) : World :=
  { w with components := Fields.insert id.text c w.components }

def tree (w : World) : Place → Tree
  | .component id => (w.component id).data
  | .store => w.store.tree

def setTree (w : World) (place : Place) (t : Tree) : World :=
  match place with
  | .component id => w.setComponent id { w.component id with data := t }
  | .store => { w with store := { w.store with tree := t } }

/-- Replaces a tree after a write, and wakes who watches a changed value. -/
def writeTree (w : World) (place : Place) (t : Tree) : World :=
  t.watches.foldl
    (fun w watch => if watch.pending.isEmpty then w else w.signal (.watch place watch.id))
    ((w.setTree place t).record (.wrote place t.root))

def set (w : World) (place : Place) (path : String) (v : Json) : World :=
  w.writeTree place ((w.tree place).set path v)

def merge (w : World) (place : Place) (path : String) (fields : Fields Json) : World :=
  w.writeTree place ((w.tree place).merge path fields)

def setDefault (w : World) (place : Place) (path : String) (v : Json) : World :=
  w.writeTree place ((w.tree place).setDefault path v)

def watch (w : World) (place : Place) (path : String) : World × Nat :=
  let (t, id) := (w.tree place).watch path
  ((w.setTree place t).record (.watched place id path (t.get? path)), id)

def unwatch (w : World) (place : Place) (id : Nat) : World :=
  w.setTree place ((w.tree place).unwatch id)

def handler? (w : World) (id : ComponentId) (name : String) : Option Hook :=
  (Fields.get? name (w.component id).handlers).map fun _ => ⟨id, name⟩

def insertCallable (w : World) (id : ComponentId) (name : String) (c : Callable) : World :=
  let owner := w.component id
  w.setComponent id { owner with callables := Fields.insert name c owner.callables }

/-- Whether a component's data, handlers or callables have something of that name. -/
def hasMember (w : World) (id : ComponentId) (name : String) : Bool :=
  let c := w.component id
  c.data.contains name || Fields.contains name c.handlers || Fields.contains name c.callables

/-- The mutation's effect on the store. -/
def commit (w : World) (name : String) (payload : Json) : Except StoreError World :=
  match Fields.get? name w.store.mutations with
  | none => .error (.unknownMutation name)
  | some mutation =>
    let w := if mutation.traced then w.record (.mutated name payload) else w
    .ok (w.writeTree .store (mutation.apply payload w.store.tree))

/-! Connections -/

def connection? (w : World) (serial : Nat) : Option Connection :=
  if serial = 0 then none else w.connections[serial - 1]?

def updateConnection (w : World) (serial : Nat) (f : Connection → Connection) : World :=
  { w with connections := w.connections.modify (serial - 1) f }

def isConnected (w : World) (serial : Nat) : Bool :=
  match w.connection? serial with
  | some c => c.connected
  | none => false

def hears (w : World) (serial : Nat) (event : String) : Bool :=
  match w.connection? serial with
  | some c => c.listeners.hears event
  | none => false

end World

end Patchbay
