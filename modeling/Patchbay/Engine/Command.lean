import Patchbay.Engine.Run

/-!
What the application, the peers and time can do to a running engine. A command is
carried out at once or starts a task that reports under the command's ticket.
-/

namespace Patchbay

/-- The store-level emit. -/
structure EmitAction where
  event : String := ""
  msg : Option Json := none
  /-- The scope or persistence key of a kept connection. -/
  label : Option String := none
  emitTimeout : Option Nat := none
  noAck : Bool := false
deriving Inhabited

instance : Readable EmitAction where
  read? v := do
    let slots ← Record.slots? ["evt", "msg", "label", "emitTimeout", "noAck"] v
    return {
      event := ← Record.defaulted "" slots 0
      msg := ← Record.optional slots 1
      label := ← Record.optional slots 2
      emitTimeout := ← Record.optional slots 3
      noAck := ← Record.defaulted false slots 4 }

instance : Writable EmitAction where
  write a := .object
    [("evt", .str a.event), ("msg", .ofOption a.msg), ("label", write a.label),
      ("emitTimeout", write a.emitTimeout), ("noAck", .bool a.noAck)]

/-- An emit with hooks of a component, on a channel of its own. -/
structure HookedEmit where
  owner : ComponentId
  event : String
  msg : Option Json
  pre : Option String
  post : Option String
  timeout : Option Nat
  channelTimeout : Option Nat
  noAck : Bool
  scope : String

inductive Command where
  | connect (name : String) (owner : ComponentId) (opts : ConnectOptions)
  | call (owner : ComponentId) (name : String) (argument : Option Json)
  | apiCall (handle name : String) (argument : Option Json)
  | emit (handle event : String) (msg : Option Json) (timeout : Option Nat) (noAck : Bool)
  | emitAction (handle : Option String) (action : EmitAction)
  | emitHooks (handle : String) (request : HookedEmit)
  | emitBare (handle event : String) (payload : Json)
  | awaitEvent (handle event : String)
  | setRuntime (sockets : List SocketEntry)
  | teardown (owner : ComponentId)
  | shutdown
  | close (handle : String)
  | persisted (scope key : String)
  | persistedFor (label : String)
  | scopeOf (handle : String)
  | sessionsOf (owner : ComponentId)
  | bindingsOf (handle : String) (owner : ComponentId)
  | storeBindings (scope : String) (area : StoreArea)
  | setData (owner : ComponentId) (path : String) (v : Json)
  | getData (owner : ComponentId) (path : String)
  | member (owner : ComponentId) (name : String)
  | names (owner : ComponentId)
  | setStore (path : String) (v : Json)
  | commit (mutation : String) (payload : Json)
  | dispatch (action : String) (payload : Json)
  | has (name : String)
  | socketState
  | openBare (name url namespaceName : String) (extra : Fields Json)
  | listen (handle event probe : String) (once : Bool) (answer : Option Json)
  | off (handle event : String)
  | offListener (handle : String) (listener : Nat)
  | offAll (handle : String)
  | listeners (handle : String) (events : List String)
  | send (handle event : String) (payload : Json) (ack : Bool)
  | push (handle event : String) (payload : Json)
  | request (handle event : String) (payload : Json)
  | kick (handle : String)
  | answer (held : Nat) (v : Json)
  | serve (server : Server)
  | wait (ms : Nat)

inductive Response where
  | none
  /-- The outcome comes under the ticket. -/
  | later
  | json (v : Json)
  | connection (serial : Option Nat)
  | bindings (list : List Binding)
  | opened (serial : Nat)
  | refused (error : TransportError)
  | committed
  | sent
  | failed (error : EngineError)
  | storeFailed (error : StoreError)
  | noHandle
  | noApi
  | noPeer
  | nothingHeld

namespace World

def handle? (w : World) (name : String) : Option Handle := Fields.get? name w.handles

def withHandle (w : World) (name : String) (f : Handle → World × Response) :
    World × Response :=
  match w.handle? name with
  | none => (w, .noHandle)
  | some handle => f handle

def withSession (w : World) (name : String) (f : Handle → Session → World × Response) :
    World × Response :=
  w.withHandle name fun handle =>
    match handle.session with
    | none => (w, .noHandle)
    | some session => f handle session

/-- The server side of a connection that is still open. -/
def withPeer (w : World) (name : String) (f : Nat → World × Response) : World × Response :=
  w.withHandle name fun handle =>
    if w.hub.contains handle.connection then f handle.connection else (w, .noPeer)

/-- The connection an emit action goes to, and the scope its errors are kept under. -/
def actionChannel (w : World) (explicit : Option Nat) (a : EmitAction) : Option Channel :=
  let serial := match explicit with
    | some serial => some serial
    | none => a.label.bind w.persistedForLabel
  serial.map fun serial =>
    let namespaceName := ((w.connection? serial).map (·.namespaceName)).getD ""
    let scope := (w.scopeOf serial).getD (a.label.getD "" ++ namespaceName)
    ⟨serial, scope, a.emitTimeout <|> w.sockets.timeout scope⟩

def startAction? (w : World) (ticket : Nat) (explicit : Option Nat) (a : EmitAction) :
    World × Response :=
  match w.actionChannel explicit a with
  | none => (w, .failed (.emit .missingConnection))
  | some channel =>
    (w.spawn (.emit { channel, event := a.event, msg := a.msg, noAck := a.noAck } (.answer ticket)),
      .later)

def startHooked (w : World) (ticket serial : Nat) (r : HookedEmit) : World × Response :=
  let hook (name : Option String) : Option Hook := name.bind (w.handler? r.owner)
  let run : EmitRun :=
    { channel := ⟨serial, r.scope, r.channelTimeout⟩, event := r.event, msg := r.msg
      timeout := r.timeout, noAck := r.noAck, hooks := ⟨hook r.pre, hook r.post⟩ }
  (w.spawn (.emit run (.outcome ticket)), .later)

def startBare (w : World) (ticket serial : Nat) (event : String) (payload : Json) :
    World × Response :=
  let (w, cell) := w.newCell
  match w.send serial event payload (some cell) with
  | .error e => (w, .failed (.emit (.transport e)))
  | .ok w => (w.spawn (.receive cell (.reply ticket event)), .later)

def startSend (w : World) (ticket serial : Nat) (event : String) (payload : Json)
    (ack : Bool) : World × Response :=
  if ack then
    let (w, cell) := w.newCell
    match w.send serial event payload (some cell) with
    | .error e => (w, .refused e)
    | .ok w => (w.spawn (.receive cell (.raw ticket)), .later)
  else
    match w.send serial event payload none with
    | .error e => (w, .refused e)
    | .ok w => (w, .sent)

def answerHeld (w : World) (n : Nat) (v : Json) : World × Response :=
  match w.held[n]?.join with
  | none => (w, .nothingHeld)
  | some cell => (answer { w with held := w.held.set n none } cell v, .json (.bool true))

/-- Adds a server's handler, or replaces the one of its namespace and event. -/
def addServer (w : World) (s : Server) : World :=
  { w with servers := w.servers.filter (fun t =>
      !(t.namespaceName == s.namespaceName && t.event == s.event)) ++ [s] }

/-- Carries out a command, before any task runs. -/
def perform (w : World) (ticket : Nat) : Command → World × Response
  | .connect name owner opts => (w.spawn (.connect ticket name owner opts), .later)
  | .call owner name argument =>
    match Fields.get? name (w.component owner).callables with
    | none => (w, .failed (.unknownCallable name))
    | some callable => (w.spawn (.call ticket owner callable argument), .later)
  | .apiCall handle name argument => w.withHandle handle fun h =>
    match h.api with
    | none => (w, .noApi)
    | some api =>
      if api.methods.contains name then
        (w.spawn (.call ticket api.owner (.method api.channel name) argument), .later)
      else (w, .failed (.unknownCallable name))
  | .emit handle event msg timeout noAck => w.withSession handle fun _ session =>
    (w.spawn (.emit { channel := session.channel, event, msg, timeout, noAck } (.answer ticket)),
      .later)
  | .emitAction handle action =>
    match handle with
    | none => w.startAction? ticket none action
    | some handle => w.withHandle handle fun h => w.startAction? ticket (some h.connection) action
  | .emitHooks handle request =>
    w.withHandle handle fun h => w.startHooked ticket h.connection request
  | .emitBare handle event payload => w.withHandle handle fun h =>
    w.startBare ticket h.connection event payload
  | .awaitEvent handle event => w.withHandle handle fun h =>
    let (w, cell) := w.newCell
    let (w, _) := w.listen h.connection event (.await cell) true
    (w.spawn (.receive cell (.reply ticket event)), .later)
  | .setRuntime sockets => ({ w with runtimeSockets := sockets }, .none)
  | .teardown owner =>
    let (w, closed) := w.teardown owner
    (w, .json (.nat closed))
  | .shutdown => (w.shutdown, .none)
  | .close handle => w.withHandle handle fun h => (w.close h.connection, .none)
  | .persisted scope key => (w, .connection (w.persistedFor scope key))
  | .persistedFor label => (w, .connection (w.persistedForLabel label))
  | .scopeOf handle => w.withHandle handle fun h => (w, .json (write (w.scopeOf h.connection)))
  | .sessionsOf owner => (w, .json (.nat (w.sessionsOf owner).length))
  | .bindingsOf handle owner => w.withHandle handle fun h =>
    (w, .bindings (w.registry.bindingsFor (.component (.opened h.connection) owner)))
  | .storeBindings scope area => (w, .bindings (w.registry.bindingsFor (.store scope area)))
  | .setData owner path v => (w.set (.component owner) path v, .none)
  | .getData owner path => (w, .json (.ofOption ((w.tree (.component owner)).get? path)))
  | .member owner name => (w, .json (.bool (w.hasMember owner name)))
  | .names owner =>
    let c := w.component owner
    (w, .json (.object
      [("callables", write (Fields.keys c.callables)),
        ("handlers", write (Fields.keys c.handlers))]))
  | .setStore path v => (w.set .store path v, .none)
  | .commit mutation payload =>
    match w.commit mutation payload with
    | .ok w => (w, .committed)
    | .error e => (w, .storeFailed e)
  | .dispatch action payload => (w.spawn (.dispatch action payload (.ticket ticket)), .later)
  | .has name => (w, .json (.arr
    [.bool (Fields.contains name w.store.mutations), .bool (Fields.contains name w.store.actions)]))
  | .socketState => (w, .json w.sockets.snapshot)
  | .openBare name url namespaceName extra =>
    match w.openConnection url namespaceName extra with
    | (.error e, w) => (w, .refused e)
    | (.ok serial, w) =>
      ({ w with handles := Fields.insert name ⟨serial, none, none⟩ w.handles }, .opened serial)
  | .listen handle event probe once answer => w.withHandle handle fun h =>
    let (w, id) := w.listen h.connection event (.probe probe answer) once
    (w, .json (.nat id))
  | .off handle event => w.withHandle handle fun h => (w.off h.connection event, .none)
  | .offListener handle listener => w.withHandle handle fun h =>
    (w.offListener h.connection listener, .none)
  | .offAll handle => w.withHandle handle fun h => (w.offAll h.connection, .none)
  | .listeners handle events => w.withHandle handle fun h =>
    (w, .json (.object
      [("has", .arr (events.map fun event => .bool (w.hears h.connection event))),
        ("connected", .bool (w.isConnected h.connection))]))
  | .send handle event payload ack => w.withHandle handle fun h =>
    w.startSend ticket h.connection event payload ack
  | .push handle event payload => w.withPeer handle fun serial =>
    (w.deliver serial event payload none, .none)
  | .request handle event payload => w.withPeer handle fun serial =>
    let (w, cell) := w.newCell
    ((w.deliver serial event payload (some cell)).spawn (.receive cell (.raw ticket)), .later)
  | .kick handle => w.withPeer handle fun serial => (w.close serial, .none)
  | .answer held v => w.answerHeld held v
  | .serve server => (w.addServer server, .none)
  | .wait ms => (w.wait ms, .none)

/-- Carries out a command and runs the tasks it sets in motion. -/
def command (w : World) (ticket : Nat) (c : Command) : World × Response :=
  let (w, response) := w.perform ticket c
  (w.run, response)

end World

end Patchbay
