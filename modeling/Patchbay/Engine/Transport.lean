import Patchbay.Engine.World

/-!
Connections and the hub they are made at. A delivery runs the listeners that are there
when it starts, in the order of their registration, and only the first may answer. An
emit that wants an answer waits with its connection until the server answers or the
connection closes.
-/

namespace Patchbay

namespace World

/-- Opens a connection. The hub lists it until it is closed. -/
def openConnection (w : World) (url namespaceName : String) (extra : Fields Json) :
    Except TransportError Nat × World :=
  let w := w.record (.opened url namespaceName extra)
  if url.isEmpty then (.error (.connectFailed url "empty url"), w)
  else
    let serial := w.connections.length + 1
    let c : Connection :=
      { url, namespaceName := if namespaceName.isEmpty then "/" else namespaceName }
    (.ok serial, { w with connections := w.connections ++ [c], hub := w.hub ++ [serial] })

def listen (w : World) (serial : Nat) (event : String) (action : Reaction) (once : Bool := false) :
    World × Nat :=
  match w.connection? serial with
  | none => (w, 0)
  | some c =>
    let (listeners, id) := c.listeners.add event action once
    (w.updateConnection serial fun c => { c with listeners }, id)

/-- A listener is gone: nobody feeds its worker any more, and an awaited event will not
come. -/
def release (w : World) (action : Reaction) : World :=
  match action with
  | .enqueue worker _ =>
    { w with workers := w.workers.modify worker fun x => { x with fed := false } }.signal
      (.queue worker)
  | .await cell => w.abandon cell
  | _ => w

def removeListeners (w : World) (serial : Nat) (out : Listener Reaction → Bool) : World :=
  match w.connection? serial with
  | none => w
  | some c =>
    let (removed, listeners) := c.listeners.remove out
    removed.foldl release (w.updateConnection serial fun c => { c with listeners })

def off (w : World) (serial : Nat) (event : String) : World :=
  w.removeListeners serial (·.event == event)

def offListener (w : World) (serial id : Nat) : World := w.removeListeners serial (·.id == id)

def offAll (w : World) (serial : Nat) : World := w.removeListeners serial fun _ => true

/-- Closing a connection fails the emits that still wait for an answer. -/
def close (w : World) (serial : Nat) : World :=
  match w.connection? serial with
  | none => w
  | some c =>
    if !c.connected then w
    else
      let w := w.updateConnection serial fun c => { c with connected := false, waiting := [] }
      let w := { w with hub := w.hub.filter (· != serial) }
      c.waiting.foldl (fun w (_, cell) => w.abandon cell) w

/-- The answer of an API listener. -/
def received : Json := .obj [("ack", .str "ok")]

/-- One listener hears a payload. A responder that it does not use is given up. -/
def react (w : World) (action : Reaction) (payload : Json) (ack : Option CellId) : World :=
  match action with
  | .enqueue worker token =>
    if w.isCancelled token then w.abandonIf ack
    else
      let w := { w with workers := w.workers.modify worker fun x =>
        { x with queue := x.queue ++ [payload] } }
      (w.signal (.queue worker)).abandonIf ack
  | .status owner path token =>
    (if w.isCancelled token then w else w.set (.component owner) path payload).abandonIf ack
  | .apiEvent owner paths token =>
    if w.isCancelled token then w.abandonIf ack
    else (paths.foldl (fun w path => w.set (.component owner) path payload) w).answerIf ack received
  | .serve hook token =>
    if w.isCancelled token then w.abandonIf ack else w.spawn (.hook hook payload (.served ack))
  | .publish descriptor => w.answerIf ack descriptor
  | .probe name answer =>
    let w := w.record (.heard name payload ack.isSome)
    match answer with
    | some v => w.answerIf ack v
    | none => w.abandonIf ack
  | .await cell => (w.answer cell payload).abandonIf ack

/-- Runs the actions in order; the responder goes to the first. -/
def reactAll (w : World) (payload : Json) (ack : Option CellId) : List Reaction → World
  | [] => w.abandonIf ack
  | first :: rest =>
    rest.foldl (fun w action => w.react action payload none) (w.react first payload ack)

/-- The peer sends an event to the client. A closed connection hears nothing. -/
def deliver (w : World) (serial : Nat) (event : String) (payload : Json) (ack : Option CellId) :
    World :=
  match w.connection? serial with
  | none => w.abandonIf ack
  | some c =>
    if !c.connected then w.abandonIf ack
    else
      let (called, listeners) := c.listeners.deliver event
      (w.updateConnection serial fun c => { c with listeners }).reactAll payload ack
        (called.map (·.action))

def server? (w : World) (namespaceName event : String) : Option Server :=
  w.servers.find? fun s => s.namespaceName == namespaceName && s.event == event

/-- Hands an emit to the server of its namespace and event. Without one, an answer is
never given. -/
def route (w : World) (serial : Nat) (namespaceName event : String) (payload : Json)
    (key : Option Nat) : World :=
  if (w.server? namespaceName event).isNone || !w.hub.contains serial then w
  else match key with
    | none => w.spawn (.serve serial event payload none)
    | some key =>
      let (w, cell) := w.newCell
      (w.spawn (.receive cell (.forward serial key))).spawn
        (.serve serial event payload (some cell))

/-- The client sends an event; with `ack`, the server's answer goes there. -/
def send (w : World) (serial : Nat) (event : String) (payload : Json) (ack : Option CellId) :
    Except TransportError World :=
  match w.connection? serial with
  | none => .error (.notConnected (ConnectionId.opened serial).text event)
  | some c =>
    if !c.connected then .error (.notConnected (ConnectionId.opened serial).text event)
    else
      let w := w.record (.emitted serial event payload ack.isSome)
      match ack with
      | none => .ok (w.route serial c.namespaceName event payload none)
      | some cell =>
        let w := w.updateConnection serial fun c =>
          { c with waiting := c.waiting ++ [(c.nextKey, cell)], nextKey := c.nextKey + 1 }
        .ok (w.route serial c.namespaceName event payload (some c.nextKey))

/-- The server's answer to an emit, if the emit still waits. -/
def resolve (w : World) (serial key : Nat) (v : Json) : World :=
  match w.connection? serial with
  | none => w
  | some c =>
    match c.waiting.lookup key with
    | none => w
    | some cell =>
      (w.updateConnection serial fun c =>
        { c with waiting := c.waiting.filter (·.1 != key) }).answer cell v

/-- A server's handler starts on an emit. -/
def serve (w : World) (serial : Nat) (event : String) (payload : Json) (ack : Option CellId) :
    World :=
  match w.connection? serial with
  | none => w.abandonIf ack
  | some c =>
    match w.server? c.namespaceName event with
    | none => w.abandonIf ack
    | some server =>
      let w := w.record (.served c.namespaceName event payload ack.isSome)
      let counted (s : Server) : Server :=
        if s.namespaceName == c.namespaceName && s.event == event then
          { s with calls := s.calls + 1 }
        else s
      let w := { w with servers := w.servers.map counted }
      let reply := server.reply server.calls payload
      w.resumeAfter reply.delay (.serveEnd serial reply ack)

/-- The rest of a server's reply, after its delay. -/
def serveEnd (w : World) (serial : Nat) (reply : PeerReply) (ack : Option CellId) : World :=
  let w := reply.pushes.foldl (fun w (event, payload) => w.deliver serial event payload none) w
  let w := if reply.disconnect then w.close serial else w
  match ack with
  | none => w
  | some cell =>
    match reply.answer with
    | .hold => { w with held := w.held ++ [some cell] }
    | .drop => w.abandon cell
    | .value v => w.answer cell v

end World

end Patchbay
