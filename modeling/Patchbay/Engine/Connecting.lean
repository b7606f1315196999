import Patchbay.Engine.Negotiation

/-!
A connect request: it resolves to a socket, gets a connection, wires what is configured,
waits for the peer's API if asked to, and ends as a session of the component. When it
fails, what it attached is undone, and a connection opened for it is dropped.
-/

namespace Patchbay

namespace World

def failConnect (w : World) (c : Connecting) (error : EngineError) : World :=
  let w := (w.detachAll c.wired.subscriptions).cancel c.pass.token
  let w := if c.reused then w else w.discard c.pass.channel.connection
  w.report c.ticket (.failed error)

/-- The last stage: the component's own API, then the session. -/
def finishConnect (w : World) (c : Connecting) (api : Option ServerApi) : World :=
  let (w, wired) := match c.resolved.clientApi with
    | none => (w, c.wired)
    | some d =>
      let event := (c.resolved.serverApi.bind (·.event)).getD ServerApi.defaultEvent
      w.bindClientApi c.pass d event c.wired
  let session : Session :=
    { label := c.resolved.label, channel := c.pass.channel, owner := c.pass.owner
      teardown := c.resolved.teardown, token := c.pass.token
      subscriptions := wired.subscriptions }
  let handle : Handle := ⟨c.pass.channel.connection, some session, api⟩
  let w := w.track session
  { w with handles := Fields.insert c.name handle w.handles }.report c.ticket
    (.connected handle wired)

/-- The peer has answered discovery. -/
def discovered (w : World) (c : Connecting) (answer : Json) : World :=
  match (read? answer : Option Descriptor) with
  | none => w.failConnect c (.invalidDescriptor "the answer has the wrong shape")
  | some d =>
    let (w, wired, api) := w.bindServerApi c.pass c.resolved.ignoredEvents d c.wired
    w.finishConnect { c with wired } (some api)

/-- Wires the store, then waits for discovery or finishes. -/
def connectStore (w : World) (c : Connecting) : World :=
  match w.wireStore c.pass c.resolved.store with
  | (w, .error e) => w.failConnect c (.binding e)
  | (w, .ok wired) =>
    let c := { c with wired := c.wired.append wired }
    match c.resolved.serverApi with
    | none => w.finishConnect c none
    | some d => w.resume (.emit (discoveryRun c.pass d) (.discovery c))

def connectNamespace (w : World) (c : Connecting) : World :=
  match w.wireNamespace c.pass c.resolved.namespaceConfig with
  | (w, .error e) => w.failConnect c (.binding e)
  | (w, .ok wired) => w.connectStore { c with wired := c.wired.append wired }

def startConnect (w : World) (ticket : Nat) (name : String) (owner : ComponentId)
    (opts : ConnectOptions) : World :=
  let (resolved, warnings) := Resolved.ofRequest w.settings w.runtimeSockets opts
  let w := warnings.foldl warn w
  match resolved with
  | .error e => w.report ticket (.failed (.config e))
  | .ok r =>
    match w.acquire r with
    | (.error e, w) => w.report ticket (.failed (.transport e))
    | (.ok (serial, reused), w) =>
      let w := { w with sockets := w.sockets.setTimeout r.scope r.emitTimeout }
      let (w, token) := w.newToken
      let pass : Pass := ⟨⟨serial, r.scope, r.emitTimeout⟩, owner, token, r.warnings⟩
      let (w, wired) := w.wireStatus pass r.statusKey r.url
      w.connectNamespace ⟨ticket, name, r, pass, reused, wired⟩

end World

end Patchbay
