import Patchbay.Engine.Transport

/-!
Wiring attaches the directives of a request to a connection, a component and the store.
Entries that do not compile are skipped, bindings that are already registered in their
scope are left alone, and an emitBack without a source fails the pass before anything is
attached.
-/

namespace Patchbay

namespace Pass

def id (p : Pass) : ConnectionId := .opened p.channel.connection

def componentScope (p : Pass) : Scope := .component p.id p.owner

def storeScope (p : Pass) (area : StoreArea) : Scope := .store p.channel.scope area

end Pass

namespace World

/-- Registers a binding, unless its scope already has one of that role and action. -/
def claim (w : World) (p : Pass) (scope : Scope) (b : Binding) : World × Bool :=
  let (registry, result) := w.registry.register scope b p.id
  ({ w with registry }, result.isOk)

/-- The handler of that name; a missing one is left out. -/
def resolveHook (w : World) (p : Pass) : Option String → World × Option Hook
  | none => (w, none)
  | some name =>
    match w.handler? p.owner name with
    | some hook => (w, some hook)
    | none => (w.warnIf p.warnings (.hookNotFound name), none)

def resolveHooks (w : World) (p : Pass) (b : Binding) : World × Hooks :=
  let (w, pre) := w.resolveHook p b.pre
  let (w, post) := w.resolveHook p b.post
  (w, ⟨pre, post⟩)

/-! Connection status -/

/-- The transport's status events and the slots they are kept in. -/
def statusEvents : List (String × String) :=
  [("connect_error", "connectError"), ("connect_timeout", "connectTimeout"),
    ("reconnect", "reconnect"), ("reconnect_attempt", "reconnectAttempt"),
    ("reconnecting", "reconnecting"), ("reconnect_error", "reconnectError"),
    ("reconnect_failed", "reconnectFailed"), ("ping", "ping"), ("pong", "pong")]

def statusFields (url : String) : Fields Json :=
  Fields.ofList (("connectUrl", .str url) :: statusEvents.map fun (_, slot) => (slot, .str ""))

/-- Keeps the connection's status in the component's data, if the data has a place for it. -/
def wireStatus (w : World) (p : Pass) (key url : String) : World × Wired :=
  if !(w.tree (.component p.owner)).contains key then (w, {})
  else
    let attach (acc : World × Wired) (entry : String × String) : World × Wired :=
      let (w, id) := acc.1.listen p.channel.connection entry.1
        (.status p.owner (key ++ "." ++ entry.2) p.token)
      (w, acc.2.append { subscriptions := [.new (.listener p.channel.connection id)] })
    statusEvents.foldl attach (w.merge (.component p.owner) key (statusFields url), {})

/-! Attaching one binding -/

def attachEmitter (w : World) (p : Pass) (b : Binding) : World :=
  let (w, hooks) := w.resolveHooks p b
  w.insertCallable p.owner b.action (.emitter p.channel b hooks)

/-- A listener queues its payloads for a worker of its own. -/
def attachListener (w : World) (p : Pass) (b : Binding) (sink : Sink) :
    World × Subscription Detach :=
  let w := w.warnIf (p.warnings && w.hears p.channel.connection b.action)
    (.listenerAttached b.action)
  let (w, hooks) := w.resolveHooks p b
  let worker : Worker :=
    { event := b.action, target := b.targetOrAction, sink, hooks, token := p.token }
  let number := w.workers.length
  let w := { w with workers := w.workers ++ [worker] }
  let (w, id) := (w.spawn (.work number)).listen p.channel.connection b.action
    (.enqueue number p.token)
  (w, .new (.listener p.channel.connection id))

def attachEmitBack (w : World) (p : Pass) (b : Binding) (place : Place) :
    World × Subscription Detach :=
  let (w, hooks) := w.resolveHooks p b
  let (w, watch) := w.watch place b.sourceOrAction
  let (w, own) := w.newToken
  let back : EmitBack :=
    { channel := p.channel, event := b.action, place, watch, validator := hooks.pre
      post := hooks.post, token := p.token, own }
  (w.spawn (.watch back), .new (.token own))

/-- Claims the bindings of a list in order, and attaches those that were free. -/
def attachAll (w : World) (p : Pass) (scope : Scope)
    (attach : World → Binding → World × List (Subscription Detach)) :
    List Binding → World × Wired
  | [] => (w, {})
  | b :: rest =>
    match w.claim p scope b with
    | (w, false) => w.attachAll p scope attach rest
    | (w, true) =>
      let (w, subscriptions) := attach w b
      let (w, wired) := w.attachAll p scope attach rest
      (w, Wired.append { bindings := [b], subscriptions } wired)

/-! The two passes. One that fails attaches nothing. -/

/-- The first emitBack that has nothing to watch. -/
def missingSource (t : Tree) (backs : List Binding) : Option String :=
  (backs.find? fun b => !t.contains b.sourceOrAction).map (·.sourceOrAction)

def wireNamespace (w : World) (p : Pass) (c : NamespaceConfig) :
    World × Except BindingError Wired :=
  let (emitters, skipped₁) := Directive.compileAll .emitter c.emitters
  let (listeners, skipped₂) := Directive.compileAll .listener c.listeners
  let (backs, skipped₃) := Directive.compileAll .emitBack c.emitBacks
  match missingSource (w.tree (.component p.owner)) backs with
  | some source => (w, .error (.missingSource source "the component data"))
  | none =>
    let (w, wired₁) := w.attachAll p p.componentScope
      (fun w b => (w.attachEmitter p b, [])) emitters
    let (w, wired₂) := w.attachAll p p.componentScope
      (fun w b => (w.attachListener p b (.data p.owner)).map id ([·])) listeners
    let (w, wired₃) := w.attachAll p p.componentScope
      (fun w b => (w.attachEmitBack p b (.component p.owner)).map id ([·])) backs
    let skipped : Wired := { skipped := skipped₁ ++ skipped₂ ++ skipped₃ }
    (w, .ok (skipped.append (wired₁.append (wired₂.append wired₃))))

/-- EmitBacks that are already registered need no source. -/
def wireStore (w : World) (p : Pass) (c : StoreWiring) : World × Except BindingError Wired :=
  let (actions, skipped₁) := Directive.compileAll .listener c.actions
  let (mutations, skipped₂) := Directive.compileAll .listener c.mutations
  let (backs, skipped₃) := Directive.compileAll .emitBack c.emitBacks
  let scope := p.storeScope .emitBacks
  let new := backs.filter fun b => !w.registry.contains scope .emitBack b.action
  match missingSource w.store.tree new with
  | some source => (w, .error (.missingSource source "the store"))
  | none =>
    let (w, wired₁) := w.attachAll p (p.storeScope .actions)
      (fun w b =>
        let known := Fields.contains b.targetOrAction w.store.actions
        let w := w.warnIf (p.warnings && !known) (.actionNotFound b.targetOrAction)
        (w.attachListener p b .dispatch).map id ([·])) actions
    let (w, wired₂) := w.attachAll p (p.storeScope .mutations)
      (fun w b =>
        let known := Fields.contains b.targetOrAction w.store.mutations
        let w := w.warnIf (p.warnings && !known) (.mutationNotFound b.targetOrAction)
        (w.attachListener p b .commit).map id ([·])) mutations
    let (w, wired₃) := w.attachAll p scope
      (fun w b => (w.attachEmitBack p b .store).map id ([·])) backs
    let skipped : Wired := { skipped := skipped₁ ++ skipped₂ ++ skipped₃ }
    (w, .ok (skipped.append (wired₁.append (wired₂.append wired₃))))

/-! Undoing -/

def detach (w : World) (s : Subscription Detach) : World :=
  match s.undo with
  | none => w
  | some (.listener serial id) => w.offListener serial id
  | some (.token t) => w.cancel t

def detachAll (w : World) (subscriptions : List (Subscription Detach)) : World :=
  subscriptions.foldl detach w

end World

end Patchbay
