import Patchbay.Engine.Wiring

/-!
Sessions: connections are opened for a component, kept under a persistence key if asked
to, handed out again while they are connected, and closed when their component goes.
-/

namespace Patchbay

namespace World

def persistedAt (w : World) (scope key : String) : Option Nat := w.persisted.lookup (scope, key)

/-- A connection goes: nothing attached through it stays registered. -/
def releaseBindings (w : World) (serial : Nat) : World :=
  { w with registry := w.registry.release (.opened serial) }

def forget (w : World) (serial : Nat) : World :=
  { w with persisted := w.persisted.filter (·.2 != serial) }

def openFor (w : World) (r : Resolved) : Except TransportError (Nat × Bool) × World :=
  match w.openConnection r.url r.namespaceName r.extra with
  | (.error e, w) => (.error e, w)
  | (.ok serial, w) =>
    match r.persistKey with
    | none => (.ok (serial, false), w)
    | some key =>
      let slot := (r.scope, key)
      (.ok (serial, false),
        { w with persisted := w.persisted.filter (·.1 != slot) ++ [(slot, serial)] })

/-- The connection kept for the request, or a new one; and whether it was kept. A kept one
that is closed makes room for a new one. -/
def acquire (w : World) (r : Resolved) : Except TransportError (Nat × Bool) × World :=
  match r.persistKey.bind (w.persistedAt r.scope) with
  | none => w.openFor r
  | some serial =>
    if w.isConnected serial then (.ok (serial, true), w)
    else
      let slot := (r.scope, r.persistKey.getD "")
      openFor (releaseBindings { w with persisted := w.persisted.filter (·.1 != slot) } serial) r

def sessionsOf (w : World) (owner : ComponentId) : List Session :=
  (w.owned.lookup owner).getD []

def track (w : World) (s : Session) : World :=
  if (w.owned.lookup s.owner).isNone then { w with owned := w.owned ++ [(s.owner, [s])] }
  else
    { w with owned := w.owned.map fun (owner, sessions) =>
      if owner = s.owner then (owner, sessions ++ [s]) else (owner, sessions) }

/-- A kept connection that is still connected. -/
def persistedFor (w : World) (scope key : String) : Option Nat :=
  (w.persistedAt scope key).filter w.isConnected

/-- The connection kept under a scope or a persistence key of that name. -/
def persistedForLabel (w : World) (label : String) : Option Nat :=
  ((w.persisted.filter fun ((scope, key), _) => scope == label || key == label).map (·.2)).find?
    w.isConnected

/-- The scope a connection was wired under. -/
def scopeOf (w : World) (serial : Nat) : Option String :=
  ((w.owned.flatMap (·.2) ++ w.detached).find? (·.channel.connection == serial)).map
    (·.channel.scope)

/-- Drops a connection with everything on it. -/
def discard (w : World) (serial : Nat) : World :=
  (((w.offAll serial).close serial).releaseBindings serial).forget serial

def closeSession (w : World) (s : Session) : World :=
  ((w.cancel s.token).detachAll s.subscriptions).discard s.channel.connection

/-- The component is gone: its sessions are closed, except those that outlive it. -/
def teardown (w : World) (owner : ComponentId) : World × Nat :=
  let sessions := w.sessionsOf owner
  let w := { w with owned := w.owned.filter (·.1 != owner) }
  sessions.foldl
    (fun (w, closed) s =>
      if s.teardown then (w.closeSession s, closed + 1)
      else ({ w with detached := w.detached ++ [s] }, closed))
    (w, 0)

/-- Closes every session, owned or outliving its component. -/
def shutdown (w : World) : World :=
  let sessions := w.owned.flatMap (·.2) ++ w.detached
  sessions.foldl closeSession { w with owned := [], detached := [] }

end World

end Patchbay
