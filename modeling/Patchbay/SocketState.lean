import Patchbay.Descriptor
import Patchbay.Failure

/-!
The store's area for sockets: error lists by scope and event, timeouts and negotiated
APIs by scope. Every recorded error also goes to a feed that holds the last 64 of them;
a subscriber that falls further behind is told how many it missed.
-/

namespace Patchbay

structure SocketState where
  errors : Dict (Dict (List ErrorRecord)) := .empty
  timeouts : Dict (Option Nat) := .empty
  serverApis : Dict Json := .empty
  clientApis : Dict Descriptor := .empty
  /-- The scopes and records of all errors ever recorded, oldest first. -/
  history : List (String × ErrorRecord) := []
deriving Inhabited

namespace SocketState

def recordError (s : SocketState) (scope : String) (record : ErrorRecord) : SocketState :=
  let byEvent := (s.errors.get? scope).getD .empty
  let list := (byEvent.get? record.event).getD []
  { s with
    errors := s.errors.insert scope (byEvent.insert record.event (list ++ [record]))
    history := s.history ++ [(scope, record)] }

def errorsOf (s : SocketState) (scope event : String) : List ErrorRecord :=
  (((s.errors.get? scope).bind (·.get? event)).getD [])

def errorCount (s : SocketState) : Nat :=
  (s.errors.entries.flatMap fun (_, byEvent) =>
    byEvent.entries.flatMap fun (_, records) => records).length

def setTimeout (s : SocketState) (scope : String) (timeout : Option Nat) : SocketState :=
  { s with timeouts := s.timeouts.insert scope timeout }

/-- None when no timeout was set for the scope, or when it waits forever. -/
def timeout (s : SocketState) (scope : String) : Option Nat := (s.timeouts.get? scope).join

def setServerApi (s : SocketState) (label : String) (api : Json) : SocketState :=
  { s with serverApis := s.serverApis.insert label api }

def setClientApi (s : SocketState) (label : String) (api : Descriptor) : SocketState :=
  { s with clientApis := s.clientApis.insert label api }

def snapshot (s : SocketState) : Json :=
  .object [("emitErrors", write s.errors), ("emitTimeouts", write s.timeouts),
    ("ioApis", write s.serverApis), ("clientApis", write s.clientApis)]

/-- What the feed has for a subscriber: an error, or how many were missed. -/
inductive Notice where
  | error (scope : String) (record : ErrorRecord)
  | lagged (missed : Nat)

def feedSize : Nat := 64

/-- The notices for a subscriber that has taken the first `seen` errors. -/
def feed (s : SocketState) (seen : Nat) : List Notice :=
  let missed := s.history.length - feedSize - seen
  (if missed = 0 then [] else [.lagged missed]) ++
    (s.history.drop (seen + missed)).map fun (scope, record) => .error scope record

end SocketState

end Patchbay
