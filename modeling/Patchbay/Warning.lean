import Patchbay.Json.Basic

/-! Warnings about what was tolerated, each with its fields. -/

namespace Patchbay

inductive Warning where
  | duplicateSocket (name : String)
  | unusableOverride (key value : String)
  | hookNotFound (hook : String)
  | listenerAttached (event : String)
  | apiListenerAttached (event : String)
  | actionNotFound (action : String)
  | mutationNotFound (mutation : String)
  | noMethodHandler (method : String)
  | preHookFailed (event error : String)
  | validatorFailed (event error : String)
  | emitFailed (event scope kind error : String)
  | dispatchFailed (action error : String)
  | commitFailed (mutation error : String)
deriving DecidableEq, Repr

namespace Warning

def message : Warning → String
  | .duplicateSocket _ => "duplicate socket entry ignored, keeping the first"
  | .unusableOverride .. => "ignoring unparseable environment override"
  | .hookNotFound _ => "hook not found, ignoring it"
  | .listenerAttached _ => "event already has a listener attached"
  | .apiListenerAttached _ => "server API event already has a listener attached"
  | .actionNotFound _ => "store action not found"
  | .mutationNotFound _ => "store mutation not found"
  | .noMethodHandler _ => "client API method has no handler"
  | .preHookFailed .. => "pre-hook failed, emitting anyway"
  | .validatorFailed .. => "emitBack validator failed, emitting anyway"
  | .emitFailed .. => "emit failed"
  | .dispatchFailed .. => "store dispatch failed"
  | .commitFailed .. => "store commit failed"

def fields : Warning → List (String × String)
  | .duplicateSocket name => [("name", name)]
  | .unusableOverride key value => [("key", key), ("value", value)]
  | .hookNotFound hook => [("hook", hook)]
  | .listenerAttached event => [("evt", event)]
  | .apiListenerAttached event => [("evt", event)]
  | .actionNotFound action => [("action", action)]
  | .mutationNotFound mutation => [("mutation", mutation)]
  | .noMethodHandler method => [("method", method)]
  | .preHookFailed event error => [("evt", event), ("error", error)]
  | .validatorFailed event error => [("evt", event), ("error", error)]
  | .emitFailed event scope kind error =>
    [("evt", event), ("scope", scope), ("kind", kind), ("error", error)]
  | .dispatchFailed action error => [("action", action), ("error", error)]
  | .commitFailed mutation error => [("mutation", mutation), ("error", error)]

def toJson (w : Warning) : Json :=
  .object (("message", .str w.message) :: w.fields.map fun (k, v) => (k, .str v))

end Warning

end Patchbay
