import Patchbay.Failure

/-!
An emit that asks for an acknowledgment settles with the peer's answer or with an
error. An answer that is an object with an `emitError` member is an error.
-/

namespace Patchbay

/-- What a handler returned, or the text of its failure. -/
abbrev Verdict := Except String Json

namespace Verdict

/-- A pre-hook vetoes with `false` only. -/
def isVeto : Verdict → Bool
  | .ok (.bool false) => true
  | _ => false

/-- A validator rejects with `false`, a zero or the empty string; a failed validator, or
one that returns nothing, lets the change through. -/
def rejects : Verdict → Bool
  | .ok (.bool b) => !b
  | .ok (.int n) => n == 0
  | .ok (.double x) => x.isZero
  | .ok (.str s) => s.isEmpty
  | _ => false

end Verdict

inductive EmitOutcome where
  | acked (answer : Json)
  /-- Sent without asking for an acknowledgment. -/
  | sent
  /-- The pre-hook kept it from being sent. -/
  | vetoed

namespace EmitOutcome

def answer? : EmitOutcome → Option Json
  | .acked answer => some answer
  | _ => none

end EmitOutcome

namespace Ack

def errorKey : String := "emitError"

/-- Tells an error answer from a good one. The error's text is the member `emitError`,
as JSON text unless it is a string; an error with other members keeps them as details. -/
def settle (event : String) (msg answer : Json) (now : String) : Except EmitError Json :=
  match answer with
  | .obj fields =>
    match Fields.get? errorKey fields with
    | none => .ok answer
    | some raw =>
      let message := match raw with
        | .str s => s
        | other => other.compact
      let details := Fields.erase errorKey fields
      let record : ErrorRecord :=
        ⟨message, event, if msg.isNull then none else some msg, details, now⟩
      .error (if details.isEmpty then .remote record else .ack record)
  | _ => .ok answer

/-- What the post-hook is given for a recorded error. Details of the same name win. -/
def errorValue (r : ErrorRecord) : Json :=
  .obj (Fields.overlay (Fields.ofList [(errorKey, .str r.message), ("evt", .str r.event)])
    r.details)

end Ack

end Patchbay
