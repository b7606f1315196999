import Patchbay.Binding
import Patchbay.Text.Blank

/-!
Directives: one line of text that describes one binding,

    pre ] action + extra --> target [ post     for emitters and listeners
    pre ] action <-- source [ post             for emitBacks

where everything but the action may be missing and blanks around the parts do not
count. A line outside this grammar is skipped with a reason.
-/

namespace Patchbay

inductive Arrow where
  | forward
  | backward
deriving DecidableEq, Repr

namespace Arrow

def mark : Arrow → List Char
  | .forward => ['-', '-', '>']
  | .backward => ['<', '-', '-']

def text (arrow : Arrow) : String := String.ofList arrow.mark

end Arrow

/-- Why a configured entry describes no binding. -/
inductive Skip where
  | notAString
  | empty
  | unknownOperator (text : String)
  | arrowNotAllowed (role : Role) (arrow : Arrow)
  | invalidName (text : String)
deriving DecidableEq, Repr

def Skip.message : Skip → String
  | .notAString => "directive is not a string"
  | .empty => "directive is empty"
  | .unknownOperator text => s!"unknown operator in '{text}'"
  | .arrowNotAllowed role arrow => s!"'{arrow.text}' is not valid for {role.name} directives"
  | .invalidName text => s!"'{text}' is not a valid name"

namespace Directive

open Text

def isOperator (c : Char) : Bool := c == '<' || c == '>' || c == '=' || c == '[' || c == ']'

/-- No name contains these. -/
def isForbidden (c : Char) : Bool := isBlank c || c == '+' || isOperator c

/-- The text before and after the first `c`. -/
def cutFirst (c : Char) : List Char → Option (List Char × List Char)
  | [] => none
  | d :: cs => if d = c then some ([], cs) else (cutFirst c cs).map fun (a, b) => (d :: a, b)

/-- The text before and after the last `c`. -/
def cutLast (c : Char) : List Char → Option (List Char × List Char)
  | [] => none
  | d :: cs =>
    match cutLast c cs with
    | some (a, b) => some (d :: a, b)
    | none => if d = c then some ([], cs) else none

/-- The text before and after the first `mark`. -/
def cutMark (mark : List Char) : List Char → Option (List Char × List Char)
  | [] => none
  | d :: cs =>
    if mark.isPrefixOf (d :: cs) then some ([], (d :: cs).drop mark.length)
    else (cutMark mark cs).map fun (a, b) => (d :: a, b)

def name (raw : List Char) : Except Skip String :=
  let trimmed := trim raw
  if trimmed.isEmpty || trimmed.any isForbidden then
    .error (.invalidName (String.ofList trimmed))
  else .ok (String.ofList trimmed)

def name? : Option (List Char) → Except Skip (Option String)
  | none => .ok none
  | some raw => (name raw).map some

/-- How often an arrow stands in a text: never, once between two sides, or more often. -/
inductive Sides where
  | whole
  | once (left right : List Char)
  | many

def sides (arrow : Arrow) (body : List Char) : Sides :=
  match cutMark arrow.mark body with
  | none => .whole
  | some (left, right) =>
    if (cutMark arrow.mark right).isSome then .many else .once left right

/-- The body of a directive around its only arrow, if any. -/
structure Body where
  left : List Char
  right : Option (List Char)
  arrow : Option Arrow

def splitBody (body : List Char) : Option Body :=
  match sides .forward body, sides .backward body with
  | .whole, .whole => some ⟨body, none, none⟩
  | .once left right, .whole => some ⟨left, some right, some .forward⟩
  | .whole, .once left right => some ⟨left, some right, some .backward⟩
  | _, _ => none

/-- The arrow that a role has no use for. -/
def Role.wrongArrow : Role → Arrow
  | .emitter => .backward
  | .listener => .backward
  | .emitBack => .forward

/-- An action and the extra payload behind a plus. -/
def actionAndExtra (left text : List Char) : Except Skip (String × Option String) :=
  match cutFirst '+' left with
  | none => do return (← name left, none)
  | some (action, rest) => do
    let action ← name action
    match cutFirst '+' rest with
    | none => return (action, some (← name rest))
    | some (extra, _) =>
      let _ ← name extra
      .error (.unknownOperator (String.ofList text))

def parse (text : String) (role : Role) : Except Skip Binding := do
  let text := trim text.toList
  if text.isEmpty then .error .empty
  let (pre, rest) ← match cutFirst ']' text with
    | some (hook, rest) => do pure (some (← name hook), rest)
    | none => pure (none, text)
  let (body, post) ← match cutLast '[' rest with
    | some (body, hook) => do pure (body, some (← name hook))
    | none => pure (rest, none)
  match splitBody body with
  | none => .error (.unknownOperator (String.ofList text))
  | some body => do
    if body.left.any isOperator || (body.right.getD []).any isOperator then
      .error (.unknownOperator (String.ofList text))
    if body.arrow = some (Role.wrongArrow role) then
      .error (.arrowNotAllowed role (Role.wrongArrow role))
    match role with
    | .emitter => do
      let (action, extra) ← actionAndExtra body.left text
      return ⟨role, action, extra, ← name? body.right, pre, post⟩
    | .listener => do
      let (action, _) ← actionAndExtra body.left text
      return ⟨role, action, none, ← name? body.right, pre, post⟩
    | .emitBack => do
      let action ← name body.left
      return ⟨role, action, ← name? body.right, none, pre, post⟩

def compile (raw : Json) (role : Role) : Except Skip Binding :=
  match raw with
  | .str text => parse text role
  | _ => .error .notAString

/-- An entry that was skipped. -/
structure Skipped where
  role : Role
  raw : Json
  reason : Skip

/-- The bindings of a list of entries, and the entries that describe none, in order. -/
def compileAll (role : Role) : List Json → List Binding × List Skipped
  | [] => ([], [])
  | raw :: rest =>
    let (bindings, skipped) := compileAll role rest
    match compile raw role with
    | .ok binding => (binding :: bindings, skipped)
    | .error reason => (bindings, ⟨role, raw, reason⟩ :: skipped)

end Directive

end Patchbay
