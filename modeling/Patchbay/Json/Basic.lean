import Patchbay.Fields
import Patchbay.Json.Double

/-! JSON values. Integers and doubles are different numbers, and an object's members
stand in the order of their names. A type cannot carry that order of its own members as `Dict`
does; `Json.Ordered` says it of a value, and every document that is parsed has it. -/

namespace Patchbay

inductive Json where
  | null
  | bool (b : Bool)
  | int (n : Int)
  | double (x : Double)
  | str (s : String)
  | arr (items : List Json)
  | obj (members : List (String × Json))
deriving Repr, Inhabited

namespace Json

def emptyObject : Json := .obj []

mutual

/-- Equality of values: both zeros are one number, all else is told apart. -/
def same : Json → Json → Bool
  | .null, .null => true
  | .bool a, .bool b => a == b
  | .int a, .int b => a == b
  | .double a, .double b => a.same b
  | .str a, .str b => a == b
  | .arr a, .arr b => sameItems a b
  | .obj a, .obj b => sameMembers a b
  | _, _ => false

def sameItems : List Json → List Json → Bool
  | [], [] => true
  | a :: as, b :: bs => same a b && sameItems as bs
  | _, _ => false

def sameMembers : List (String × Json) → List (String × Json) → Bool
  | [], [] => true
  | (k, a) :: as, (l, b) :: bs => k == l && same a b && sameMembers as bs
  | _, _ => false

end

/-- Equality of two values that may be absent. -/
def sameOption : Option Json → Option Json → Bool
  | none, none => true
  | some a, some b => same a b
  | _, _ => false

def members? : Json → Option (Fields Json)
  | .obj members => some members
  | _ => none

/-- The member of that name, of an object that has it. -/
def get? (key : String) : Json → Option Json
  | .obj members => Fields.get? key members
  | _ => none

def isNull : Json → Bool
  | .null => true
  | _ => false

/-- An absent value is written as null. -/
def ofOption : Option Json → Json
  | none => .null
  | some v => v

/-- Leaves out the members that are absent. -/
def record (members : List (String × Option Json)) : Json :=
  .obj (Fields.ofList (members.filterMap fun (k, v) => v.map (k, ·)))

def object (members : List (String × Json)) : Json := .obj (Fields.ofList members)

def nat (n : Nat) : Json := .int n

end Json

end Patchbay
