import Patchbay.Json.Basic

/-!
Typed records and their JSON form. A record is read from an object by member name, or
from a list by position; members nobody asked for are ignored, surplus items are not.
An optional member that is null counts as absent.
-/

namespace Patchbay

class Readable (α : Type) where
  read? : Json → Option α

class Writable (α : Type) where
  write : α → Json

export Readable (read?)
export Writable (write)

instance : Readable Json := ⟨some⟩
instance : Writable Json := ⟨id⟩

instance : Readable String where
  read?
    | .str s => some s
    | _ => none

instance : Writable String := ⟨.str⟩

instance : Readable Bool where
  read?
    | .bool b => some b
    | _ => none

instance : Writable Bool := ⟨.bool⟩

/-- Only non-negative integers; a double such as `1.0` is none. -/
instance : Readable Nat where
  read?
    | .int (.ofNat n) => some n
    | _ => none

instance : Writable Nat := ⟨.nat⟩

instance {α : Type} [Readable α] : Readable (Option α) where
  read?
    | .null => some none
    | v => (read? v).map some

instance {α : Type} [Writable α] : Writable (Option α) where
  write
    | none => .null
    | some a => write a

instance {α : Type} [Readable α] : Readable (List α) where
  read?
    | .arr items => items.mapM read?
    | _ => none

instance {α : Type} [Writable α] : Writable (List α) := ⟨fun items => .arr (items.map write)⟩

instance {α : Type} [Readable α] : Readable (Dict α) where
  read?
    | .obj members => do
      let entries ← members.mapM fun (member : String × Json) => do
        return (member.1, ← read? (α := α) member.2)
      return Dict.ofList entries
    | _ => none

instance {α : Type} [Writable α] : Writable (Dict α) :=
  ⟨fun dict => .obj (dict.entries.map fun (k, v) => (k, write v))⟩

/-- A JSON object as it stands. -/
structure JsonObject where
  members : Fields Json
deriving Inhabited

instance : Readable JsonObject := ⟨fun v => v.members?.map .mk⟩
instance : Writable JsonObject := ⟨fun o => .obj o.members⟩

namespace Record

/-- The values given for the declared members, in their order. -/
def slots? (names : List String) : Json → Option (List (Option Json))
  | .obj members => some (names.map fun name => Fields.get? name members)
  | .arr items =>
    if items.length ≤ names.length then
      some (items.map some ++ List.replicate (names.length - items.length) none)
    else none
  | _ => none

variable {α : Type} [Readable α]

def required (slots : List (Option Json)) (i : Nat) : Option α :=
  (slots.getD i none).bind read?

def defaulted (default : α) (slots : List (Option Json)) (i : Nat) : Option α :=
  match slots.getD i none with
  | none => some default
  | some v => read? v

def optional (slots : List (Option Json)) (i : Nat) : Option (Option α) :=
  defaulted none slots i

end Record

end Patchbay
