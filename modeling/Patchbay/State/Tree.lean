import Patchbay.State.Path

/-!
Observable state: a JSON document with watches. A watch remembers the value it saw
last at its path; after a write on a related path it compares, and queues the value
there when it has changed and is present.
-/

namespace Patchbay

structure Watch where
  id : Nat
  path : Path
  last : Option Json
  /-- Changes not yet taken, oldest first. -/
  pending : List Json
deriving Inhabited

namespace Watch

def observe (w : Watch) (changed : Path) (root : Json) : Watch :=
  if !Path.related w.path changed then w
  else
    let current := root.at? w.path
    if Json.sameOption current w.last then w
    else { w with last := current, pending := w.pending ++ current.toList }

end Watch

structure Tree where
  root : Json := .emptyObject
  /-- The live watches in the order of their creation. -/
  watches : List Watch := []
  /-- How many watches were ever created; it numbers the next one. -/
  created : Nat := 0
deriving Inhabited

namespace Tree

def ofJson (root : Json) : Tree := { root }

def get? (t : Tree) (path : String) : Option Json := t.root.at? (.ofString path)

def contains (t : Tree) (path : String) : Bool := (t.get? path).isSome

def set (t : Tree) (path : String) (value : Json) : Tree :=
  let place := Path.ofString path
  let root := Json.put value place t.root
  { t with root, watches := t.watches.map fun w => w.observe place root }

/-- Writes the fields into the object at a place, keeping its others. -/
def merge (t : Tree) (path : String) (fields : Fields Json) : Tree :=
  let current := ((t.get? path).bind Json.members?).getD []
  t.set path (.obj (Fields.overlay current fields))

/-- Writes only where nothing stands yet. -/
def setDefault (t : Tree) (path : String) (value : Json) : Tree :=
  if t.contains path then t else t.set path value

/-- Starts a watch and returns its number. -/
def watch (t : Tree) (path : String) : Tree × Nat :=
  let place := Path.ofString path
  let id := t.created + 1
  ({ t with watches := t.watches ++ [⟨id, place, t.root.at? place, []⟩], created := id }, id)

def unwatch (t : Tree) (id : Nat) : Tree :=
  { t with watches := t.watches.filter (·.id != id) }

def pending (t : Tree) (id : Nat) : List Json :=
  ((t.watches.find? (·.id == id)).map Watch.pending).getD []

/-- Takes the queued changes of a watch. -/
def poll (t : Tree) (id : Nat) : List Json × Tree :=
  (t.pending id,
    { t with watches := t.watches.map fun w => if w.id = id then { w with pending := [] } else w })

/-- Takes the oldest queued change of a watch. -/
def pollOne (t : Tree) (id : Nat) : Option (Json × Tree) :=
  match t.pending id with
  | [] => none
  | v :: rest =>
    some (v, { t with
      watches := t.watches.map fun w => if w.id = id then { w with pending := rest } else w })

def live (t : Tree) : Nat := t.watches.length

end Tree

end Patchbay
