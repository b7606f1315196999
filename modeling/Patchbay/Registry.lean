import Patchbay.Failure
import Patchbay.Ident

/-!
The registry of attached bindings: a map from scope, role and action to the binding that is
attached there, with the connection that attached it and a number that grows from one
registration to the next. Releasing a connection removes what it attached, wherever that is.
-/

namespace Patchbay

inductive StoreArea where
  | actions
  | mutations
  | emitBacks
deriving DecidableEq, Repr

def StoreArea.text : StoreArea → String
  | .actions => "Actions"
  | .mutations => "Mutations"
  | .emitBacks => "EmitBacks"

inductive Scope where
  /-- A component's data on one connection. -/
  | component (conn : ConnectionId) (owner : ComponentId)
  /-- The store under a socket's scope label. -/
  | store (label : String) (area : StoreArea)
deriving DecidableEq, Repr

def Scope.text : Scope → String
  | .component conn owner => conn.text ++ ":" ++ owner.text
  | .store label area => "store:" ++ label ++ ":" ++ area.text

namespace Registry

structure Key where
  scope : Scope
  role : Role
  action : String
deriving DecidableEq, Repr

/-- What a binding is registered under. -/
def Key.ofBinding (scope : Scope) (b : Binding) : Key := ⟨scope, b.role, b.action⟩

structure Entry where
  key : Key
  binding : Binding
  via : ConnectionId
  seq : Nat
deriving DecidableEq, Repr

/-- Keys and numbers are given once, a key is that of its binding, and numbers are behind `next`. -/
structure WellFormed (entries : List Entry) (next : Nat) : Prop where
  keys : (entries.map (·.key)).Nodup
  named : ∀ e ∈ entries, e.key.role = e.binding.role ∧ e.key.action = e.binding.action
  seqs : (entries.map (·.seq)).Nodup
  behind : ∀ e ∈ entries, e.seq < next

theorem WellFormed.empty : WellFormed [] 0 where
  keys := List.nodup_nil
  named _ he := absurd he List.not_mem_nil
  seqs := List.nodup_nil
  behind _ he := absurd he List.not_mem_nil

theorem WellFormed.insert {entries : List Entry} {next : Nat} (h : WellFormed entries next)
    {scope : Scope} {b : Binding} (via : ConnectionId)
    (hfree : .ofBinding scope b ∉ entries.map (·.key)) :
    WellFormed (⟨.ofBinding scope b, b, via, next⟩ :: entries) (next + 1) where
  keys := List.nodup_cons.2 ⟨hfree, h.keys⟩
  named := List.forall_mem_cons.2 ⟨⟨rfl, rfl⟩, h.named⟩
  seqs := by
    refine List.nodup_cons.2 ⟨fun hnext => ?_, h.seqs⟩
    obtain ⟨e, he, hseq⟩ := List.mem_map.1 hnext
    exact Nat.ne_of_lt (h.behind e he) hseq
  behind := List.forall_mem_cons.2
    ⟨Nat.lt_succ_self next, fun e he => Nat.lt_succ_of_lt (h.behind e he)⟩

theorem WellFormed.filter {entries : List Entry} {next : Nat} (h : WellFormed entries next)
    (keep : Entry → Bool) : WellFormed (entries.filter keep) next where
  keys := h.keys.sublist (List.filter_sublist.map _)
  named e he := h.named e (List.mem_filter.1 he).1
  seqs := h.seqs.sublist (List.filter_sublist.map _)
  behind e he := h.behind e (List.mem_filter.1 he).1

end Registry

/-- The order of the entries means nothing: it is the numbers that tell which came first. -/
structure Registry where
  entries : List Registry.Entry := []
  next : Nat := 0
  wellFormed : Registry.WellFormed entries next := by exact .empty

instance : Inhabited Registry := ⟨{}⟩

namespace Registry

def contains (reg : Registry) (scope : Scope) (role : Role) (action : String) : Bool :=
  (reg.entries.map (·.key)).contains ⟨scope, role, action⟩

def add (reg : Registry) (scope : Scope) (b : Binding) (via : ConnectionId)
    (hfree : .ofBinding scope b ∉ reg.entries.map (·.key)) : Registry where
  entries := ⟨.ofBinding scope b, b, via, reg.next⟩ :: reg.entries
  next := reg.next + 1
  wellFormed := reg.wellFormed.insert via hfree

/-- Adds an entry with the next number, unless its key is taken. -/
def register (reg : Registry) (scope : Scope) (b : Binding) (via : ConnectionId) :
    Registry × Except BindingError Unit :=
  if hfree : .ofBinding scope b ∉ reg.entries.map (·.key) then
    (reg.add scope b via hfree, .ok ())
  else (reg, .error (.duplicate scope.text b.role b.action))

/-- The bindings of a scope in the order of registration. -/
def bindingsFor (reg : Registry) (scope : Scope) : List Binding :=
  let found := reg.entries.filter fun e => decide (e.key.scope = scope)
  (found.mergeSort fun a b => decide (a.seq ≤ b.seq)).map (·.binding)

/-- Drops what was attached through a connection. -/
def release (reg : Registry) (via : ConnectionId) : Registry where
  entries := reg.entries.filter fun e => decide (e.via ≠ via)
  next := reg.next
  wellFormed := reg.wellFormed.filter _

def size (reg : Registry) : Nat := reg.entries.length

/-- How many entries a release drops. -/
def countVia (reg : Registry) (via : ConnectionId) : Nat := reg.size - (reg.release via).size

end Registry

end Patchbay
