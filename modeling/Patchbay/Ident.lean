import Patchbay.Record

/-! Identifiers of connections and components. -/

namespace Patchbay

/-- A 128-bit number in 32 hexadecimal digits, grouped by dashes. -/
def uuidText (n : Nat) : String :=
  let digits := (List.range 32).map fun i => Nat.digitChar (n >>> (4 * (31 - i)) % 16)
  let cut (start count : Nat) := String.ofList ((digits.drop start).take count)
  String.intercalate "-" [cut 0 8, cut 8 4, cut 12 4, cut 16 4, cut 20 12]

/-- A connection is known by a given text or by the serial number of its opening. -/
inductive ConnectionId where
  | named (text : String)
  | opened (serial : Nat)
deriving DecidableEq, Repr, Inhabited

namespace ConnectionId

def text : ConnectionId → String
  | .named text => text
  | .opened serial => s!"conn#{serial}"

/-- An identifier made of 128 bits that no other one shares. -/
def ofBits (n : Nat) : ConnectionId := .named ("conn_" ++ uuidText n)

end ConnectionId

structure ComponentId where
  text : String
deriving DecidableEq, Repr, Inhabited

namespace ComponentId

def ofBits (n : Nat) : ComponentId := ⟨"cmp_" ++ uuidText n⟩

end ComponentId

instance : Writable ConnectionId := ⟨fun id => .str id.text⟩
instance : Writable ComponentId := ⟨fun id => .str id.text⟩

end Patchbay
