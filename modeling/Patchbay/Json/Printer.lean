import Patchbay.Json.Basic
import Patchbay.Json.Shortest

/-! JSON text: `compact` has no spaces, `pretty` puts every item on a line of its own. -/

namespace Patchbay.Json

private def hexDigit (n : Nat) : Char := Nat.digitChar n

/-- Only the quote, the backslash and the control characters below space are escaped. -/
def escape (c : Char) : String :=
  if c = '"' then "\\\""
  else if c = '\\' then "\\\\"
  else if c = '\n' then "\\n"
  else if c = '\r' then "\\r"
  else if c = '\t' then "\\t"
  else if c.toNat = 8 then "\\b"
  else if c.toNat = 12 then "\\f"
  else if c.toNat < 32 then
    "\\u00" ++ String.ofList [hexDigit (c.toNat / 16), hexDigit (c.toNat % 16)]
  else c.toString

def quote (s : String) : String :=
  "\"" ++ s.toList.foldl (fun acc c => acc ++ escape c) "" ++ "\""

mutual

def compact : Json → String
  | .null => "null"
  | .bool b => if b then "true" else "false"
  | .int n => toString n
  | .double x => x.text
  | .str s => quote s
  | .arr items => "[" ++ compactItems items ++ "]"
  | .obj members => "\x7b" ++ compactMembers members ++ "\x7d"

def compactItems : List Json → String
  | [] => ""
  | [v] => compact v
  | v :: w :: rest => compact v ++ "," ++ compactItems (w :: rest)

def compactMembers : List (String × Json) → String
  | [] => ""
  | [(k, v)] => quote k ++ ":" ++ compact v
  | (k, v) :: m :: rest => quote k ++ ":" ++ compact v ++ "," ++ compactMembers (m :: rest)

end

private def indent (depth : Nat) : String := String.ofList (List.replicate (2 * depth) ' ')

mutual

/-- Two spaces a level; an empty list or object stays on its line. -/
def prettyAt (depth : Nat) : Json → String
  | .null => "null"
  | .bool b => if b then "true" else "false"
  | .int n => toString n
  | .double x => x.text
  | .str s => quote s
  | .arr [] => "[]"
  | .arr (v :: rest) =>
    "[\n" ++ prettyItems (depth + 1) (v :: rest) ++ "\n" ++ indent depth ++ "]"
  | .obj [] => "\x7b\x7d"
  | .obj (m :: rest) =>
    "\x7b\n" ++ prettyMembers (depth + 1) (m :: rest) ++ "\n" ++ indent depth ++ "\x7d"

def prettyItems (depth : Nat) : List Json → String
  | [] => ""
  | [v] => indent depth ++ prettyAt depth v
  | v :: w :: rest =>
    indent depth ++ prettyAt depth v ++ ",\n" ++ prettyItems depth (w :: rest)

def prettyMembers (depth : Nat) : List (String × Json) → String
  | [] => ""
  | [(k, v)] => indent depth ++ quote k ++ ": " ++ prettyAt depth v
  | (k, v) :: m :: rest =>
    indent depth ++ quote k ++ ": " ++ prettyAt depth v ++ ",\n" ++ prettyMembers depth (m :: rest)

end

def pretty (v : Json) : String := prettyAt 0 v

end Patchbay.Json
