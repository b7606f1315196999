import Patchbay.Json.Number

/-!
Reading JSON text. The reader holds the open lists and objects on a stack and what it
expects next, and looks at one character or one literal at a time. Of equal member
names the last one counts, and at most 127 lists and objects may be open at once.
-/

namespace Patchbay.Json

/-- A list or object that is still open. -/
inductive Frame where
  | items (done : List Json)
  | members (done : Fields Json) (key : String)

inductive Expect where
  | value
  | firstItem
  | nextItem (done : List Json)
  | firstKey
  | key (done : Fields Json)
  | colon (done : Fields Json) (key : String)
  | nextMember (done : Fields Json)
  | nothing (result : Json)

structure Reader where
  stack : List Frame
  expect : Expect

def maxDepth : Nat := 127

def isSpace (c : Char) : Bool := c == ' ' || c == '\n' || c == '\t' || c == '\r'

private def hex? (c : Char) : Option Nat :=
  if '0' ≤ c && c ≤ '9' then some (c.toNat - '0'.toNat)
  else if 'a' ≤ c && c ≤ 'f' then some (c.toNat - 'a'.toNat + 10)
  else if 'A' ≤ c && c ≤ 'F' then some (c.toNat - 'A'.toNat + 10)
  else none

/-- Four hexadecimal digits. Fewer than four bytes of text are an early end. -/
def readHex (cs : List Char) : Except Fault Nat :=
  if (cs.take 4).foldl (fun n c => n + c.utf8Size) 0 < 4 then .error .unfinished
  else match cs with
    | a :: b :: c :: d :: _ =>
      match hex? a, hex? b, hex? c, hex? d with
      | some a, some b, some c, some d => .ok (((a * 16 + b) * 16 + c) * 16 + d)
      | _, _, _, _ => .error .malformed
    | _ => .error .malformed

private def isHigh (n : Nat) : Bool := 0xD800 ≤ n && n ≤ 0xDBFF
private def isLow (n : Nat) : Bool := 0xDC00 ≤ n && n ≤ 0xDFFF

private def simpleEscape? : Char → Option Char
  | '"' => some '"'
  | '\\' => some '\\'
  | '/' => some '/'
  | 'b' => some (Char.ofNat 8)
  | 'f' => some (Char.ofNat 12)
  | 'n' => some '\n'
  | 'r' => some '\r'
  | 't' => some '\t'
  | _ => none

/-- The low half of a surrogate pair whose high half has been read. -/
def readLowHalf (high : Nat) : List Char → Except Fault Char
  | [] => .error .unfinished
  | '\\' :: [] => .error .unfinished
  | '\\' :: 'u' :: cs => do
    let low ← readHex cs
    if isLow low then .ok (Char.ofNat ((high - 0xD800) * 0x400 + (low - 0xDC00) + 0x10000))
    else .error .malformed
  | _ => .error .malformed

/-- A string from behind its opening quote; `acc` holds what was read, last first. -/
def readString (acc : List Char) : Nat → List Char → Except Fault (String × List Char)
  | 0, _ => .error .unfinished
  | _ + 1, [] => .error .unfinished
  | _ + 1, '"' :: cs => .ok (String.ofList acc.reverse, cs)
  | _ + 1, '\\' :: [] => .error .unfinished
  | fuel + 1, '\\' :: 'u' :: cs => do
    let n ← readHex cs
    if isLow n then .error .malformed
    else if isHigh n then
      let c ← readLowHalf n (cs.drop 4)
      readString (c :: acc) fuel (cs.drop 10)
    else readString (Char.ofNat n :: acc) fuel (cs.drop 4)
  | fuel + 1, '\\' :: e :: cs =>
    match simpleEscape? e with
    | some c => readString (c :: acc) fuel cs
    | none => .error .malformed
  | fuel + 1, c :: cs =>
    if c.toNat < 32 then .error .malformed else readString (c :: acc) fuel cs

def stringAfterQuote (cs : List Char) : Except Fault (String × List Char) :=
  readString [] (cs.length + 1) cs

/-- The rest of a word such as `true`. -/
def readWord (v : Json) : List Char → List Char → Except Fault (Json × List Char)
  | [], cs => .ok (v, cs)
  | _ :: _, [] => .error .unfinished
  | w :: word, c :: cs => if c = w then readWord v word cs else .error .malformed

/-- A value other than a list or an object, given its first character. -/
def readScalar (c : Char) (cs : List Char) : Except Fault (Json × List Char) :=
  if c = 't' then readWord (.bool true) ['r', 'u', 'e'] cs
  else if c = 'f' then readWord (.bool false) ['a', 'l', 's', 'e'] cs
  else if c = 'n' then readWord .null ['u', 'l', 'l'] cs
  else if c = '"' then (stringAfterQuote cs).map fun (s, rest) => (.str s, rest)
  else if c = '-' then Number.read true cs
  else if (Number.digit? c).isSome then Number.read false (c :: cs)
  else .error .malformed

namespace Reader

def start : Reader := ⟨[], .value⟩

/-- A value has been read: it belongs to the innermost open list or object. -/
def put (stack : List Frame) (v : Json) : Reader :=
  match stack with
  | [] => ⟨[], .nothing v⟩
  | .items done :: stack => ⟨stack, .nextItem (v :: done)⟩
  | .members done key :: stack => ⟨stack, .nextMember (done.insert key v)⟩

def readValue (stack : List Frame) (c : Char) (cs : List Char) :
    Except Fault (Reader × List Char) :=
  if c = '[' then
    if stack.length < maxDepth then .ok (⟨stack, .firstItem⟩, cs) else .error .malformed
  else if c = '\x7b' then
    if stack.length < maxDepth then .ok (⟨stack, .firstKey⟩, cs) else .error .malformed
  else (readScalar c cs).map fun (v, rest) => (put stack v, rest)

def readKey (stack : List Frame) (done : Fields Json) (c : Char) (cs : List Char) :
    Except Fault (Reader × List Char) :=
  if c = '"' then (stringAfterQuote cs).map fun (k, rest) => (⟨stack, .colon done k⟩, rest)
  else .error .malformed

/-- One step at a character that is no space. -/
def step (r : Reader) (c : Char) (cs : List Char) : Except Fault (Reader × List Char) :=
  match r.expect with
  | .value => readValue r.stack c cs
  | .firstItem =>
    if c = ']' then .ok (put r.stack (.arr []), cs) else readValue (.items [] :: r.stack) c cs
  | .nextItem done =>
    if c = ']' then .ok (put r.stack (.arr done.reverse), cs)
    else if c = ',' then .ok (⟨.items done :: r.stack, .value⟩, cs)
    else .error .malformed
  | .firstKey =>
    if c = '\x7d' then .ok (put r.stack (.obj []), cs) else readKey r.stack [] c cs
  | .key done => readKey r.stack done c cs
  | .colon done key =>
    if c = ':' then .ok (⟨.members done key :: r.stack, .value⟩, cs) else .error .malformed
  | .nextMember done =>
    if c = '\x7d' then .ok (put r.stack (.obj done), cs)
    else if c = ',' then .ok (⟨r.stack, .key done⟩, cs)
    else .error .malformed
  | .nothing _ => .error .malformed

/-- At the end of the text. -/
def finish (r : Reader) : Except Fault Json :=
  match r.expect with
  | .nothing v => .ok v
  | _ => .error .unfinished

/-- Every step takes at least one character, so the text's length bounds the steps. -/
def run : Nat → Reader → List Char → Except Fault Json
  | 0, r, _ => r.finish
  | fuel + 1, r, cs =>
    match cs.dropWhile isSpace with
    | [] => r.finish
    | c :: cs =>
      match r.step c cs with
      | .error fault => .error fault
      | .ok (r, rest) => run fuel r rest

end Reader

def parse (text : String) : Except Fault Json :=
  let cs := text.toList
  Reader.run (cs.length + 1) .start cs

end Patchbay.Json
