import Patchbay.Json.Basic

/-!
Number literals. An integer literal between `-2^63` and `2^64 - 1` is an integer; any
other literal is a double. A double is read from at most the digits that fit 64 bits:
they are rounded, then multiplied or divided by a rounded power of ten.
-/

namespace Patchbay.Json

/-- Why text is no JSON: it ended early, or something else stands there. -/
inductive Fault where
  | unfinished
  | malformed
deriving DecidableEq, Repr

namespace Number

def largest : Nat := 0xFFFFFFFFFFFFFFFF

def digit? (c : Char) : Option Nat :=
  if '0' ≤ c && c ≤ '9' then some (c.toNat - '0'.toNat) else none

private def isDigit (c : Char) : Bool := (digit? c).isSome

/-- The digits that are taken up, how many come after those, and what follows. -/
structure Digits where
  value : Nat
  taken : Nat
  dropped : Nat
  rest : List Char

/-- Takes digits up as long as the value fits 64 bits, and only counts the others. -/
def digits (value : Nat) : List Char → Digits
  | [] => ⟨value, 0, 0, []⟩
  | c :: cs =>
    match digit? c with
    | none => ⟨value, 0, 0, c :: cs⟩
    | some d =>
      if value * 10 + d ≤ largest then
        let more := digits (value * 10 + d) cs
        { more with taken := more.taken + 1 }
      else
        let run := (c :: cs).takeWhile isDigit
        ⟨value, 0, run.length, (c :: cs).dropWhile isDigit⟩

/-- Divides by `10 ^ 308` until the exponent is in the range of the powers of ten. -/
private def shrink : Nat → Nat → Nat → Nat × Nat
  | 0, code, e => (code, e)
  | fuel + 1, code, e =>
    if e ≤ 308 || code == 0 then (code, e)
    else shrink fuel (Double.div code (Double.powerOfTen 308)) (e - 308)

/-- The double of `value * 10 ^ e`; too large a number is malformed. -/
def scale (negative : Bool) (value : Nat) (e : Int) : Except Fault Json :=
  let code := Double.ofNat value
  if 0 ≤ e then
    if 308 < e then if value = 0 then .ok (.double ⟨negative, 0⟩) else .error .malformed
    else
      let product := Double.mul code (Double.powerOfTen e.toNat)
      if product < Double.limit then .ok (.double ⟨negative, product⟩) else .error .malformed
  else
    let (small, k) := shrink ((-e).toNat / 308 + 1) code (-e).toNat
    if small == 0 then .ok (.double ⟨negative, 0⟩)
    else .ok (.double ⟨negative, Double.div small (Double.powerOfTen k)⟩)

private def clamp (e : Int) : Int := max (-0x80000000) (min 0x7FFFFFFF e)

/-- The exponent of a literal, from after its `e`. -/
def readExponent (negative : Bool) (value : Nat) (e : Int) (cs : List Char) :
    Except Fault (Json × List Char) :=
  let (down, cs) := match cs with
    | '+' :: rest => (false, rest)
    | '-' :: rest => (true, rest)
    | _ => (false, cs)
  match cs with
  | [] => .error .unfinished
  | c :: _ =>
    if !isDigit c then .error .malformed
    else
      let run := cs.takeWhile isDigit
      let rest := cs.dropWhile isDigit
      let size := run.foldl (fun n c => n * 10 + (digit? c).getD 0) 0
      if size ≤ 0x7FFFFFFF then
        (scale negative value (clamp (if down then e - size else e + size))).map (·, rest)
      else if value ≠ 0 && !down then .error .malformed
      else .ok (.double ⟨negative, 0⟩, rest)

private def isExponentMark (c : Char) : Bool := c == 'e' || c == 'E'

/-- A literal from behind its decimal point. -/
def readFraction (negative : Bool) (value : Nat) (e : Int) (cs : List Char) :
    Except Fault (Json × List Char) :=
  let run := digits value cs
  if run.taken = 0 && run.dropped = 0 then
    .error (if cs.isEmpty then .unfinished else .malformed)
  else
    let e := e - run.taken
    match run.rest with
    | c :: rest =>
      if isExponentMark c then readExponent negative run.value e rest
      else (scale negative run.value e).map (·, run.rest)
    | [] => (scale negative run.value e).map (·, [])

/-- A literal without fraction and exponent. A negative zero is a double. -/
def ofInteger (negative : Bool) (value : Nat) : Json :=
  if !negative then .int value
  else if 0 < value && value ≤ 0x8000000000000000 then .int (-value)
  else .double ⟨true, Double.ofNat value⟩

/-- A literal from behind its sign. -/
def read (negative : Bool) (cs : List Char) : Except Fault (Json × List Char) :=
  match cs with
  | [] => .error .unfinished
  | c :: cs =>
    match digit? c with
    | none => .error .malformed
    | some first =>
      let run : Digits := if first = 0 then ⟨0, 0, 0, cs⟩ else digits first cs
      let e : Int := run.dropped
      match run.rest with
      | [] => finish run
      | d :: rest =>
        if first = 0 && isDigit d then .error .malformed
        else if d = '.' then readFraction negative run.value e rest
        else if isExponentMark d then readExponent negative run.value e rest
        else finish run
where
  finish (run : Digits) : Except Fault (Json × List Char) :=
    if run.dropped = 0 then .ok (ofInteger negative run.value, run.rest)
    else (scale negative run.value run.dropped).map (·, run.rest)

end Number

end Patchbay.Json
