import Patchbay.Settings.Basic
import Patchbay.Text.Blank
import Patchbay.Warning

/-! Environment variables that override settings. An empty variable counts as unset, and
one that cannot be read is reported and ignored. -/

namespace Patchbay

abbrev Environment := String → Option String

namespace Environment

private def lower (c : Char) : Char := if 'A' ≤ c && c ≤ 'Z' then Char.ofNat (c.toNat + 32) else c

/-- On or off, in any spelling of ASCII letters. -/
def readSwitch (text : String) : Option Bool :=
  let word := String.ofList ((Text.trim text.toList).map lower)
  if ["1", "true", "on", "yes"].contains word then some true
  else if ["0", "false", "off", "no"].contains word then some false
  else none

private def digit? (c : Char) : Option Nat :=
  if '0' ≤ c && c ≤ '9' then some (c.toNat - '0'.toNat) else none

/-- A number of at most 64 bits in ASCII digits, with an optional plus sign. -/
def readWord (cs : List Char) : Option Nat :=
  let digits := match cs with
    | '+' :: rest => rest
    | _ => cs
  if digits.isEmpty then none
  else
    (digits.mapM digit?).bind fun ds =>
      let n := ds.foldl (fun n d => n * 10 + d) 0
      if n ≤ 0xFFFFFFFFFFFFFFFF then some n else none

def longestTimeout : Nat := 3600000

/-- Milliseconds, at least one and at most an hour. -/
def readTimeout (text : String) : Option Nat :=
  (readWord (Text.trim text.toList)).filter fun ms => 1 ≤ ms && ms ≤ longestTimeout

/-- A variable as read, and the warning when it was set but could not be read. -/
def value {α : Type} (env : Environment) (key : String) (read : String → Option α) :
    Option α × List Warning :=
  match (env key).filter (!·.isEmpty) with
  | none => (none, [])
  | some raw =>
    match read raw with
    | some a => (some a, [])
    | none => (none, [.unusableOverride key raw])

def warningsKey : String := "NSPWIRE_WARNINGS"
def timeoutKey : String := "NSPWIRE_EMIT_TIMEOUT_MS"
def originKey : String := "NSPWIRE_ORIGIN"

def override (env : Environment) (s : Settings) : Settings × List Warning :=
  let (warnings, w₁) := env.value warningsKey readSwitch
  let (timeout, w₂) := env.value timeoutKey readTimeout
  let (origin, w₃) := env.value originKey some
  ({ s with
      warnings := warnings.getD s.warnings
      emitTimeout := timeout <|> s.emitTimeout
      origin := origin.getD s.origin },
    w₁ ++ w₂ ++ w₃)

end Environment

end Patchbay
