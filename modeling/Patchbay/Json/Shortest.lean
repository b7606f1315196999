import Patchbay.Json.Double

/-!
The decimal text of a double has the fewest digits that round back to it, and of
those the nearest to it. `shortest` tries grids of one, two, … seventeen digits; on
each grid only the two neighbours of the value can round back.
-/

namespace Patchbay.Double

/-- A decimal stands for `digits * 10 ^ exponent`. -/
structure Decimal where
  digits : Nat
  exponent : Int
deriving DecidableEq, Repr

/-- The numbers that round to a code, as multiples of `1 / den`. -/
structure Interval where
  lower : Nat
  value : Nat
  upper : Nat
  den : Nat
  closed : Bool

/-- Below a power of two the next smaller double is half as far away. -/
def interval (code : Nat) : Interval :=
  let m := significand code
  let e := exponent code - 2
  let half := m == unit && decide (-1074 < exponent code)
  let scale := 1 <<< e.toNat
  { lower := (if half then 4 * m - 1 else 4 * m - 2) * scale
    value := 4 * m * scale
    upper := (4 * m + 2) * scale
    den := 1 <<< (-e).toNat
    closed := m % 2 == 0 }

/-- The point of the grid of step `10 ^ k` that is nearest to the value, if it or its
neighbour on the other side of the value rounds back. -/
def onGrid (i : Interval) (k : Int) : Option Nat :=
  let up := Nat.pow 10 (-k).toNat
  let step := i.den * Nat.pow 10 k.toNat
  let v := i.value * up
  let within (d : Nat) : Bool :=
    if i.closed then i.lower * up ≤ d * step && d * step ≤ i.upper * up
    else i.lower * up < d * step && d * step < i.upper * up
  let below := v / step
  let above := below + 1
  let down := v - below * step
  let rise := above * step - v
  let nearer := if down < rise || (down == rise && below % 2 == 0) then below else above
  let other := if nearer == below then above else below
  if within nearer then some nearer else if within other then some other else none

/-- The least `p` with `num / den < 10 ^ p`, for a positive fraction. -/
def magnitude (num den : Nat) : Int :=
  if den ≤ num then ((Nat.toDigits 10 (num / den)).length : Nat)
  else
    let rec zeros : Nat → Nat → Nat
      | 0, _ => 0
      | fuel + 1, n => if den ≤ n then 0 else 1 + zeros fuel (n * 10)
    1 - (zeros 400 num : Nat)

def stripZeros : Nat → Decimal → Decimal
  | 0, d => d
  | fuel + 1, d =>
    if d.digits % 10 == 0 then stripZeros fuel ⟨d.digits / 10, d.exponent + 1⟩ else d

/-- The shortest decimal that rounds back to the code of a positive double. -/
def shortest (code : Nat) : Decimal :=
  let i := interval code
  let p := magnitude i.value i.den
  let hit := (List.range 17).findSome? fun n =>
    let k := p - 1 - (n : Nat)
    (onGrid i k).map fun d => (⟨d, k⟩ : Decimal)
  stripZeros 17 (hit.getD ⟨i.value / i.den, 0⟩)

private def zeros (n : Nat) : String := String.ofList (List.replicate n '0')

/-- An exponent with its sign, a plus included, and without leading zeros. -/
def exponentText (e : Int) : String := (if 0 ≤ e then "e+" else "e") ++ toString e

/-- Positional from `1e-5` up to `1e16`, with a fraction part always written; an
exponent outside. -/
def text (x : Double) : String :=
  let sign := if x.negative then "-" else ""
  if x.code = 0 then sign ++ "0.0"
  else
    let d := shortest x.code
    let digits := toString d.digits
    let length := digits.length
    let point : Int := length + d.exponent
    if 0 ≤ d.exponent && point ≤ 16 then sign ++ digits ++ zeros d.exponent.toNat ++ ".0"
    else if 0 < point && point ≤ 16 then
      sign ++ (digits.take point.toNat).toString ++ "." ++ (digits.drop point.toNat).toString
    else if -5 < point && point ≤ 0 then sign ++ "0." ++ zeros (-point).toNat ++ digits
    else if length = 1 then sign ++ digits ++ exponentText (point - 1)
    else
      sign ++ (digits.take 1).toString ++ "." ++ (digits.drop 1).toString ++
        exponentText (point - 1)

end Patchbay.Double
