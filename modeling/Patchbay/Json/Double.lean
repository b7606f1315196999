/-!
Finite binary64 numbers as a sign and a code. The code is the value's 63 bits below
the sign read as a natural number, so a larger magnitude has a larger code, and the
arithmetic that rounds to a code is exact arithmetic on natural numbers.
-/

namespace Patchbay

structure Double where
  negative : Bool
  code : Nat
deriving DecidableEq, Repr, Inhabited

namespace Double

/-- The weight of the exponent's lowest bit in a code, above the 52 bits of the fraction. -/
def unit : Nat := 0x10000000000000

/-- Codes from here on stand for no finite number. -/
def limit : Nat := 2047 * unit

/-- The magnitude of a code is `significand * 2 ^ exponent`. -/
def significand (code : Nat) : Nat :=
  if code < unit then code else code % unit + unit

def exponent (code : Nat) : Int :=
  if code < unit then -1074 else (code / unit : Nat) - 1075

def isZero (x : Double) : Bool := x.code == 0

/-- Equality of the numbers: both zeros are one number. -/
def same (x y : Double) : Bool := x.code == y.code && (x.negative == y.negative || x.code == 0)

/-- The quotient `num / den` in units of `2 ^ e`, to the nearest, a half to the even neighbour. -/
private def quotient (num den : Nat) (e : Int) : Nat :=
  let n := num <<< (-e).toNat
  let d := den <<< e.toNat
  let q := n / d
  let r := n % d
  if d < 2 * r || (2 * r == d && q % 2 == 1) then q + 1 else q

/-- The code nearest to `num / den`, possibly at or above `limit`. -/
def nearest (num den : Nat) : Nat :=
  if num = 0 then 0
  else
    let guess : Int := (num.log2 : Int) - den.log2 - 52
    let low := max guess (-1074)
    let e :=
      if num <<< (-low).toNat < (den <<< low.toNat) <<< 52 then max (low - 1) (-1074) else low
    (e + 1074).toNat <<< 52 + quotient num den e

/-- The number `m * 2 ^ e` as a fraction. -/
def fraction (m : Nat) (e : Int) : Nat × Nat := (m <<< e.toNat, 1 <<< (-e).toNat)

def ofNat (n : Nat) : Nat := nearest n 1

/-- The code of the rounded product. -/
def mul (a b : Nat) : Nat :=
  let (num, den) := fraction (significand a * significand b) (exponent a + exponent b)
  nearest num den

/-- The code of the rounded quotient of `a` by a `b` that is not zero. -/
def div (a b : Nat) : Nat :=
  let (num, den) := fraction (significand a) (exponent a - exponent b)
  nearest num (den * significand b)

/-- The code of `10 ^ k`. -/
def powerOfTen (k : Nat) : Nat := nearest (Nat.pow 10 k) 1

end Double

end Patchbay
