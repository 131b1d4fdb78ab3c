/-!
# Binary floating-point numbers

The numbers of the 64-bit binary interchange format, kept as sign, significand and exponent so that
every question about them is one of whole-number arithmetic. `Binary64.ofRatio` rounds a quotient to
the nearest such number, ties to the even significand; `Quantity` is what a number stands for, and
makes numbers of different formats comparable.
-/

namespace Motif

/-- A number of the 64-bit binary format. A finite one is `significand * 2 ^ exponent` with its
sign, where the significand stays below `2 ^ 53` and the exponent within `-1074 … 971`. -/
inductive Binary64 where
  | nan
  | infinity (negative : Bool)
  | finite (negative : Bool) (significand : Nat) (exponent : Int)
  deriving DecidableEq, Inhabited

/-- What a number stands for. A dyadic rational has one representation, so two numbers are equal
exactly when their quantities are. -/
inductive Quantity where
  | nan
  | infinity (negative : Bool)
  | exact (value : Dyadic)
  deriving DecidableEq

namespace Quantity

/-- Quantity of a whole number. -/
def ofInt (n : Int) : Quantity := .exact (.ofInt n)

/-- Strict order of quantities; nothing is above or below `nan`. -/
def less : Quantity → Quantity → Bool
  | .nan, _ | _, .nan => false
  | .infinity a, .infinity b => a && !b
  | .infinity a, .exact _ => a
  | .exact _, .infinity b => !b
  | .exact x, .exact y => decide (x < y)

end Quantity

namespace Binary64

/-- Least exponent of a finite number. -/
def minExponent : Int := -1074

/-- Greatest exponent of a finite number. -/
def maxExponent : Int := 971

/-- The number zero with a sign. -/
def zero (negative : Bool) : Binary64 := .finite negative 0 minExponent

/-- The quantity that a binary number stands for; both zeros stand for the same one. -/
def quantity : Binary64 → Quantity
  | .nan => .nan
  | .infinity s => .infinity s
  | .finite s m e => .exact (.ofIntWithPrec (if s then -(m : Int) else m) (-e))

/-- Whether a number is one of the two zeros. -/
def isZero : Binary64 → Bool
  | .finite _ m _ => m == 0
  | _ => false

/-- Quotient rounded to the nearest whole number, a half to the even one. -/
def roundDiv (num den : Nat) : Nat :=
  let q := num / den
  let twice := 2 * (num % den)
  if twice < den ∨ (twice = den ∧ q % 2 = 0) then q else q + 1

/-- The binary number nearest to `num / den`, of two equally near the one with even significand;
infinite when the quotient lies beyond the greatest finite number. -/
def ofRatio (negative : Bool) (num den : Nat) : Binary64 :=
  if num = 0 then zero negative
  else
    let numAt (e : Int) := num * Nat.pow 2 (-e).toNat
    let denAt (e : Int) := den * Nat.pow 2 e.toNat
    let low := max minExponent ((num.log2 : Int) - den.log2 - 53)
    let e := if numAt low / denAt low < Nat.pow 2 53 then low else low + 1
    let m := roundDiv (numAt e) (denAt e)
    let (m, e) := if m = Nat.pow 2 53 then (Nat.pow 2 52, e + 1) else (m, e)
    if maxExponent < e then .infinity negative else .finite negative m e

/-- The binary number nearest to the decimal `digits * 10 ^ exponent`. The two early answers spare
the arithmetic on exponents far outside the format. -/
def ofDecimal (negative : Bool) (digits : Nat) (exponent : Int) : Binary64 :=
  if digits = 0 then zero negative
  else
    let magnitude := exponent + (Nat.toDigits 10 digits).length
    if magnitude > 310 then .infinity negative
    else if magnitude < -330 then zero negative
    else ofRatio negative (digits * Nat.pow 10 exponent.toNat) (Nat.pow 10 (-exponent).toNat)

end Binary64

end Motif
