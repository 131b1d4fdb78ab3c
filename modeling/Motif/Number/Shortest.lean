import Motif.Number.Binary64

/-!
# Shortest decimal text of a binary number

A finite binary number is written with the fewest significant digits that read back as the same
number, and among those with the decimal nearest to it. The decimals that read back form an
interval around the number; `Binary64.shortest` looks at the number's two neighbours on each decimal
grid, coarse grids first.
-/

namespace Motif.Binary64

/-- A decimal `digits * 10 ^ exponent`. -/
structure Decimal where
  digits : Nat
  exponent : Int
  deriving DecidableEq

/-- Compares `c * 10 ^ g` with `b * 2 ^ e` by clearing both denominators: the two results stand in
the same order as the two products. -/
def scaled (c : Nat) (g : Int) (b : Nat) (e : Int) : Nat × Nat :=
  (c * Nat.pow 10 g.toNat * Nat.pow 2 (-e).toNat, b * Nat.pow 2 e.toNat * Nat.pow 10 (-g).toNat)

/-- Whether the decimal `c * 10 ^ g` rounds to `m * 2 ^ e`. Below a power of two the next number is
only half as far away; the ends of the interval belong to it when the significand is even. -/
def readsBack (m : Nat) (e : Int) (c : Nat) (g : Int) : Bool :=
  let low := if m = Nat.pow 2 52 ∧ minExponent < e then 4 * m - 1 else 4 * m - 2
  let (x, lo) := scaled c g low (e - 2)
  let (y, hi) := scaled c g (4 * m + 2) (e - 2)
  if m % 2 = 0 then lo ≤ x && y ≤ hi else lo < x && y < hi

/-- Number of decimal digits before the point of `m * 2 ^ e`, or less the zeros after it. -/
def magnitude (m : Nat) (e : Int) : Int :=
  let scaledUp := m * Nat.pow 10 350 * Nat.pow 2 e.toNat / Nat.pow 2 (-e).toNat
  ((Nat.toDigits 10 scaledUp).length : Int) - 350

/-- `m * 2 ^ e` as a quotient in units of `10 ^ g`. -/
def inUnits (m : Nat) (e g : Int) : Nat × Nat :=
  (m * Nat.pow 2 e.toNat * Nat.pow 10 (-g).toNat, Nat.pow 2 (-e).toNat * Nat.pow 10 g.toNat)

/-- The neighbour of `m * 2 ^ e` on the grid of multiples of `10 ^ g` that reads back; of two the
nearer one, and the even one when they are equally near. -/
def onGrid? (m : Nat) (e g : Int) : Option Nat :=
  let (num, den) := inUnits m e g
  let below := num / den
  match readsBack m e below g, readsBack m e (below + 1) g with
  | true, true => some (roundDiv num den)
  | true, false => some below
  | false, true => some (below + 1)
  | false, false => none

/-- The shortest decimal that reads back as `m * 2 ^ e`. The grids give one to seventeen digits;
on the last one the nearest decimal always reads back. -/
def shortest (m : Nat) (e : Int) : Decimal :=
  let top := magnitude m e
  let grid (n : Nat) : Int := top - 1 - n
  let found := (List.range 17).findSome? fun n => (onGrid? m e (grid n)).map (Decimal.mk · (grid n))
  let (num, den) := inUnits m e (grid 16)
  found.getD ⟨roundDiv num den, grid 16⟩

/-- Significant digits of a decimal, without trailing zeros, and the place of the point before
which its first digit stands. -/
def Decimal.layout (d : Decimal) : List Char × Int :=
  let digits := Nat.toDigits 10 d.digits
  (((digits.reverse.dropWhile (· == '0')).reverse), digits.length + d.exponent)

/-- Exponent of a decimal in scientific form: a sign and at least two digits. -/
def exponentText (n : Int) : String :=
  let digits := toString n.natAbs
  (if n < 0 then "e-" else "e+") ++ (if n.natAbs < 10 then "0" ++ digits else digits)

/-- Digits with a point after the first `point` of them: positional when the first digit's exponent
is from -4 to 15, with at least one digit on either side, and scientific otherwise. -/
def positional (digits : List Char) (point : Int) : String :=
  let n : Int := digits.length
  if -4 < point ∧ point ≤ 16 then
    if point ≤ 0 then
      "0." ++ String.ofList (List.replicate (-point).toNat '0' ++ digits)
    else if n ≤ point then
      String.ofList (digits ++ List.replicate (point - n).toNat '0') ++ ".0"
    else
      String.ofList (digits.take point.toNat) ++ "." ++ String.ofList (digits.drop point.toNat)
  else
    let tail := digits.drop 1
    String.ofList (digits.take 1) ++ (if tail.isEmpty then "" else "." ++ String.ofList tail)
      ++ exponentText (point - 1)

/-- Text of a binary number. -/
def text : Binary64 → String
  | .nan => "nan"
  | .infinity s => if s then "-inf" else "inf"
  | .finite s m e =>
    let sign := if s then "-" else ""
    if m = 0 then sign ++ "0.0"
    else
      let (digits, point) := (shortest m e).layout
      sign ++ positional digits point

end Motif.Binary64
