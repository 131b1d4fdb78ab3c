import Motif.Text
import Motif.Text.Blank
import Motif.Text.Digit

/-!
# Whole numbers as people type them

A whole number may have white space around it, a sign in front, and single underscores between its
digits, which may be those of any script.
-/

namespace Motif.Text

/-- Value of the digits that follow, given the value of those before. An underscore needs a digit on
either side. -/
def readDigits (value : Nat) : List Char → Option Nat
  | [] => some value
  | '_' :: c :: cs =>
    match digitValue? c with
    | some d => readDigits (value * 10 + d) cs
    | none => none
  | c :: cs =>
    match digitValue? c with
    | some d => readDigits (value * 10 + d) cs
    | none => none

/-- Value of a number without sign. Digits beyond the most that a number may have are refused,
zeros in front included. -/
def readNatural : List Char → Option Nat
  | [] => none
  | c :: cs =>
    if maxDigits < (c :: cs).countP (digitValue? · |>.isSome) then none
    else
      match digitValue? c with
      | some d => readDigits d cs
      | none => none

/-- White space that may stand around a number: all but the information separators. -/
def isPadding (c : Char) : Bool := isBlank c && !(0x1c ≤ c.toNat && c.toNat ≤ 0x1f)

/-- Reads a whole number from characters. -/
def readSigned (cs : List Char) : Option Int :=
  match ((cs.dropWhile isPadding).reverse.dropWhile isPadding).reverse with
  | '-' :: cs => (readNatural cs).map fun n => -(n : Int)
  | '+' :: cs => (readNatural cs).map fun n => (n : Int)
  | cs => (readNatural cs).map fun n => (n : Int)

/-- Reads a whole number. -/
def readInteger (t : Text) : Option Int := t.chars?.bind readSigned

end Motif.Text
