import Motif.Text.Printable

/-!
# Quoted text

Text is shown between single quotes, or between double quotes when it holds a single quote and no
double one. Inside, the quote in use and the backslash are escaped, line breaks and tabs have short
escapes, and a code point that is not printable is written by its number in two, four or eight
hexadecimal digits.
-/

namespace Motif.Text

/-- A number in hexadecimal, padded with zeros to `width` digits. -/
def hexadecimal (width n : Nat) : List Char :=
  let digits := Nat.toDigits 16 n
  List.replicate (width - digits.length) '0' ++ digits

/-- The quote that a text is shown in. -/
def quoteFor (t : Text) : Char :=
  if t.contains (.char '\'') && !t.contains (.char '"') then '"' else '\''

/-- A code point by its number. -/
def showNumber (n : Nat) : List Char :=
  if n < 0x100 then '\\' :: 'x' :: hexadecimal 2 n
  else if n < 0x10000 then '\\' :: 'u' :: hexadecimal 4 n
  else '\\' :: 'U' :: hexadecimal 8 n

/-- A code point as it is shown between quotes. -/
def showPoint (quote : Char) : CodePoint → List Char
  | .char c =>
    if c = quote ∨ c = '\\' then ['\\', c]
    else if c = '\n' then ['\\', 'n']
    else if c = '\r' then ['\\', 'r']
    else if c = '\t' then ['\\', 't']
    else if isPrintable c then [c]
    else showNumber c.toNat
  | .surrogate index => showNumber (CodePoint.surrogate index).number

/-- A text as it is shown. -/
def quoted (t : Text) : String :=
  let quote := quoteFor t
  String.ofList (quote :: t.flatMap (showPoint quote) ++ [quote])

end Motif.Text
