import Motif.Text.Digit
import Motif.Value.Equality

/-!
# Reading JSON

`Json.decode` reads one JSON document. A number with a fraction or an exponent is a binary number
and any other a whole one, which may not have too many digits; `NaN`, `Infinity` and `-Infinity` are
read as numbers too. Of equal keys in an object the first stands and the last value counts.

Readers take the characters that remain and give back what they read with the characters after it.
The first thing in the text that cannot be read decides the error.
-/

namespace Motif.Json

/-- Why a text cannot be read. -/
inductive ReadError where
  /-- The text is no JSON document. -/
  | malformed
  /-- A whole number has this many digits, which are too many. -/
  | tooManyDigits (count : Nat)
  deriving DecidableEq

/-- What was read, or that the text is malformed. -/
def orMalformed {α : Type} : Option α → Except ReadError α
  | some a => .ok a
  | none => .error .malformed

/-- The characters after blanks. -/
def skipBlanks (cs : List Char) : List Char :=
  cs.dropWhile fun c => c == ' ' || c == '\t' || c == '\n' || c == '\r'

/-! ### Strings -/

/-- Value of a hexadecimal digit. -/
def hexValue? (c : Char) : Option Nat :=
  if '0' ≤ c ∧ c ≤ '9' then some (c.toNat - '0'.toNat)
  else if 'a' ≤ c ∧ c ≤ 'f' then some (c.toNat - 'a'.toNat + 10)
  else if 'A' ≤ c ∧ c ≤ 'F' then some (c.toNat - 'A'.toNat + 10)
  else none

/-- Value of four hexadecimal digits. -/
def hexValue4? (a b c d : Char) : Option Nat := do
  return (((← hexValue? a) * 16 + (← hexValue? b)) * 16 + (← hexValue? c)) * 16 + (← hexValue? d)

/-- Number of the code point that a short escape stands for. -/
def escaped? : Char → Option Nat
  | '\"' => some 0x22
  | '\\' => some 0x5c
  | '/' => some 0x2f
  | 'b' => some 0x08
  | 'f' => some 0x0c
  | 'n' => some 0x0a
  | 'r' => some 0x0d
  | 't' => some 0x09
  | _ => none

/-- Numbers of the code points of a string up to its closing quote, where an escape gives one. -/
def readUnits : List Char → Option (List Nat × List Char)
  | '\"' :: cs => some ([], cs)
  | '\\' :: 'u' :: a :: b :: c :: d :: cs => do
    let unit ← hexValue4? a b c d
    let (units, rest) ← readUnits cs
    return (unit :: units, rest)
  | '\\' :: e :: cs => do
    let unit ← escaped? e
    let (units, rest) ← readUnits cs
    return (unit :: units, rest)
  | c :: cs => do
    if c.toNat < 0x20 then none
    else
      let (units, rest) ← readUnits cs
      return (c.toNat :: units, rest)
  | [] => none

/-- Whether a number is that of a surrogate that stands first in a pair. -/
def isHigh (unit : Nat) : Bool := 0xd800 ≤ unit && unit ≤ 0xdbff

/-- Whether a number is that of a surrogate that stands second in a pair. -/
def isLow (unit : Nat) : Bool := 0xdc00 ≤ unit && unit ≤ 0xdfff

/-- The text of numbers, surrogate pairs joined. A surrogate that has no partner stays alone. -/
def joinUnits : List Nat → Text
  | high :: low :: units =>
    if isHigh high && isLow low then
      .ofNumber (0x10000 + (high - 0xd800) * 0x400 + (low - 0xdc00)) :: joinUnits units
    else .ofNumber high :: joinUnits (low :: units)
  | [unit] => [.ofNumber unit]
  | [] => []

/-- A string after its opening quote. -/
def readString (cs : List Char) : Option (Text × List Char) := do
  let (units, rest) ← readUnits cs
  return (joinUnits units, rest)

/-! ### Numbers -/

/-- The longest run of digits, which may be empty. -/
def takeDigits (cs : List Char) : List Char × List Char :=
  (cs.takeWhile (·.isDigit), cs.dropWhile (·.isDigit))

/-- Value of a run of digits. -/
def digitsValue (digits : List Char) : Nat :=
  digits.foldl (fun n c => n * 10 + (c.toNat - '0'.toNat)) 0

/-- Digits of a whole part: a zero alone, or a run that does not start with one. -/
def readWhole : List Char → Option (List Char × List Char)
  | '0' :: cs => some (['0'], cs)
  | cs =>
    match takeDigits cs with
    | ([], _) => none
    | read => some read

/-- Digits after a point, if a point and a digit follow. -/
def readFraction? : List Char → Option (List Char × List Char)
  | '.' :: cs =>
    match takeDigits cs with
    | ([], _) => none
    | read => some read
  | _ => none

/-- An exponent, if one follows. -/
def readExponent? : List Char → Option (Int × List Char)
  | e :: cs =>
    if e = 'e' ∨ e = 'E' then
      let (negative, cs) := match cs with
        | '+' :: cs => (false, cs)
        | '-' :: cs => (true, cs)
        | cs => (false, cs)
      match takeDigits cs with
      | ([], _) => none
      | (digits, rest) =>
        let n : Int := digitsValue digits
        some (if negative then -n else n, rest)
    else none
  | [] => none

/-- A number after its sign. -/
def readNumber (negative : Bool) (cs : List Char) : Except ReadError (Value × List Char) := do
  let (whole, cs) ← orMalformed (readWhole cs)
  let fraction? := readFraction? cs
  let (fraction, cs) := fraction?.getD ([], cs)
  let exponent? := readExponent? cs
  let (exponent, rest) := exponent?.getD (0, cs)
  if fraction?.isNone && exponent?.isNone then
    if Text.maxDigits < whole.length then throw (.tooManyDigits whole.length)
    else
      let n : Int := digitsValue whole
      return (.int (if negative then -n else n), rest)
  else
    let digits := digitsValue (whole ++ fraction)
    return (.float (.ofDecimal negative digits (exponent - fraction.length)), rest)

/-- The characters after `word`, if they start with it. -/
def dropWord? (word : String) (cs : List Char) : Option (List Char) :=
  let w := word.toList
  if w.isPrefixOf cs then some (cs.drop w.length) else none

/-- A value that is written as a word or a number. -/
def readPlain (cs : List Char) : Except ReadError (Value × List Char) :=
  let words : List (String × Value) := [
    ("null", .null), ("true", .bool true), ("false", .bool false), ("NaN", .float .nan),
    ("Infinity", .float (.infinity false)), ("-Infinity", .float (.infinity true))]
  match words.findSome? fun (word, v) => (dropWord? word cs).map fun rest => (v, rest) with
  | some read => .ok read
  | none =>
    match cs with
    | '-' :: cs => readNumber true cs
    | cs => readNumber false cs

/-! ### Documents -/

mutual

/-- A value at the start of the characters. Every step reads a character or more, so fuel for each
of them is enough. -/
def readValue : (fuel : Nat) → List Char → Except ReadError (Value × List Char)
  | 0, _ => .error .malformed
  | fuel + 1, cs =>
    match cs with
    | '\"' :: cs => do
      let (s, rest) ← orMalformed (readString cs)
      return (.str s, rest)
    | '[' :: cs =>
      match skipBlanks cs with
      | ']' :: rest => .ok (.list [], rest)
      | cs => do
        let (items, rest) ← readItems fuel cs
        return (.list items, rest)
    | '\x7b' :: cs =>
      match skipBlanks cs with
      | '\x7d' :: rest => .ok (.dict [], rest)
      | cs => do
        let (entries, rest) ← readMembers fuel cs
        return (Value.ofEntries entries, rest)
    | cs => readPlain cs

/-- The items of a list from one of them to the closing bracket. -/
def readItems : (fuel : Nat) → List Char → Except ReadError (List Value × List Char)
  | 0, _ => .error .malformed
  | fuel + 1, cs => do
    let (item, cs) ← readValue fuel cs
    match skipBlanks cs with
    | ',' :: cs =>
      let (items, rest) ← readItems fuel (skipBlanks cs)
      return (item :: items, rest)
    | ']' :: rest => return ([item], rest)
    | _ => throw .malformed

/-- The members of an object from one of them to the closing brace. -/
def readMembers : (fuel : Nat) → List Char → Except ReadError (List (Value × Value) × List Char)
  | 0, _ => .error .malformed
  | fuel + 1, cs =>
    match cs with
    | '\"' :: cs => do
      let (key, cs) ← orMalformed (readString cs)
      match skipBlanks cs with
      | ':' :: cs =>
        let (v, cs) ← readValue fuel (skipBlanks cs)
        match skipBlanks cs with
        | ',' :: cs =>
          let (entries, rest) ← readMembers fuel (skipBlanks cs)
          return ((.str key, v) :: entries, rest)
        | '\x7d' :: rest => return ([(.str key, v)], rest)
        | _ => throw .malformed
      | _ => throw .malformed
    | _ => .error .malformed

end

/-- Reads a document: one value with nothing but blanks around it. -/
def decode (text : List Char) : Except ReadError Value := do
  let (v, rest) ← readValue (text.length + 1) (skipBlanks text)
  if (skipBlanks rest).isEmpty then return v else throw .malformed

end Motif.Json
