/-!
# Text

Text is a list of code points. Nearly all of them are characters. The others are surrogates, which
stand for characters in pairs; but each of them can also be written alone, and then a text holds
what no string can. A text without surrogates is as good as a string.
-/

namespace Motif

/-! ### Code points -/

/-- A code point: a character, or one of the surrogates, counted from the first. -/
inductive CodePoint where
  | char (c : Char)
  | surrogate (index : Fin 0x800)
  deriving DecidableEq, Inhabited

namespace CodePoint

instance : Coe Char CodePoint := ⟨.char⟩

/-- Number of the first surrogate. The others follow, and no character is among them. -/
def firstSurrogate : Nat := 0xd800

/-- Number of a code point. -/
def number : CodePoint → Nat
  | .char c => c.toNat
  | .surrogate index => firstSurrogate + index

/-- Code points are ordered by their numbers. -/
instance : LT CodePoint := ⟨fun a b => a.number < b.number⟩

instance (a b : CodePoint) : Decidable (a < b) :=
  inferInstanceAs (Decidable (a.number < b.number))

/-- The code point of a number. -/
def ofNumber (n : Nat) : CodePoint :=
  if h : firstSurrogate ≤ n ∧ n < firstSurrogate + 0x800 then
    .surrogate ⟨n - firstSurrogate, by omega⟩
  else .char (Char.ofNat n)

/-- The character that a code point is. -/
def char? : CodePoint → Option Char
  | .char c => some c
  | .surrogate _ => none

/-- Whether a code point is a surrogate. -/
def isSurrogate : CodePoint → Bool
  | .char _ => false
  | .surrogate _ => true

end CodePoint

/-! ### Texts -/

/-- Code points in a row. -/
abbrev Text := List CodePoint

namespace Text

/-- The text of some characters. -/
def ofChars (cs : List Char) : Text := cs.map .char

/-- The text of a string. -/
def ofString (s : String) : Text := ofChars s.toList

instance : Coe String Text := ⟨ofString⟩

/-- The characters of a text without surrogates. -/
def chars? (t : Text) : Option (List Char) := t.mapM CodePoint.char?

/-- The string that a text without surrogates is. -/
def toString? (t : Text) : Option String := t.chars?.map String.ofList

/-- The string that a text is where every surrogate is replaced. -/
def shown (t : Text) : String := String.ofList (t.map fun c => c.char?.getD '\ufffd')

@[simp] theorem chars?_ofChars (cs : List Char) : (ofChars cs).chars? = some cs := by
  induction cs with
  | nil => rfl
  | cons c cs ih =>
    simp only [ofChars, chars?, List.map_cons, List.mapM_cons] at ih ⊢
    rw [ih]
    rfl

@[simp] theorem toString?_ofString (s : String) : (ofString s).toString? = some s := by
  simp [toString?, ofString]

/-- Texts with a separator between them. -/
def separated (separator : Text) (texts : List Text) : Text := separator.intercalate texts

/-- The parts of a list between the places where `separator` stands. -/
def divide {α : Type} [DecidableEq α] (separator : α) : List α → List (List α)
  | [] => [[]]
  | a :: as =>
    if a = separator then [] :: divide separator as
    else
      match divide separator as with
      | part :: parts => (a :: part) :: parts
      | [] => [[a]]

end Text

end Motif
