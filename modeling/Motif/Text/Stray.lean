import Motif.Text.Quoted

/-!
# Stray surrogates

A text with surrogates in it cannot be put into a file. What is reported then is the first of them
and those that follow it without a gap.
-/

namespace Motif.Text

/-- Surrogates in a row, which stand in a text from `position` on. -/
structure Stray where
  position : Nat
  run : Text

/-- Wording of a report on stray surrogates. -/
def Stray.message (s : Stray) : String :=
  let place := match s.run with
    | [c] => "character " ++ quoted [c] ++ " in position " ++ toString s.position
    | run =>
      "characters in position " ++ toString s.position ++ "-" ++
        toString (s.position + run.length - 1)
  "'utf-8' codec can't encode " ++ place ++ ": surrogates not allowed"

/-- The first surrogates of a text that are not `spared`. -/
def stray? (spared : CodePoint → Bool) (t : Text) : Option Stray :=
  (t.findIdx? fun c => c.isSurrogate && !spared c).map fun position =>
    ⟨position, (t.drop position).takeWhile CodePoint.isSurrogate⟩

/-- The string that a text is, or what keeps it from being one. -/
def encode (t : Text) : Except Stray String :=
  match t.stray? fun _ => false with
  | some s => .error s
  | none => .ok t.shown

end Motif.Text
