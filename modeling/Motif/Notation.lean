import Motif.Literal
import Motif.Value.Equality

/-!
# Pattern notation

How patterns are written in JSON. A list is a list pattern, `"..."` is unbound filler and any other
plain value stands for itself. An object is a tagged pattern: exactly one of its keys is a tag, and
the tag says which other keys may stand beside it. Under `const` anything may stand; it is not
looked into.

The notation is translated into a pattern literal, which may in turn be compiled.
-/

namespace Motif

namespace Notation

/-- Keys that say what an object stands for. -/
inductive Tag where
  | var
  | segment
  | ref
  | choose
  | letrec
  | const
  deriving DecidableEq

namespace Tag

/-- All tags. -/
def all : List Tag := [.var, .segment, .ref, .choose, .letrec, .const]

/-- Name of a tag. -/
def name : Tag → String
  | .var => "var"
  | .segment => "segment"
  | .ref => "ref"
  | .choose => "choose"
  | .letrec => "letrec"
  | .const => "const"

/-- Keys that an object with a tag may have, the tag included. -/
def keys : Tag → List Text
  | .var => ["var", "where"]
  | .segment => ["segment", "exact", "where"]
  | .ref => ["ref"]
  | .choose => ["choose"]
  | .letrec => ["letrec", "body"]
  | .const => ["const"]

end Tag

/-- Why a text in the notation stands for no pattern. -/
inductive Error where
  /-- An object with no tag or with several. -/
  | unreadable (keys : List Text)
  /-- Keys that do not belong beside a tag. -/
  | foreignKeys (tag : Tag) (keys : List Text)
  /-- Something other than a non-empty text where a name belongs. -/
  | nameless (tag : Tag) (got : Value)
  /-- Something other than the name of a restriction where one belongs. -/
  | unknownRestriction (got : Value)
  /-- Alternatives that are no list. -/
  | alternativesNotListed
  /-- Rules that are no object, or no body beside them. -/
  | rulesNotGiven
  /-- A list or an object where the name of a restriction belongs. It cannot even be looked up,
  which is no fault of the pattern but ends the work at once. -/
  | unhashableRestriction (got : Value)

/-- Texts as a list of quoted texts. -/
def listed (keys : List Text) : String := Text.bracketed (keys.map Text.quoted)

/-- Wording of an error. -/
def Error.message : Error → String
  | .unreadable keys => "cannot interpret pattern object with keys " ++ listed keys
  | .foreignKeys tag keys =>
    "unexpected keys for " ++ Text.quoted tag.name ++ " pattern: " ++ listed keys
  | .nameless tag got =>
    Text.quoted tag.name ++ " needs a non-empty name, got " ++ got.text
  | .unknownRestriction got =>
    "unknown restriction " ++ got.text ++ " (expected one of "
      ++ ", ".intercalate (Restriction.registry.map Restriction.name) ++ ")"
  | .alternativesNotListed => "'choose' expects a list of alternatives"
  | .rulesNotGiven => "'letrec' expects an object of rules and a 'body'"
  | .unhashableRestriction got =>
    "unhashable type: " ++ Text.quoted (match got with | .dict _ => "dict" | _ => "list")

/-- Whether an error lies in the pattern, as all but one do. -/
def Error.ofPattern : Error → Bool
  | .unhashableRestriction _ => false
  | _ => true

/-- Textual keys of an object in order. -/
def textKeys (entries : List (Value × Value)) : List Text :=
  entries.filterMap fun
    | (.str key, _) => some key
    | _ => none

/-- The one tag of an object, if no foreign keys stand beside it. -/
def tagOf (entries : List (Value × Value)) : Except Error Tag :=
  let keys := textKeys entries
  match Tag.all.filter fun tag => keys.contains tag.name with
  | [tag] =>
    match keys.filter fun key => !tag.keys.contains key with
    | [] => .ok tag
    | foreign => .error (.foreignKeys tag (Text.sortedNames foreign))
  | _ => .error (.unreadable (Text.sortedNames keys))

/-- The name that stands under a tag. -/
def nameUnder (tag : Tag) (entries : List (Value × Value)) : Except Error Text :=
  match (Value.lookupKey tag.name entries).getD .null with
  | .str name => if name = "" then .error (.nameless tag (.str name)) else .ok name
  | got => .error (.nameless tag got)

/-- The restriction of a variable, none if nothing stands for it. -/
def restrictionOf (entries : List (Value × Value)) : Except Error (Option Restriction) :=
  match (Value.lookupKey "where" entries).getD .null with
  | .null => .ok none
  | .str name =>
    match Restriction.ofName? name with
    | some r => .ok (some r)
    | none => .error (.unknownRestriction (.str name))
  | .seq shape items => .error (.unhashableRestriction (.seq shape items))
  | .dict items => .error (.unhashableRestriction (.dict items))
  | got => .error (.unknownRestriction got)

/-- A variable for one item. -/
def elementOf (entries : List (Value × Value)) : Except Error Value := do
  let name ← nameUnder .var entries
  let only ← restrictionOf entries
  return .matcher (.element name only)

/-- A variable for a run of items. -/
def segmentOf (entries : List (Value × Value)) : Except Error Value := do
  let name ← nameUnder .segment entries
  let only ← restrictionOf entries
  if ((Value.lookupKey "exact" entries).getD .null).truthy then
    return .matcher (.segmentExact name only)
  else
    return .matcher (.segment name only)

/-- A reference to a rule. -/
def referenceOf (entries : List (Value × Value)) : Except Error Value := do
  return .matcher (.reference (← nameUnder .ref entries))

mutual

/-- The pattern literal that a decoded JSON value stands for. -/
def translate : Value → Except Error Value
  | .str s => .ok (if s = "..." then .rest else .str s)
  | .seq .list items => .list <$> translateItems items
  | .dict entries => do
    match ← tagOf entries with
    | .const => .ok ((Value.lookupKey "const" entries).getD .null)
    | .var => elementOf entries
    | .segment => segmentOf entries
    | .ref => referenceOf entries
    | .choose => Value.chooseLiteral <$> alternativesIn entries
    | .letrec =>
      if (textKeys entries).contains "body" then do
        let rules ← rulesIn entries
        return .letrecLiteral rules (← bodyIn entries)
      else .error .rulesNotGiven
  | node => .ok node

/-- Literals of a list in order. -/
def translateItems : List Value → Except Error (List Value)
  | [] => .ok []
  | node :: nodes => do
    let literal ← translate node
    return literal :: (← translateItems nodes)

/-- Literals of an object's rules in order. -/
def translateRules : List (Value × Value) → Except Error (List (Value × Value))
  | [] => .ok []
  | (name, node) :: entries => do
    let literal ← translate node
    return (name, literal) :: (← translateRules entries)

/-- Literals of the alternatives that an object lists. -/
def alternativesIn : List (Value × Value) → Except Error (List Value)
  | [] => .error .alternativesNotListed
  | (.str key, .seq .list nodes) :: entries =>
    if key = "choose" then translateItems nodes else alternativesIn entries
  | (.str key, _) :: entries =>
    if key = "choose" then .error .alternativesNotListed else alternativesIn entries
  | _ :: entries => alternativesIn entries

/-- Literals of the rules that an object holds. -/
def rulesIn : List (Value × Value) → Except Error (List (Value × Value))
  | [] => .error .rulesNotGiven
  | (.str key, .dict rules) :: entries =>
    if key = "letrec" then translateRules rules else rulesIn entries
  | (.str key, _) :: entries =>
    if key = "letrec" then .error .rulesNotGiven else rulesIn entries
  | _ :: entries => rulesIn entries

/-- Literal of the body that an object holds. -/
def bodyIn : List (Value × Value) → Except Error Value
  | [] => .error .rulesNotGiven
  | (.str key, node) :: entries => if key = "body" then translate node else bodyIn entries
  | _ :: entries => bodyIn entries

end

end Notation

end Motif
