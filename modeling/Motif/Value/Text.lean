import Motif.Number.Shortest
import Motif.Text.Quoted
import Motif.Value

/-!
# Text of values and matchers

Lists stand in brackets, tuples in parentheses with a comma after a single item, dictionaries in
braces; a matcher is shown as its kind with named parts.
-/

namespace Motif

namespace Restriction

/-- Name of a restriction. -/
def name : Restriction → String
  | .string => "string"
  | .number => "number"
  | .integer => "integer"
  | .boolean => "boolean"
  | .list => "list"
  | .scalar => "scalar"
  | .custom called => called

/-- The restrictions of the registry in the order of their names. -/
def registry : List Restriction := [.boolean, .integer, .list, .number, .scalar, .string]

/-- The restriction of the registry with a given name. -/
def ofName? (name : Text) : Option Restriction :=
  registry.find? fun r => Text.ofString r.name == name

/-- Text of a restriction where there may be one. -/
def text : Option Restriction → String
  | none => "None"
  | some r => "<restriction " ++ r.name ++ ">"

end Restriction

/-- Name of a form. -/
def Form.name : Form → String
  | .letrec => "LETREC"
  | .choose => "CHOOSE"

/-- Name of a matcher's type. -/
def Matcher.typeName : Matcher → String
  | .constant _ => "Constant"
  | .element .. => "Element"
  | .segment .. => "Segment"
  | .segmentExact .. => "SegmentExact"
  | .rest => "Rest"
  | .array _ => "Array"
  | .choice _ => "Choice"
  | .reference _ => "Reference"
  | .letrec .. => "Letrec"
  | .abstract _ => "Matcher"

namespace Text

/-- Texts in brackets, separated by commas. -/
def bracketed (texts : List String) : String := "[" ++ ", ".intercalate texts ++ "]"

/-- Texts in parentheses, separated by commas; a single one is followed by a comma. -/
def parenthesised : List String → String
  | [text] => "(" ++ text ++ ",)"
  | texts => "(" ++ ", ".intercalate texts ++ ")"

/-- Texts in braces, separated by commas. -/
def braced (texts : List String) : String := "\x7b" ++ ", ".intercalate texts ++ "\x7d"

/-- Text of a variable's name and restriction. -/
def variableParts (name : Text) (only : Option Restriction) : String :=
  "(name=" ++ quoted name ++ ", restriction=" ++ Restriction.text only ++ ")"

end Text

mutual

/-- Text of a value. -/
def Value.text : Value → String
  | .null => "None"
  | .bool b => if b then "True" else "False"
  | .int n => toString n
  | .float x => x.text
  | .str s => Text.quoted s
  | .seq .list items => Text.bracketed (textsOf items)
  | .seq .tuple items => Text.parenthesised (textsOf items)
  | .dict entries => Text.braced (entryTexts entries)
  | .rest => "Ellipsis"
  | .form f => "Form." ++ f.name
  | .matcher m => m.text

/-- Texts of values in order. -/
def textsOf : List Value → List String
  | [] => []
  | v :: vs => v.text :: textsOf vs

/-- Texts of dictionary entries in order. -/
def entryTexts : List (Value × Value) → List String
  | [] => []
  | (k, v) :: entries => (k.text ++ ": " ++ v.text) :: entryTexts entries

/-- Text of a matcher. -/
def Matcher.text : Matcher → String
  | .constant value => "Constant(value=" ++ value.text ++ ")"
  | .element name only => "Element" ++ Text.variableParts name only
  | .segment name only => "Segment" ++ Text.variableParts name only
  | .segmentExact name only => "SegmentExact" ++ Text.variableParts name only
  | .rest => "Rest()"
  | .array elements => "Array(elements=" ++ Text.parenthesised (matcherTexts elements) ++ ")"
  | .choice alternatives =>
    "Choice(alternatives=" ++ Text.parenthesised (matcherTexts alternatives) ++ ")"
  | .reference name => "Reference(name=" ++ Text.quoted name ++ ")"
  | .letrec rules body =>
    "Letrec(rules=" ++ Text.parenthesised (ruleTexts rules) ++ ", body=" ++ body.text ++ ")"
  | .abstract _ => "Matcher()"

/-- Texts of matchers in order. -/
def matcherTexts : List Matcher → List String
  | [] => []
  | m :: ms => m.text :: matcherTexts ms

/-- Texts of rules in order, each a pair of name and matcher. -/
def ruleTexts : List (Value × Matcher) → List String
  | [] => []
  | (name, m) :: rules => Text.parenthesised [name.text, m.text] :: ruleTexts rules

end

end Motif
