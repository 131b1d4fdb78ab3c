import Motif.Text.Order
import Motif.Value.Text

/-!
# Pattern literals

Patterns are written as plain values. A matcher stands for itself and `Value.rest` for unbound
filler; a list or tuple stands for an array of what its items stand for, unless a form tag comes
first: then the rest are the alternatives of a choice, or the rules and the body of a letrec. Any
other value stands for itself, matched by equality.

The rules of a letrec are given either as one dictionary from names to literals or as pairs of a
name and a literal; the body comes last.
-/

namespace Motif

/-- What a literal is read as. -/
inductive LiteralKind where
  | scalar
  | matcher
  | list
  | rest
  | letrec
  | choose
  deriving DecidableEq

/-- Name of a literal kind. -/
def LiteralKind.name : LiteralKind → String
  | .scalar => "scalar"
  | .matcher => "matcher"
  | .list => "list"
  | .rest => "rest"
  | .letrec => "letrec"
  | .choose => "choose"

/-- Why a literal stands for no matcher. -/
inductive LiteralError where
  /-- A letrec form without a body. -/
  | noBody
  /-- An entry among the rules that is no pair of a name and a literal. -/
  | notARule (entry : Value)
  /-- Names that several rules have, in order. -/
  | repeatedRules (names : List Text)

/-- Wording of a literal error. -/
def LiteralError.message : LiteralError → Text
  | .noBody => "letrec form needs a body pattern"
  | .notARule entry => "letrec rule must be a (name, pattern) pair, got " ++ entry.text
  | .repeatedRules names =>
    Text.ofString "letrec rules defined more than once: " ++ Text.separated ", " names

namespace Value

/-- The literal of a letrec whose rules are given as pairs. -/
def letrecLiteral (rules : List (Value × Value)) (body : Value) : Value :=
  .list (.form .letrec :: (rules.map fun (name, literal) => .tuple [name, literal]) ++ [body])

/-- The literal of a choice. -/
def chooseLiteral (alternatives : List Value) : Value := .list (.form .choose :: alternatives)

/-- What a literal is read as. -/
def literalKind : Value → LiteralKind
  | .matcher _ => .matcher
  | .rest => .rest
  | .seq _ (.form .letrec :: _) => .letrec
  | .seq _ (.form .choose :: _) => .choose
  | .seq .. => .list
  | _ => .scalar

/-- The name in a pair of a name and a literal. -/
def ruleName? : Value → Option Text
  | .seq _ [.str name, _] => some name
  | _ => none

/-- The names that occur more than once in a list, in order. -/
def repeated (names : List Text) : List Text :=
  Text.sortedNames (names.filter fun n => 1 < names.count n)

/-- What is wrong with the pairs of a letrec literal, whatever the patterns in them: the first
entry that is no pair, or else the names that several pairs have. -/
def rulesFault? (entries : List Value) : Option LiteralError :=
  match entries.find? (·.ruleName?.isNone) with
  | some entry => some (.notARule entry)
  | none =>
    match repeated (entries.filterMap ruleName?) with
    | [] => none
    | names => some (.repeatedRules names)

end Value

mutual

/-- The matcher that a literal stands for. -/
def Value.compile : Value → Except LiteralError Matcher
  | .matcher m => .ok m
  | .rest => .ok .rest
  | .seq _ [.form .letrec, .dict entries, body] => do
    let rules ← compileEntries entries
    return .letrec rules (← body.compile)
  | .seq _ (.form .letrec :: parts) =>
    match Value.rulesFault? parts.dropLast with
    | some e => .error e
    | none => do
      let (rules, body) ← compileRules parts
      return .letrec rules body
  | .seq _ (.form .choose :: alternatives) => .choice <$> compileItems alternatives
  | .seq _ items => .array <$> compileItems items
  | literal => .ok (.constant literal)

/-- The matchers that literals stand for, in order. -/
def compileItems : List Value → Except LiteralError (List Matcher)
  | [] => .ok []
  | literal :: literals => do
    let m ← literal.compile
    return m :: (← compileItems literals)

/-- Rules from the entries of a dictionary. -/
def compileEntries : List (Value × Value) → Except LiteralError (List (Value × Matcher))
  | [] => .ok []
  | (name, literal) :: entries => do
    let m ← literal.compile
    return (name, m) :: (← compileEntries entries)

/-- Rules from pairs, and the body after them. -/
def compileRules : List Value → Except LiteralError (List (Value × Matcher) × Matcher)
  | [] => .error .noBody
  | [body] => do return ([], ← body.compile)
  | .seq _ [name, literal] :: parts => do
    let m ← literal.compile
    let (rules, body) ← compileRules parts
    return ((name, m) :: rules, body)
  | entry :: _ => .error (.notARule entry)

end

/-- Names of the rules of a letrec. -/
def Matcher.ruleNames? : Matcher → Option (List Value)
  | .letrec rules _ => some (rules.map Prod.fst)
  | _ => none

end Motif
