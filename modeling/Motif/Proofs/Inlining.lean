import Motif.Proofs.Interrupts
import Motif.Proofs.Pairs
import Motif.Proofs.Rules

/-!
# Rules can be inlined

Where no rule leads back to itself, each reference can be replaced by its rule, and the rules left
out. The outcome is the same, whether a success or a failure: open references are not to be seen in
it, as long as there is room for all that are nested inside one another.

The run with rules and the one without go in step on the same data. The first alone has rules in its
environments and opens references, and a rule that it comes to is met inlined in the second.
-/

namespace Motif

section

variable {H : Predicates}

/-! ### Inlining -/

mutual

/-- Replaces each reference by what `rule` says and leaves out the rules. -/
def Matcher.replace (rule : Text → Matcher) : Matcher → Matcher
  | .array elements => .array (replaceAll rule elements)
  | .choice alternatives => .choice (replaceAll rule alternatives)
  | .reference name => rule name
  | .letrec _ body => body.replace rule
  | matcher => matcher

/-- As `Matcher.replace`, for matchers. -/
def replaceAll (rule : Text → Matcher) : List Matcher → List Matcher
  | [] => []
  | matcher :: matchers => matcher.replace rule :: replaceAll rule matchers

end

/-- What replaces a reference to a name: its rule, in which references are replaced in turn, up to
`n` inside one another. Where there is no rule, the reference stays. -/
def inlineRule (grammar : Grammar) : (n : Nat) → Text → Matcher
  | 0, name => .reference name
  | n + 1, name =>
    match grammar name with
    | none => .reference name
    | some target => target.replace (inlineRule grammar n)

lemma inlineRule_of_none {grammar : Grammar} {name : Text} (h : grammar name = none) (n : Nat) :
    inlineRule grammar n name = .reference name := by
  cases n with
  | zero => rfl
  | succ n => simp only [inlineRule, h]

/-- A pattern with each reference replaced by its rule. References need not be replaced inside one
another more often than there are rules. -/
def Matcher.inlined (pattern : Matcher) : Matcher :=
  pattern.replace (inlineRule pattern.grammar pattern.tables.flatten.length)

/-- A reference within a rule is replaced as well, whichever rule comes first. -/
example : (Matcher.letrec
    [(.str [.char 'a'], .array [.reference [.char 'b']]), (.str [.char 'b'], .rest)]
    (.choice [.reference [.char 'a'], .reference [.char 'b']])).inlined =
      .choice [.array [.rest], .rest] := rfl

/-- A pattern whose rules can be inlined. -/
structure Matcher.Inlinable (pattern : Matcher) : Prop where
  /-- All matchers have a search of their own. -/
  built : ∀ part ∈ pattern.parts, part.kind?.isSome = true
  /-- A name has rules in one place only. -/
  apart : pattern.tables.Pairwise fun table table' => ∀ name ∈ table.names, name ∉ table'.names
  /-- Names of rules are not referred to outside their scope. -/
  closed : ∀ name ∈ pattern.free, pattern.grammar name = none
  /-- They are not names of variables. -/
  distinct : ∀ name ∈ pattern.variables, pattern.grammar name = none
  /-- No rule leads back to itself. -/
  acyclic : pattern.grammar.Acyclic

/-- A pattern refers to a variable. Such a reference has no rule, and runs what the variable is
bound to if that is a matcher. -/
def Matcher.Mixes (pattern : Matcher) : Prop :=
  ∃ name ∈ pattern.variables, .reference name ∈ pattern.parts

/-! ### What is left after inlining -/

/-- A matcher brings no rules into scope and refers to none. -/
def Matcher.RuleFree (grammar : Grammar) (matcher : Matcher) : Prop :=
  matcher.table? = none ∧ ∀ name, matcher = .reference name → grammar name = none

section

variable {grammar : Grammar} {rule : Text → Matcher}

mutual

/-- What is left of a matcher is free of rules, if what replaces its references is. -/
theorem Matcher.ruleFree_replace : (matcher : Matcher) →
    (∀ name ∈ matcher.references, ∀ part ∈ (rule name).parts, part.RuleFree grammar) →
    ∀ part ∈ (matcher.replace rule).parts, part.RuleFree grammar
  | .constant _, _ => List.forall_mem_singleton.mpr ⟨rfl, nofun⟩
  | .element .., _ => List.forall_mem_singleton.mpr ⟨rfl, nofun⟩
  | .segment .., _ => List.forall_mem_singleton.mpr ⟨rfl, nofun⟩
  | .segmentExact .., _ => List.forall_mem_singleton.mpr ⟨rfl, nofun⟩
  | .rest, _ => List.forall_mem_singleton.mpr ⟨rfl, nofun⟩
  | .array elements, h =>
    List.forall_mem_cons.mpr ⟨⟨rfl, nofun⟩, ruleFree_replaceAll elements h⟩
  | .choice alternatives, h =>
    List.forall_mem_cons.mpr ⟨⟨rfl, nofun⟩, ruleFree_replaceAll alternatives h⟩
  | .reference name, h => h name List.mem_cons_self
  | .letrec _ body, h => Matcher.ruleFree_replace body h
  | .abstract _, _ => List.forall_mem_singleton.mpr ⟨rfl, nofun⟩

theorem ruleFree_replaceAll : (matchers : List Matcher) →
    (∀ name ∈ allReferences matchers, ∀ part ∈ (rule name).parts, part.RuleFree grammar) →
    ∀ part ∈ allParts (replaceAll rule matchers), part.RuleFree grammar
  | [], _ => by simp [replaceAll, allParts]
  | matcher :: matchers, h => by
    obtain ⟨hmatcher, hmatchers⟩ := List.forall_mem_append.mp h
    exact List.forall_mem_append.mpr
      ⟨Matcher.ruleFree_replace matcher hmatcher, ruleFree_replaceAll matchers hmatchers⟩

end

/-- References that are nested no deeper than they are replaced leave nothing. -/
lemma Matcher.ruleFree_of_nestsWithin {n : Nat} {matcher : Matcher}
    (h : matcher.NestsWithin grammar n) :
    ∀ part ∈ (matcher.replace (inlineRule grammar n)).parts, part.RuleFree grammar := by
  induction n generalizing matcher with
  | zero =>
    refine ruleFree_replace matcher fun name hname => List.forall_mem_singleton.mpr ⟨rfl, ?_⟩
    rintro _ ⟨⟩
    exact h name hname
  | succ n ih =>
    refine ruleFree_replace matcher fun name hname => ?_
    cases hrule : grammar name with
    | none =>
      simp only [inlineRule, hrule]
      refine List.forall_mem_singleton.mpr ⟨rfl, ?_⟩
      rintro _ ⟨⟩
      exact hrule
    | some target =>
      simp only [inlineRule, hrule]
      exact ih (h name hname target hrule)

end

/-! ### Data without matchers -/

/-- There is no matcher in a value, at any list nesting. -/
def Value.Inert (v : Value) : Prop := ∀ m : Matcher, ¬ (Value.matcher m).Within [v]

lemma Value.inert_seq_iff {shape : Shape} {items : List Value} :
    (Value.seq shape items).Inert ↔ ∀ v ∈ items, v.Inert := by
  constructor
  · intro h v hv m hm
    exact h m (.inside List.mem_cons_self (hm.mono (by simpa using hv)))
  · intro h m hm
    cases hm with
    | item hmem => simp at hmem
    | inside hmem hinner =>
      cases List.mem_singleton.mp hmem
      cases hinner with
      | item hitem => exact h _ hitem m (.item List.mem_cons_self)
      | inside hitem hinner => exact h _ hitem m (.inside List.mem_cons_self hinner)

lemma Value.not_inert_matcher (m : Matcher) : ¬ (Value.matcher m).Inert :=
  fun h => h m (.item List.mem_cons_self)

lemma Value.inert_of_bare {v : Value} (hbare : v.items? = none) (hmatcher : ∀ m, v ≠ .matcher m) :
    v.Inert := by
  intro m hm
  cases hm with
  | item hmem => exact hmatcher m (List.mem_singleton.mp hmem).symm
  | inside hmem _ =>
    cases List.mem_singleton.mp hmem
    cases hbare

lemma Value.inert_int (i : Int) : (Value.int i).Inert :=
  inert_of_bare rfl fun m h => by cases h

lemma Value.eq_of_forall₂ {inert : Prop} {vs ws : List Value}
    (h : List.Forall₂ (fun v w => v = w ∧ (inert → v.Inert)) vs ws) :
    vs = ws ∧ (inert → ∀ v ∈ vs, v.Inert) := by
  induction h with
  | nil => exact ⟨rfl, by simp⟩
  | cons hitem _ ih =>
    obtain ⟨rfl, hinert⟩ := hitem
    obtain ⟨rfl, hinerts⟩ := ih
    exact ⟨rfl, fun h => List.forall_mem_cons.mpr ⟨hinert h, hinerts h⟩⟩

/-- Two runs on the same data, which contains no matcher if `inert` holds. The first one may be cut
off if `cut` holds, and no interrupts end them otherwise. -/
def Pairing.same [Predicates] (cut inert : Prop) : Pairing where
  runs := .unlessCutOff cut
  item v w := v = w ∧ (inert → v.Inert)
  shown := Eq
  respects _ := True
  equal_left h _ := by rw [h.1]
  equal_right h _ := by rw [h.1]
  allowed_eq _ h := by rw [h.1]
  items_rel {v w} h := by
    obtain ⟨rfl, hinert⟩ := h
    cases v with
    | seq shape items =>
      exact .inl ⟨shape, items, items, rfl, rfl, List.forall₂_same.mpr fun v hv =>
        ⟨rfl, fun h => Value.inert_seq_iff.mp (hinert h) v hv⟩⟩
    | _ => exact .inr ⟨rfl, rfl⟩
  list h := by
    obtain ⟨rfl, hinert⟩ := Value.eq_of_forall₂ h
    exact ⟨rfl, fun h => Value.inert_seq_iff.mpr (hinert h)⟩
  shown_refl _ := rfl
  shown_item h := h.1
  shown_seq h := by rw [(Value.eq_of_forall₂ h).1]
  shown_pair h h' := by
    rw [h.elim And.left id, h'.elim And.left id]
  shown_empty h := by rw [h]

/-! ### Environments with rules and without -/

section

variable (pattern : Matcher) (maxDepth : Int)

/-- What a matcher refers to outside the scope of its rules is in a table, or has no rule. -/
def Table.Covers (rules : Table Matcher) (matcher : Matcher) : Prop :=
  ∀ name ∈ matcher.free, name ∈ rules.names ∨ pattern.grammar name = none

/-- Rules in scope are rules of the pattern, and so are those they refer to. -/
def Table.Sound (rules : Table Matcher) : Prop :=
  ∀ ⦃name target⦄, rules.lookup name = some target →
    pattern.grammar name = some target ∧ rules.Covers pattern target

/-- Environments of two runs with the same data, where `depth` references are open in the first and
the second knows no rules. The data is bound to variables of the pattern. -/
structure Environment.Inlines (rules : Table Matcher) (depth : Int) (env env' : Environment) :
    Prop where
  bindings : env'.bindings = env.bindings
  known : ∀ ⦃name v⦄, env.bindings.lookup name = some v →
    name ∈ pattern.variables ∧ (pattern.Mixes → v.Inert)
  rules : env.rules = rules
  rules' : env'.rules = []
  depth : env.depth = depth
  maxDepth : env.maxDepth = maxDepth

end

section

variable {pattern : Matcher} {rules : Table Matcher} {name : Text}

lemma Table.mem_names_insertAll_iff {α : Type} {t entries : Table α} {name : Text} :
    name ∈ (t.insertAll entries).names ↔ name ∈ entries.names ∨ name ∈ t.names := by
  rw [← not_iff_not, ← Table.lookup_eq_none_iff, Table.lookup_insertAll, Option.or_eq_none_iff,
    Table.lookup_reverse_eq_none_iff, Table.lookup_eq_none_iff, not_or]

lemma Table.Covers.mono {matcher : Matcher} (h : rules.Covers pattern matcher)
    (table : Table Matcher) : (rules.insertAll table).Covers pattern matcher :=
  fun name hname => (h name hname).imp_left (mem_names_insertAll table)

lemma Table.sound_nil : Table.Sound pattern [] := by
  intro name target hlookup
  cases hlookup

lemma Table.Sound.lookup_eq (h : rules.Sound pattern) {target : Matcher}
    (hname : name ∈ rules.names) (hrule : pattern.grammar name = some target) :
    rules.lookup name = some target := by
  obtain ⟨target', hlookup⟩ := mem_names_iff.mp hname
  rw [← hrule, (h hlookup).1, hlookup]

lemma Table.Sound.lookup_eq_none (h : rules.Sound pattern)
    (hrule : pattern.grammar name = none) : rules.lookup name = none := by
  cases hlookup : rules.lookup name with
  | none => rfl
  | some target =>
    rw [(h hlookup).1] at hrule
    cases hrule

lemma Environment.matcher?_eq_none_of {env : Environment}
    (hdata : ∀ m : Matcher, env.bindings.lookup name ≠ some (.matcher m))
    (hrule : env.rules.lookup name = none) : env.matcher? name = none := by
  rw [Option.eq_none_iff_forall_ne_some]
  intro m hm
  rcases Environment.matcher?_eq_some_iff.mp hm with hlookup | ⟨-, hlookup⟩
  · exact hdata m hlookup
  · rw [hrule] at hlookup
    cases hlookup

section

variable {entries : List (Value × Matcher)} {body : Matcher}
  (h : rules.Covers pattern (.letrec entries body))
include h

/-- With its rules in scope, what a matcher refers to in them or in its body is covered. -/
lemma Table.Covers.inside {matcher : Matcher}
    (hfree : matcher.free ⊆ rulesFree entries ++ body.free) :
    (rules.insertAll (namedRules entries)).Covers pattern matcher := by
  intro name hname
  rw [mem_names_insertAll_iff]
  by_cases hentry : name ∈ (namedRules entries).names
  · exact .inl (.inl hentry)
  · exact (h name (List.mem_filter.mpr ⟨hfree hname, by simpa using hentry⟩)).imp_left .inr

lemma Table.Covers.insertAll (hpattern : pattern.Inlinable)
    (hpart : .letrec entries body ∈ pattern.parts) (hsound : rules.Sound pattern) :
    (rules.insertAll (namedRules entries)).Sound pattern := by
  intro name target hlookup
  rw [lookup_insertAll, Option.or_eq_some_iff] at hlookup
  rcases hlookup with hnew | ⟨-, hold⟩
  · refine ⟨Matcher.grammar_of_mem_parts hpattern.apart hpart hnew, h.inside ?_⟩
    exact List.subset_append_of_subset_left _
      (free_subset_rulesFree (mem_rules_of_grammarOf hnew))
  · exact (hsound hold).imp_right (·.mono (namedRules entries))

end

end

namespace Environment.Inlines

variable {pattern : Matcher} {maxDepth depth : Int} {rules : Table Matcher}
  {env env' : Environment}

lemma empty (pattern : Matcher) (maxDepth : Int) :
    Inlines pattern maxDepth [] 0 (.empty maxDepth) (.empty maxDepth) :=
  ⟨rfl, nofun, rfl, rfl, rfl, rfl⟩

lemma define (h : Inlines pattern maxDepth rules depth env env') (table : Table Matcher) :
    Inlines pattern maxDepth (rules.insertAll table) depth (env.define table) env' :=
  ⟨h.bindings, h.known, congrArg (·.insertAll table) h.rules, h.rules', h.depth, h.maxDepth⟩

lemma scopedTo {rules' : Table Matcher} (h : Inlines pattern maxDepth rules' depth env env')
    {outer : Environment} (houter : outer.rules = rules) :
    Inlines pattern maxDepth rules depth (env.scopedTo outer) env' :=
  ⟨h.bindings, h.known, houter, h.rules', h.depth, h.maxDepth⟩

lemma descend (h : Inlines pattern maxDepth rules depth env env') :
    Inlines pattern maxDepth rules (depth + 1) env.descend env' :=
  ⟨h.bindings, h.known, h.rules, h.rules', congrArg (· + 1) h.depth, h.maxDepth⟩

lemma atDepth (h : Inlines pattern maxDepth rules depth env env') (depth' : Int) :
    Inlines pattern maxDepth rules depth' (env.atDepth depth') env' := by
  unfold Environment.atDepth
  split
  · rename_i hdepth
    exact ⟨h.bindings, h.known, h.rules, h.rules', hdepth.symm, h.maxDepth⟩
  · exact ⟨h.bindings, h.known, h.rules, h.rules', rfl, h.maxDepth⟩

/-- A variable is no name of a rule, so it stands for the same in both runs. -/
lemma tracks (hpattern : pattern.Inlinable) (hsound : rules.Sound pattern) :
    (Pairing.same cut pattern.Mixes).Tracks (· ∈ pattern.variables)
      (Inlines pattern maxDepth rules depth) where
  get? {env env' name} h hname := by
    unfold Environment.get?
    rw [h.bindings, h.rules, h.rules', hsound.lookup_eq_none (hpattern.distinct name hname)]
    cases env.bindings.lookup name with
    | none => exact .none
    | some v => exact .some (.inr rfl)
  extend {env env' name v w} h hname hvalue := by
    obtain ⟨rfl, hinert⟩ := hvalue
    refine ⟨congrArg (·.insert name v) h.bindings, ?_, h.rules, h.rules', h.depth, h.maxDepth⟩
    intro name' v' hlookup
    by_cases heq : name' = name
    · subst heq
      rw [Environment.extend, Table.lookup_insert_self] at hlookup
      cases hlookup
      exact ⟨hname, hinert⟩
    · rw [Environment.extend, Table.lookup_insert_of_ne v _ heq] at hlookup
      exact h.known hlookup

/-- In the run with rules, the name of a rule in scope stands for the rule. -/
lemma matcher?_of_lookup (h : Inlines pattern maxDepth rules depth env env')
    (hpattern : pattern.Inlinable) (hsound : rules.Sound pattern) {name : Text} {target : Matcher}
    (hlookup : rules.lookup name = some target) : env.matcher? name = some target := by
  refine Environment.matcher?_eq_some_iff.mpr (.inr ⟨?_, h.rules ▸ hlookup⟩)
  rw [Option.eq_none_iff_forall_ne_some]
  intro v hdata
  have hrule := (hsound hlookup).1
  rw [hpattern.distinct name (h.known hdata).1] at hrule
  cases hrule

/-- A name without a rule that is referred to stands for no matcher in either run. -/
lemma matcher?_eq_none (h : Inlines pattern maxDepth rules depth env env')
    (hsound : rules.Sound pattern) {name : Text} (hpart : .reference name ∈ pattern.parts)
    (hrule : pattern.grammar name = none) :
    env.matcher? name = none ∧ env'.matcher? name = none := by
  have hdata (m : Matcher) : env.bindings.lookup name ≠ some (.matcher m) := by
    intro hlookup
    obtain ⟨hvariable, hinert⟩ := h.known hlookup
    exact Value.not_inert_matcher m (hinert ⟨name, hvariable, hpart⟩)
  constructor
  · exact Environment.matcher?_eq_none_of hdata (h.rules ▸ hsound.lookup_eq_none hrule)
  · exact Environment.matcher?_eq_none_of (h.bindings ▸ hdata) (h.rules' ▸ rfl)

end Environment.Inlines

/-! ### The run without rules -/

section

variable {κ : Type} [Answer κ] {stack : Option Nat} {name : Text} {input : Input}
  {env : Environment} {k : Continuation (Except Interrupt) κ}

/-- A reference fails where its name stands for no matcher. -/
lemma callRule_of_none {room : Nat} (h : env.matcher? name = none) :
    callRule stack room name input env k =
      pure (.own (.report .reference .referenceNotFound (.str name) 0 none)) := by
  unfold callRule
  simp only [h]

end

section

variable {cut : Prop} {pattern : Matcher} (hpattern : pattern.Inlinable) {maxDepth depth : Int}
  {call call' : Text → Searcher (Except Interrupt)} {rule : Text → Matcher} {fits : Text → Prop}

omit hpattern in
lemma inStep_letrec_body {entries : List (Value × Matcher)} {body : Matcher} {rules : Table Matcher}
    {search' : Searcher (Except Interrupt)}
    (hbody : (Pairing.same cut pattern.Mixes).InStep
      (Environment.Inlines pattern maxDepth (rules.insertAll (namedRules entries)) depth)
      (body.search call) search') :
    (Pairing.same cut pattern.Mixes).InStep (Environment.Inlines pattern maxDepth rules depth)
      ((Matcher.letrec entries body).search call) search' := by
  constructor
  intro κ _ A input input' env env' k k' hA hinput henv hk
  simp only [Matcher.search_letrec]
  exact hbody.holds hA hinput (henv.define _) fun _ _ n hinner =>
    hk _ _ n (hinner.scopedTo henv.rules)

section

mutual

/-- A matcher goes in step with what is left of it after inlining, if its references do. -/
theorem Matcher.inStep_replace [Predicates] (hpattern : pattern.Inlinable)
    (hcall : ∀ {rules : Table Matcher}, rules.Sound pattern →
      ∀ name, .reference name ∈ pattern.parts →
        name ∈ rules.names ∨ pattern.grammar name = none → fits name →
          (Pairing.same cut pattern.Mixes).InStep (Environment.Inlines pattern maxDepth rules depth)
            (call name) ((rule name).search call')) :
    (matcher : Matcher) → matcher.parts ⊆ pattern.parts →
    (∀ name ∈ matcher.references, fits name) → {rules : Table Matcher} → rules.Sound pattern →
    rules.Covers pattern matcher → (Pairing.same cut pattern.Mixes).InStep
      (Environment.Inlines pattern maxDepth rules depth) (matcher.search call)
      ((matcher.replace rule).search call')
  | .constant value, _, _, _, _, _ => Pairing.inStep_constant value
  | .element name only, hparts, _, _, hsound, _ =>
    Pairing.inStep_element (Environment.Inlines.tracks hpattern hsound)
      (Matcher.mem_variables hparts rfl) trivial
  | .segment name only, hparts, _, _, hsound, _ =>
    Pairing.inStep_segment (Environment.Inlines.tracks hpattern hsound)
      (Matcher.mem_variables hparts rfl) trivial
  | .segmentExact name only, hparts, _, _, hsound, _ =>
    Pairing.inStep_segmentExact (Environment.Inlines.tracks hpattern hsound)
      (Matcher.mem_variables hparts rfl) trivial
  | .rest, _, _, _, _, _ => Pairing.inStep_rest
  | .array elements, hparts, hfits, _, hsound, hcovers =>
    Pairing.inStep_array (inStep_replaceAll hpattern hcall elements
      (List.Subset.trans (List.subset_cons_self _ _) hparts) hfits hsound hcovers)
  | .choice alternatives, hparts, hfits, _, hsound, hcovers =>
    Pairing.inStep_choice (inStep_replaceAll hpattern hcall alternatives
      (List.Subset.trans (List.subset_cons_self _ _) hparts) hfits hsound hcovers)
  | .reference name, hparts, hfits, _, hsound, hcovers =>
    hcall hsound name (hparts List.mem_cons_self) (hcovers name List.mem_cons_self)
      (hfits name List.mem_cons_self)
  | .letrec entries body, hparts, hfits, rules, hsound, hcovers => by
    have hpart : .letrec entries body ∈ pattern.parts := hparts (Matcher.mem_parts_self _)
    have hbody : body.parts ⊆ (Matcher.letrec entries body).parts :=
      List.subset_cons_of_subset _ (List.subset_append_right _ _)
    exact inStep_letrec_body (Matcher.inStep_replace hpattern hcall body
      (List.Subset.trans hbody hparts) hfits (hcovers.insertAll hpattern hpart hsound)
      (hcovers.inside (List.subset_append_right _ _)))
  | .abstract _, hparts, _, _, _, _ => by cases hpattern.built _ (hparts List.mem_cons_self)

theorem inStep_replaceAll [Predicates] (hpattern : pattern.Inlinable)
    (hcall : ∀ {rules : Table Matcher}, rules.Sound pattern →
      ∀ name, .reference name ∈ pattern.parts →
        name ∈ rules.names ∨ pattern.grammar name = none → fits name →
          (Pairing.same cut pattern.Mixes).InStep (Environment.Inlines pattern maxDepth rules depth)
            (call name) ((rule name).search call')) :
    (matchers : List Matcher) → allParts matchers ⊆ pattern.parts →
    (∀ name ∈ allReferences matchers, fits name) → {rules : Table Matcher} →
    rules.Sound pattern →
    (∀ name ∈ allFree matchers, name ∈ rules.names ∨ pattern.grammar name = none) →
    List.Forall₂ (fun m m' => (Pairing.same cut pattern.Mixes).InStep
      (Environment.Inlines pattern maxDepth rules depth) (m.search call) (m'.search call'))
      matchers (replaceAll rule matchers)
  | [], _, _, _, _, _ => .nil
  | matcher :: matchers, hparts, hfits, _, hsound, hcovers => by
    obtain ⟨hfirst, hothers⟩ := List.append_subset.mp hparts
    obtain ⟨hfits, hfits'⟩ := List.forall_mem_append.mp hfits
    obtain ⟨hcovers, hcovers'⟩ := List.forall_mem_append.mp hcovers
    exact .cons (Matcher.inStep_replace hpattern hcall matcher hfirst hfits hsound hcovers)
      (inStep_replaceAll hpattern hcall matchers hothers hfits' hsound hcovers')

end

end

omit hpattern in
/-- A reference to a name without a rule goes in step with itself. -/
lemma inStep_dangling (stack : Option Nat) (room m room' : Nat) {rules : Table Matcher}
    (hsound : rules.Sound pattern) {name : Text} (hpart : .reference name ∈ pattern.parts)
    (hrule : pattern.grammar name = none) :
    (Pairing.same cut pattern.Mixes).InStep (Environment.Inlines pattern maxDepth rules depth)
      (callRule stack room name)
      ((inlineRule pattern.grammar m name).search (callRule stack room')) := by
  rw [inlineRule_of_none hrule]
  constructor
  intro κ _ A input input' env env' k k' hA hinput henv hk
  obtain ⟨hnone, hnone'⟩ := henv.matcher?_eq_none hsound hpart hrule
  simp only [Matcher.search_reference, callRule_of_none hnone, callRule_of_none hnone']
  exact Pairing.holds_report _ _ rfl 0

include hpattern in
/-- Where there is room for one more open reference, a reference goes in step with what its rule
does. -/
lemma inStep_callRule_succ {stack : Option Nat} {room : Nat} (hdepth : depth < maxDepth)
    (hstack : cut ∨ ∀ limit ∈ stack, depth < (limit : Int)) {rules : Table Matcher}
    (hsound : rules.Sound pattern) {name : Text} {target : Matcher}
    (hlookup : rules.lookup name = some target) {search' : Searcher (Except Interrupt)}
    (hstep : (Pairing.same cut pattern.Mixes).InStep
      (Environment.Inlines pattern maxDepth rules (depth + 1))
      (target.search (callRule stack room)) search') :
    (Pairing.same cut pattern.Mixes).InStep (Environment.Inlines pattern maxDepth rules depth)
      (callRule stack (room + 1) name) search' := by
  constructor
  intro κ _ A input input' env env' k k' hA hinput henv hk
  have hmatcher := henv.matcher?_of_lookup hpattern hsound hlookup
  have hexhausted : env.exhausted = false :=
    decide_eq_false (by rw [henv.depth, henv.maxDepth]; omega)
  simp only [callRule, hmatcher, hexhausted, henv.depth, Bool.false_eq_true, if_false]
  split
  · rename_i hany
    refine .inl ⟨hstack.resolve_right fun h => ?_, rfl⟩
    rw [any_stack_eq_false_iff.mpr h] at hany
    cases hany
  · exact hstep.holds hA hinput henv.descend fun _ _ n hinner => hk _ _ n (hinner.atDepth _)

include hpattern in
/-- A matcher goes in step with itself after inlining, if there is room for the references that are
nested inside one another. -/
lemma Matcher.inStep_inline {stack : Option Nat} (n m room room' : Nat) (hm : n ≤ m)
    (hroom : n ≤ room) (hdepth : depth + n ≤ maxDepth)
    (hstack : cut ∨ ∀ limit ∈ stack, depth + n ≤ (limit : Int)) {rules : Table Matcher}
    (hsound : rules.Sound pattern) {matcher : Matcher} (hparts : matcher.parts ⊆ pattern.parts)
    (hnests : matcher.NestsWithin pattern.grammar n) (hcovers : rules.Covers pattern matcher) :
    (Pairing.same cut pattern.Mixes).InStep (Environment.Inlines pattern maxDepth rules depth)
      (matcher.search (callRule stack room))
      ((matcher.replace (inlineRule pattern.grammar m)).search (callRule stack room')) := by
  -- a rule may be any matcher, so the induction is on the references that are left to open
  induction n generalizing m room depth rules matcher with
  | zero =>
    exact Matcher.inStep_replace hpattern
      (fun hsound _ hpart _ hrule => inStep_dangling stack room m room' hsound hpart hrule)
      matcher hparts hnests hsound hcovers
  | succ n ih =>
    obtain ⟨room, rfl⟩ : ∃ r, room = r + 1 := ⟨room - 1, by omega⟩
    obtain ⟨m, rfl⟩ : ∃ r, m = r + 1 := ⟨m - 1, by omega⟩
    have hcall : ∀ {rules : Table Matcher}, rules.Sound pattern →
        ∀ name, .reference name ∈ pattern.parts →
          name ∈ rules.names ∨ pattern.grammar name = none →
          (∀ target, pattern.grammar name = some target →
            target.NestsWithin pattern.grammar n) →
          (Pairing.same cut pattern.Mixes).InStep (Environment.Inlines pattern maxDepth rules depth)
            (callRule stack (room + 1) name)
            ((inlineRule pattern.grammar (m + 1) name).search (callRule stack room')) := by
      intro rules hsound name hpart hname htarget
      cases hrule : pattern.grammar name with
      | none => exact inStep_dangling stack (room + 1) (m + 1) room' hsound hpart hrule
      | some target =>
        have hlookup := hsound.lookup_eq (hname.resolve_right (by simp [hrule])) hrule
        have hdeeper : depth + 1 + n ≤ maxDepth := by omega
        have hdeeper' : cut ∨ ∀ limit ∈ stack, depth + 1 + n ≤ (limit : Int) :=
          hstack.imp_right fun h limit hlimit => le_of_eq_of_le (by omega) (h limit hlimit)
        have hstep := ih m room (by omega) (by omega) hdeeper hdeeper' hsound
          (Matcher.parts_subset_of_grammar hrule) (htarget target hrule) (hsound hlookup).2
        simp only [inlineRule, hrule]
        refine inStep_callRule_succ hpattern (by omega) (hstack.imp_right fun h limit hlimit => ?_)
          hsound hlookup hstep
        exact lt_of_lt_of_le (by omega) (h limit hlimit)
    exact Matcher.inStep_replace hpattern hcall matcher hparts hnests hsound hcovers

end

/-! ### Outcomes with rules and without -/

/-- What an outcome tells: how many items were used and what was bound, in order, or the failure. -/
def Outcome.answer : Outcome → Except Failure (Nat × Table Value)
  | .success result => .ok (result.consumed, result.environment.bindings)
  | .failure f => .error f

lemma Pairing.eq_of_failures {cut inert : Prop} {f f' : Failure}
    (h : (same cut inert).Failures f f') : f = f' := by
  have hchain : List.Forall₂ Eq f.chain f'.chain := by
    refine h.imp ?_
    rintro ⟨⟩ ⟨⟩ ⟨rfl, rfl, hshown, rfl, rfl⟩
    exact congrArg (Failure.Entry.mk _ _ · _ _) hshown
  rw [List.forall₂_eq_eq_eq] at hchain
  obtain ⟨top, causes⟩ := f
  obtain ⟨top', causes'⟩ := f'
  obtain ⟨rfl, rfl⟩ := List.cons.inj hchain
  rfl

lemma Outcome.answer_eq {cut : Prop} {pattern : Matcher} {maxDepth : Int}
    {outcome outcome' : Outcome}
    (h : (Pairing.same cut pattern.Mixes).Outcomes (Environment.Inlines pattern maxDepth [] 0)
      outcome outcome') : outcome.answer = outcome'.answer := by
  cases h with
  | success henv hconsumed => simp only [answer, henv.bindings, hconsumed]
  | failure h => simp only [answer, Pairing.eq_of_failures h]

/-- A pattern and what is left of it after inlining begin in step, if there is room for the
references that are nested inside one another. -/
lemma Matcher.holds_start_inlined [Predicates] (cut : Prop) {limits : Limits} {pattern : Matcher}
    (hpattern : pattern.Inlinable) {datum : Value} (hdatum : pattern.Mixes → datum.Inert)
    {depth : Nat} (hnests : pattern.NestsWithin pattern.grammar depth)
    (hdepth : depth ≤ limits.maxDepth) (hstack : cut ∨ ∀ limit ∈ limits.stack, depth ≤ limit) :
    (Pairing.same cut pattern.Mixes).runs.Holds
      ((Pairing.same cut pattern.Mixes).Verdicts fun result result' =>
        Environment.Inlines pattern limits.maxDepth [] 0 result.environment result'.environment ∧
          result.consumed = result'.consumed)
      (pattern.start limits datum Success.keep)
      (pattern.inlined.start limits datum Success.keep) := by
  have hrules : pattern.NestsWithin pattern.grammar pattern.tables.flatten.length :=
    nestsWithin_of_acyclic hpattern.acyclic pattern
  have hmin : pattern.NestsWithin pattern.grammar (min depth pattern.tables.flatten.length) := by
    rcases min_choice depth pattern.tables.flatten.length with h | h <;> rwa [h]
  have hstep : (Pairing.same cut pattern.Mixes).InStep
      (Environment.Inlines pattern limits.maxDepth [] 0)
      (pattern.searchFrom limits.stack) (pattern.inlined.searchFrom limits.stack) := by
    constructor
    intro κ _ A input input' env env' k k' hA hinput henv hk
    have hroom : min depth pattern.tables.flatten.length ≤ env.room := by
      rw [Environment.room, henv.maxDepth, henv.depth]
      omega
    have hlimit : cut ∨ ∀ limit ∈ limits.stack,
        0 + (min depth pattern.tables.flatten.length : Nat) ≤ (limit : Int) := by
      refine hstack.imp_right fun h limit hlimit => ?_
      have := h limit hlimit
      omega
    have hcovers : Table.Covers pattern [] pattern := fun name hname =>
      .inr (hpattern.closed name hname)
    exact (inStep_inline hpattern _ _ env.room env'.room (min_le_right _ _) hroom (by omega) hlimit
      Table.sound_nil (List.Subset.refl _) hmin hcovers).holds hA hinput henv hk
  exact hstep.holds_start ⟨rfl, hdatum⟩ (Environment.Inlines.empty pattern limits.maxDepth)

/-- Where no rule leads back to itself, a pattern can be inlined: no rule and no reference to one is
left, and the outcome stays the same, with as many items used and the same data bound in the same
order, or with the same failure. The ceiling must allow for the references that are nested inside
one another, and the run of the pattern must not be cut off for lack of stack, which does not happen
where the stack allows for these references as well. A reference that has no rule stays; where one
is to a variable, the datum must not contain matchers. -/
theorem Matcher.outcome_inlined (limits : Limits) {pattern : Matcher} (hpattern : pattern.Inlinable)
    {datum : Value} (hdatum : pattern.Mixes → datum.Inert) {depth : Nat}
    (hnests : pattern.NestsWithin pattern.grammar depth) (hdepth : depth ≤ limits.maxDepth) :
    (∀ part ∈ pattern.inlined.parts, part.RuleFree pattern.grammar) ∧
      (pattern.start limits datum Success.keep ≠ (.error .stackExhausted : Except Interrupt _) →
        ∃ outcome outcome', pattern.outcome limits datum = .ok outcome ∧
          pattern.inlined.outcome limits datum = .ok outcome' ∧
          outcome.answer = outcome'.answer) ∧
      ((∀ limit ∈ limits.stack, depth ≤ limit) →
        pattern.start limits datum Success.keep ≠
          (.error .stackExhausted : Except Interrupt _)) := by
  refine ⟨ruleFree_of_nestsWithin (nestsWithin_of_acyclic hpattern.acyclic pattern), ?_, ?_⟩
  · intro hstart
    have hholds := holds_start_inlined True hpattern hdatum hnests hdepth (.inl trivial)
    obtain ⟨outcome, outcome', h, h', houtcomes⟩ := Pairing.exists_outcomes
      (hholds.resolve_left fun hcut => hstart hcut.2) fun _ => False.elim
    exact ⟨outcome, outcome', h, h', Outcome.answer_eq houtcomes⟩
  · intro hstack hstart
    have hholds := holds_start_inlined False hpattern hdatum hnests hdepth (.inr hstack)
    rcases (hholds.resolve_left And.left).ends_or_answers with
      ⟨_, -, -, hends⟩ | ⟨_, _, hanswer, -, -⟩
    · exact hends
    · rw [hstart] at hanswer
      cases hanswer

end

/-- A rule that leads to one with a rule of its own, where there is just room for the three. -/
theorem Matcher.outcome_inlined_nested :
    let a : Text := [.char 'a']
    let b : Text := [.char 'b']
    let c : Text := [.char 'c']
    let pattern := Matcher.letrec
      [(.str a, .array [.element [.char 'x'] none, .reference b]),
        (.str b, .letrec [(.str c, .constant (.int 1))] (.choice [.reference c, .rest]))]
      (.array [.reference a, .segment [.char 's'] none, .reference b])
    let datum := Value.list [.list [.int 5, .int 1], .int 7, .int 8]
    pattern.Inlinable ∧ (pattern.Mixes → datum.Inert) ∧
      pattern.NestsWithin pattern.grammar 3 ∧
      (∀ part ∈ pattern.inlined.parts, part.RuleFree pattern.grammar) ∧
      pattern.start ⟨3, some 3⟩ datum Success.keep ≠
        (.error .stackExhausted : Except Interrupt _) ∧
      ∃ result result', pattern.outcome ⟨3, some 3⟩ datum = .ok (.success result) ∧
        pattern.inlined.outcome ⟨3, some 3⟩ datum = .ok (.success result') ∧
        (Outcome.success result).answer = (Outcome.success result').answer := by
  intro a b c pattern datum
  have hleads (name name' : Text) (h : pattern.grammar.Leads name name') :
      name = a ∧ name' = b ∨ name = b ∧ name' = c := by
    obtain ⟨target, hrule, hmem⟩ := h
    have hrules : (name, target) ∈ [(a, _), (b, _), (c, _)] :=
      Table.mem_of_lookup_reverse hrule
    simp only [List.mem_cons, Prod.mk.injEq, List.not_mem_nil, or_false] at hrules
    rcases hrules with ⟨rfl, rfl⟩ | ⟨rfl, rfl⟩ | ⟨rfl, rfl⟩
    · exact .inl ⟨rfl, List.mem_singleton.mp hmem⟩
    · exact .inr ⟨rfl, List.mem_singleton.mp hmem⟩
    · cases hmem
  have hpattern : pattern.Inlinable := by
    constructor
    · decide
    · decide
    · decide
    · decide
    · refine Grammar.acyclic_of_rank
        (fun name => if name = c then 0 else if name = b then 1 else 2) fun name name' h => ?_
      rcases hleads name name' h with ⟨rfl, rfl⟩ | ⟨rfl, rfl⟩ <;> decide
  have hdatum : pattern.Mixes → datum.Inert := by
    rintro ⟨name, hname, hpart⟩
    have hvariable : name ∈ [[.char 'x'], [.char 's']] := hname
    rcases List.mem_pair.mp hvariable with rfl | rfl <;>
      simp [pattern, a, b, c, parts, rulesParts, allParts] at hpart
  have hnests : pattern.NestsWithin pattern.grammar 3 :=
    nestsWithin_of_acyclic hpattern.acyclic pattern
  obtain ⟨hfree, hinlined, hstack⟩ :=
    Matcher.outcome_inlined ⟨3, some 3⟩ hpattern hdatum hnests le_rfl
  have hstart := hstack (by simp)
  obtain ⟨outcome, outcome', h, h', hanswer⟩ := hinlined hstart
  have hmatched : Outcome.matched <$> pattern.outcome ⟨3, some 3⟩ datum = .ok true := by
    simp only [pattern, datum, a, b, c]
    cbv
  refine ⟨hpattern, hdatum, hnests, hfree, hstart, ?_⟩
  cases outcome with
  | failure =>
    rw [h] at hmatched
    cases hmatched
  | success result =>
    cases outcome' with
    | failure => cases hanswer
    | success result' => exact ⟨result, result', h, h', hanswer⟩

/-! ### A chain of rules that the stack has no room for -/

/-- The name of a rule in a chain. -/
def chainName (n : Nat) : Text := List.replicate n (.char 'r')

/-- A chain of rules, each of which has a reference to the next one as its only alternative. -/
def chainRules : (n : Nat) → List (Value × Matcher)
  | 0 => [(.str (chainName 0), .constant (.int 1))]
  | n + 1 => (.str (chainName (n + 1)), .choice [.reference (chainName n)]) :: chainRules n

/-- A pattern that goes through a chain of rules. -/
def chainPattern (n : Nat) : Matcher := .letrec (chainRules n) (.reference (chainName n))

section

variable {H : Predicates} {n i : Nat} {name : Text} {target : Matcher}

lemma chainName_inj (h : chainName n = chainName i) : n = i := by
  simpa [chainName] using congrArg List.length h

lemma mem_chainRules {rule : Text × Matcher} (h : rule ∈ namedRules (chainRules n)) :
    rule = (chainName 0, .constant (.int 1)) ∨
      ∃ i < n, rule = (chainName (i + 1), .choice [.reference (chainName i)]) := by
  induction n with
  | zero => exact .inl (List.mem_singleton.mp h)
  | succ n ih =>
    rcases List.mem_cons.mp h with rfl | h
    · exact .inr ⟨n, Nat.lt_succ_self n, rfl⟩
    · exact (ih h).imp_right fun ⟨i, hi, heq⟩ => ⟨i, Nat.lt_succ_of_lt hi, heq⟩

lemma chainName_mem_names (h : i ≤ n) : chainName i ∈ (namedRules (chainRules n)).names := by
  induction n with
  | zero =>
    obtain rfl := Nat.le_zero.mp h
    exact List.mem_cons_self
  | succ n ih =>
    rcases Nat.le_succ_iff.mp h with h | rfl
    · exact List.mem_cons_of_mem _ (ih h)
    · exact List.mem_cons_self

lemma length_namedRules_chainRules (n : Nat) : (namedRules (chainRules n)).length = n + 1 := by
  induction n with
  | zero => rfl
  | succ n ih => exact congrArg (· + 1) ih

lemma exists_grammarOf_chainRules (h : i ≤ n) :
    ∃ target, grammarOf (chainRules n) (chainName i) = some target ∧
      (chainName i, target) ∈ namedRules (chainRules n) := by
  obtain ⟨target, hlookup⟩ := Option.ne_none_iff_exists'.mp
    (mt Table.lookup_reverse_eq_none_iff.mp (not_not.mpr (chainName_mem_names h)))
  exact ⟨target, hlookup, Table.mem_of_lookup_reverse hlookup⟩

lemma grammarOf_chainRules_zero (n : Nat) :
    grammarOf (chainRules n) (chainName 0) = some (.constant (.int 1)) := by
  obtain ⟨target, hlookup, hmem⟩ := exists_grammarOf_chainRules (Nat.zero_le n)
  rcases mem_chainRules hmem with heq | ⟨j, -, heq⟩
  · obtain ⟨-, rfl⟩ := Prod.mk.inj heq
    exact hlookup
  · cases chainName_inj (Prod.mk.inj heq).1

lemma grammarOf_chainRules_succ (h : i < n) :
    grammarOf (chainRules n) (chainName (i + 1)) = some (.choice [.reference (chainName i)]) := by
  obtain ⟨target, hlookup, hmem⟩ := exists_grammarOf_chainRules (Nat.succ_le_of_lt h)
  rcases mem_chainRules hmem with heq | ⟨j, -, heq⟩
  · cases chainName_inj (Prod.mk.inj heq).1
  · obtain ⟨hname, rfl⟩ := Prod.mk.inj heq
    obtain rfl : i = j := Nat.succ.inj (chainName_inj hname)
    exact hlookup

/-! #### The pattern -/

lemma mem_parts_chainPattern {part : Matcher} (h : part ∈ (chainPattern n).parts) :
    part = chainPattern n ∨ part = .constant (.int 1) ∨
      (∃ i, part = .reference (chainName i)) ∨ ∃ i, part = .choice [.reference (chainName i)] := by
  have hrules (h : part ∈ rulesParts (chainRules n)) : part = .constant (.int 1) ∨
      (∃ i, part = .reference (chainName i)) ∨ ∃ i, part = .choice [.reference (chainName i)] := by
    clear * - h
    induction n with
    | zero => exact .inl (List.mem_singleton.mp h)
    | succ n ih =>
      rcases List.mem_cons.mp h with rfl | h
      · exact .inr (.inr ⟨n, rfl⟩)
      · rcases List.mem_cons.mp h with rfl | h
        · exact .inr (.inl ⟨n, rfl⟩)
        · exact ih h
  rcases List.mem_cons.mp h with rfl | h
  · exact .inl rfl
  · rcases List.mem_append.mp h with h | h
    · exact .inr (hrules h)
    · exact .inr (.inr (.inl ⟨n, List.mem_singleton.mp h⟩))

lemma tables_chainPattern (n : Nat) : (chainPattern n).tables = [namedRules (chainRules n)] := by
  have hrules : (rulesParts (chainRules n)).filterMap Matcher.table? = [] := by
    induction n with
    | zero => rfl
    | succ n ih => exact ih
  simp [Matcher.tables, chainPattern, Matcher.parts, Matcher.table?, hrules]

lemma flatten_tables_chainPattern (n : Nat) :
    (chainPattern n).tables.flatten = namedRules (chainRules n) := by
  rw [tables_chainPattern, List.flatten_cons, List.flatten_nil, List.append_nil]

lemma grammar_chainPattern (n : Nat) : (chainPattern n).grammar = grammarOf (chainRules n) := by
  funext name
  rw [Matcher.grammar, flatten_tables_chainPattern, grammarOf]

lemma variables_chainPattern (n : Nat) : (chainPattern n).variables = [] := by
  rw [Matcher.variables, List.filterMap_eq_nil_iff]
  intro part hpart
  rcases mem_parts_chainPattern hpart with rfl | rfl | ⟨i, rfl⟩ | ⟨i, rfl⟩ <;> rfl

lemma mem_names_of_mem_rulesFree (h : name ∈ rulesFree (chainRules n)) :
    name ∈ (namedRules (chainRules n)).names := by
  induction n with
  | zero => cases h
  | succ n ih =>
    rcases List.mem_cons.mp h with rfl | h
    · exact chainName_mem_names (Nat.le_succ n)
    · exact List.mem_cons_of_mem _ (ih h)

lemma inlinable_chainPattern (n : Nat) : (chainPattern n).Inlinable := by
  constructor
  · intro part hpart
    rcases mem_parts_chainPattern hpart with rfl | rfl | ⟨i, rfl⟩ | ⟨i, rfl⟩ <;> rfl
  · rw [tables_chainPattern]
    exact List.pairwise_singleton ..
  · intro name hname
    obtain ⟨hmem, hnot⟩ := List.mem_filter.mp hname
    refine absurd ?_ (of_decide_eq_true hnot)
    rcases List.mem_append.mp hmem with hmem | hmem
    · exact mem_names_of_mem_rulesFree hmem
    · cases List.mem_singleton.mp hmem
      exact chainName_mem_names le_rfl
  · rw [variables_chainPattern]
    exact nofun
  · -- a rule leads to one with a shorter name
    refine Grammar.acyclic_of_rank List.length fun name name' h => ?_
    obtain ⟨target, hrule, hmem⟩ := h
    rw [grammar_chainPattern] at hrule
    rcases mem_chainRules (Table.mem_of_lookup_reverse hrule) with heq | ⟨i, -, heq⟩
    · obtain ⟨-, rfl⟩ := Prod.mk.inj heq
      cases hmem
    · obtain ⟨rfl, rfl⟩ := Prod.mk.inj heq
      cases List.mem_singleton.mp hmem
      simp [chainName]

/-- Once inlined, a rule of a chain matches what the last one does. -/
lemma waysFrom_inlineRule_chainName (stack : Option Nat) {m : Nat} (him : i < m) (hi : i ≤ n)
    (env : Environment) :
    (inlineRule (chainPattern n).grammar m (chainName i)).waysFrom stack [.int 1] env =
      [.ok (env, 1)] := by
  obtain ⟨m, rfl⟩ := Nat.exists_eq_add_one_of_ne_zero (Nat.ne_zero_of_lt him)
  induction i generalizing m with
  | zero =>
    simp [inlineRule, grammar_chainPattern, grammarOf_chainRules_zero, Matcher.replace,
      Matcher.waysFrom, Matcher.ways, constantWays, Value.equal, Value.alike, Value.quantity?]
  | succ i ih =>
    have hless : i < m := Nat.lt_of_succ_lt_succ him
    obtain ⟨m, rfl⟩ := Nat.exists_eq_add_one_of_ne_zero (Nat.ne_zero_of_lt hless)
    have hinner := ih (Nat.le_of_succ_le hi) m hless
    simp only [inlineRule, grammar_chainPattern, grammarOf_chainRules_succ hi, Matcher.replace,
      replaceAll, Matcher.waysFrom_choice, List.flatMap_cons, List.flatMap_nil, List.append_nil]
    rwa [← grammar_chainPattern]

lemma nestsWithin_chainPattern (n : Nat) :
    (chainPattern n).NestsWithin (chainPattern n).grammar (n + 1) := by
  have h := Matcher.nestsWithin_of_acyclic (inlinable_chainPattern n).acyclic (chainPattern n)
  rwa [flatten_tables_chainPattern, length_namedRules_chainRules] at h

variable {limit : Nat} {maxDepth : Int}

/-- A chain of more rules than the stack has room for is cut off. -/
lemma exists_failure_of_chainPattern (hlimit : limit < n) (hceiling : limit < maxDepth) :
    ∃ f, (chainPattern n).outcome ⟨maxDepth, some limit⟩ (.int 1) = .ok (.failure f) := by
  have hrules (i : Nat) (hi : i ≤ limit) : ∃ alternatives,
      grammarOf (chainRules n) (chainName (n - i)) =
        some (.choice (.reference (chainName (n - (i + 1))) :: alternatives)) := by
    have hless : n - (i + 1) < n := by omega
    have hname : n - (i + 1) + 1 = n - i := by omega
    exact ⟨[], hname ▸ grammarOf_chainRules_succ hless⟩
  obtain ⟨others, hothers⟩ := Matcher.exists_waysFrom_letrec_cut_off (fun i => chainName (n - i))
    limit [.int 1] (chainRules n) hrules hceiling
  have hways : (chainPattern n).waysOf ⟨maxDepth, some limit⟩ (.int 1) =
      .error .stackExhausted :: others := hothers
  exact ⟨_, Matcher.outcome_of_error hways⟩

lemma exists_success_of_inlined_chainPattern (n : Nat) (limits : Limits) :
    ∃ result, (chainPattern n).inlined.outcome limits (.int 1) = .ok (.success result) := by
  have hways : (chainPattern n).inlined.waysOf limits (.int 1) =
      [.ok (.empty limits.maxDepth, 1)] := by
    rw [Matcher.waysOf, Matcher.inlined, flatten_tables_chainPattern, length_namedRules_chainRules]
    exact waysFrom_inlineRule_chainName limits.stack (Nat.lt_succ_self n) le_rfl _
  exact ⟨_, Matcher.outcome_of_cons hways⟩

end

/-- A chain of more rules than the stack has room for, below the ceiling: the run of the pattern is
cut off, and what is left after inlining matches. -/
theorem Matcher.cut_off_unless_inlined :
    (chainPattern 1001).Inlinable ∧ ((chainPattern 1001).Mixes → (Value.int 1).Inert) ∧
      (chainPattern 1001).NestsWithin (chainPattern 1001).grammar 1002 ∧
      (∃ f, (chainPattern 1001).outcome ⟨2000, some 1000⟩ (.int 1) = .ok (.failure f)) ∧
      ∃ result, (chainPattern 1001).inlined.outcome ⟨2000, some 1000⟩ (.int 1) =
        .ok (.success result) :=
  ⟨inlinable_chainPattern 1001, fun _ => Value.inert_int 1, nestsWithin_chainPattern 1001,
    exists_failure_of_chainPattern (by decide) (by decide),
    exists_success_of_inlined_chainPattern 1001 _⟩

end Motif
