import Motif.Proofs.Derivation
import Motif.Proofs.Scope
import Mathlib

/-!
# The rules of a pattern

A pattern that gives every rule name in one place has one grammar: the rules of all its tables. A
reference leads to a rule, whose matcher leads on to others. Where no rule leads back to itself,
references are nested no deeper than there are rules.
-/

namespace Motif

variable {H : Predicates}

/-! ### Parts -/

mutual

/-- A matcher and all matchers in it, those of its rules included. -/
def Matcher.parts : Matcher → List Matcher
  | .array elements => .array elements :: allParts elements
  | .choice alternatives => .choice alternatives :: allParts alternatives
  | .letrec rules body => .letrec rules body :: (rulesParts rules ++ body.parts)
  | matcher => [matcher]

/-- As `Matcher.parts`, for matchers. -/
def allParts : List Matcher → List Matcher
  | [] => []
  | matcher :: matchers => matcher.parts ++ allParts matchers

/-- As `Matcher.parts`, for the matchers of rules. -/
def rulesParts : List (Value × Matcher) → List Matcher
  | [] => []
  | (_, matcher) :: rules => matcher.parts ++ rulesParts rules

end

lemma Matcher.mem_parts_self (matcher : Matcher) : matcher ∈ matcher.parts := by
  cases matcher <;> simp [parts]

lemma parts_subset_rulesParts {rules : List (Value × Matcher)} {rule : Value × Matcher}
    (h : rule ∈ rules) : rule.2.parts ⊆ rulesParts rules := by
  induction rules with
  | nil => cases h
  | cons rule' rules ih =>
    rcases List.mem_cons.mp h with rfl | h
    · exact List.subset_append_left _ _
    · exact List.subset_append_of_subset_right _ (ih h)

lemma allParts_eq_flatMap (matchers : List Matcher) :
    allParts matchers = matchers.flatMap Matcher.parts := by
  induction matchers with
  | nil => rfl
  | cons matcher matchers ih => rw [allParts, ih, List.flatMap_cons]

lemma rulesParts_eq_allParts (rules : List (Value × Matcher)) :
    rulesParts rules = allParts (rules.map Prod.snd) := by
  induction rules with
  | nil => rfl
  | cons rule rules ih => rw [rulesParts, ih, List.map_cons, allParts]

lemma parts_subset_allParts {matchers : List Matcher} {matcher : Matcher} (h : matcher ∈ matchers) :
    matcher.parts ⊆ allParts matchers := by
  rw [allParts_eq_flatMap]
  exact fun part hpart => List.mem_flatMap_of_mem h hpart

lemma Matcher.parts_subset_of_leaf {matcher part : Matcher} (hleaf : matcher.parts = [matcher])
    (h : part ∈ matcher.parts) : part.parts ⊆ matcher.parts := by
  rw [hleaf, List.mem_singleton] at h
  subst h
  exact List.Subset.refl _

mutual

/-- The parts of a part are parts. -/
theorem Matcher.parts_subset : (matcher : Matcher) → {part : Matcher} → part ∈ matcher.parts →
    part.parts ⊆ matcher.parts
  | .constant _, _, h => Matcher.parts_subset_of_leaf rfl h
  | .element .., _, h => Matcher.parts_subset_of_leaf rfl h
  | .segment .., _, h => Matcher.parts_subset_of_leaf rfl h
  | .segmentExact .., _, h => Matcher.parts_subset_of_leaf rfl h
  | .rest, _, h => Matcher.parts_subset_of_leaf rfl h
  | .array elements, part, h => by
    rcases List.mem_cons.mp h with rfl | h
    · exact List.Subset.refl _
    · exact List.subset_cons_of_subset _ (allParts_subset elements h)
  | .choice alternatives, part, h => by
    rcases List.mem_cons.mp h with rfl | h
    · exact List.Subset.refl _
    · exact List.subset_cons_of_subset _ (allParts_subset alternatives h)
  | .reference _, _, h => Matcher.parts_subset_of_leaf rfl h
  | .letrec rules body, part, h => by
    rcases List.mem_cons.mp h with rfl | h
    · exact List.Subset.refl _
    · apply List.subset_cons_of_subset
      rcases List.mem_append.mp h with h | h
      · exact List.subset_append_of_subset_left _ (rulesParts_subset rules h)
      · exact List.subset_append_of_subset_right _ (Matcher.parts_subset body h)
  | .abstract _, _, h => Matcher.parts_subset_of_leaf rfl h

theorem allParts_subset : (matchers : List Matcher) → {part : Matcher} →
    part ∈ allParts matchers → part.parts ⊆ allParts matchers
  | [], _, h => by cases h
  | matcher :: matchers, part, h => by
    rcases List.mem_append.mp h with h | h
    · exact List.subset_append_of_subset_left _ (Matcher.parts_subset matcher h)
    · exact List.subset_append_of_subset_right _ (allParts_subset matchers h)

theorem rulesParts_subset : (rules : List (Value × Matcher)) → {part : Matcher} →
    part ∈ rulesParts rules → part.parts ⊆ rulesParts rules
  | [], _, h => by cases h
  | (_, matcher) :: rules, part, h => by
    rcases List.mem_append.mp h with h | h
    · exact List.subset_append_of_subset_left _ (Matcher.parts_subset matcher h)
    · exact List.subset_append_of_subset_right _ (rulesParts_subset rules h)

end

section

variable {kinds : List MatcherKind}

mutual

/-- A matcher all of whose parts are of some kinds is built from these. -/
theorem Matcher.builtFrom_of_parts : (matcher : Matcher) →
    (∀ part ∈ matcher.parts, ∃ kind ∈ kinds, part.kind? = some kind) →
    matcher.builtFrom kinds = true
  | .constant _, h | .element .., h | .segment .., h | .segmentExact .., h | .rest, h
  | .reference _, h => by
    obtain ⟨kind, hmem, hkind⟩ := h _ (Matcher.mem_parts_self _)
    cases hkind
    simpa [Matcher.builtFrom, Matcher.kind?] using hmem
  | .array elements, h => by
    obtain ⟨⟨kind, hmem, hkind⟩, helements⟩ := List.forall_mem_cons.mp h
    cases hkind
    simpa [Matcher.builtFrom] using ⟨hmem, allBuiltFrom_of_parts elements helements⟩
  | .choice alternatives, h => by
    obtain ⟨⟨kind, hmem, hkind⟩, halternatives⟩ := List.forall_mem_cons.mp h
    cases hkind
    simpa [Matcher.builtFrom] using ⟨hmem, allBuiltFrom_of_parts alternatives halternatives⟩
  | .letrec rules body, h => by
    obtain ⟨⟨kind, hmem, hkind⟩, hinner⟩ := List.forall_mem_cons.mp h
    obtain ⟨hrules, hbody⟩ := List.forall_mem_append.mp hinner
    cases hkind
    simpa [Matcher.builtFrom, and_assoc] using
      ⟨hmem, rulesBuiltFrom_of_parts rules hrules, Matcher.builtFrom_of_parts body hbody⟩
  | .abstract _, h => by
    obtain ⟨kind, -, hkind⟩ := h _ (Matcher.mem_parts_self _)
    cases hkind

theorem allBuiltFrom_of_parts : (matchers : List Matcher) →
    (∀ part ∈ allParts matchers, ∃ kind ∈ kinds, part.kind? = some kind) →
    allBuiltFrom kinds matchers = true
  | [], _ => rfl
  | matcher :: matchers, h => by
    obtain ⟨hfirst, hothers⟩ := List.forall_mem_append.mp h
    simpa [allBuiltFrom] using
      ⟨Matcher.builtFrom_of_parts matcher hfirst, allBuiltFrom_of_parts matchers hothers⟩

theorem rulesBuiltFrom_of_parts : (rules : List (Value × Matcher)) →
    (∀ part ∈ rulesParts rules, ∃ kind ∈ kinds, part.kind? = some kind) →
    rulesBuiltFrom kinds rules = true
  | [], _ => rfl
  | (_, matcher) :: rules, h => by
    obtain ⟨hfirst, hothers⟩ := List.forall_mem_append.mp h
    simpa [rulesBuiltFrom] using
      ⟨Matcher.builtFrom_of_parts matcher hfirst, rulesBuiltFrom_of_parts rules hothers⟩

end

end

/-! ### Names -/

/-- The rules that a matcher itself brings into scope. -/
def Matcher.table? : Matcher → Option (Table Matcher)
  | .letrec rules _ => some (namedRules rules)
  | _ => none

/-- The variable that a matcher itself binds. -/
def Matcher.binds? : Matcher → Option Text
  | .element name _ | .segment name _ | .segmentExact name _ => some name
  | _ => none

/-- Names that a matcher itself gives, binds or refers to. -/
def Matcher.mentions : Matcher → List Text
  | .element name _ | .segment name _ | .segmentExact name _ | .reference name => [name]
  | .letrec rules _ => (namedRules rules).names
  | _ => []

lemma Matcher.mem_mentions_of_binds? {matcher : Matcher} {name : Text}
    (h : matcher.binds? = some name) : name ∈ matcher.mentions := by
  cases matcher with
  | element | segment | segmentExact =>
    cases h
    exact List.mem_singleton_self _
  | _ => cases h

/-- The tables of rules in a pattern. -/
def Matcher.tables (pattern : Matcher) : List (Table Matcher) := pattern.parts.filterMap table?

/-- The variables of a pattern. -/
def Matcher.variables (pattern : Matcher) : List Text := pattern.parts.filterMap binds?

lemma Matcher.mem_variables {pattern matcher : Matcher} {name : Text}
    (hparts : matcher.parts ⊆ pattern.parts) (h : matcher.binds? = some name) :
    name ∈ pattern.variables :=
  List.mem_filterMap.mpr ⟨matcher, hparts matcher.mem_parts_self, h⟩

/-- All rules of a pattern by name; of a table the last rule of a name counts. -/
def Matcher.grammar (pattern : Matcher) : Grammar :=
  fun name => pattern.tables.flatten.reverse.lookup name

mutual

/-- Names that are referred to outside the scope of rules of that name. -/
def Matcher.free : Matcher → List Text
  | .array elements => allFree elements
  | .choice alternatives => allFree alternatives
  | .reference name => [name]
  | .letrec rules body =>
    (rulesFree rules ++ body.free).filter fun name => name ∉ (namedRules rules).names
  | _ => []

/-- As `Matcher.free`, for matchers. -/
def allFree : List Matcher → List Text
  | [] => []
  | matcher :: matchers => matcher.free ++ allFree matchers

/-- As `Matcher.free`, for the matchers of rules. -/
def rulesFree : List (Value × Matcher) → List Text
  | [] => []
  | (_, matcher) :: rules => matcher.free ++ rulesFree rules

end

mutual

/-- Names that a matcher refers to itself. Rules in it are left out, as they are no further than
their names. -/
def Matcher.references : Matcher → List Text
  | .array elements => allReferences elements
  | .choice alternatives => allReferences alternatives
  | .reference name => [name]
  | .letrec _ body => body.references
  | _ => []

/-- As `Matcher.references`, for matchers. -/
def allReferences : List Matcher → List Text
  | [] => []
  | matcher :: matchers => matcher.references ++ allReferences matchers

end

lemma free_subset_rulesFree {rules : List (Value × Matcher)} {rule : Value × Matcher}
    (h : rule ∈ rules) : rule.2.free ⊆ rulesFree rules := by
  induction rules with
  | nil => cases h
  | cons rule' rules ih =>
    rcases List.mem_cons.mp h with rfl | h
    · exact List.subset_append_left _ _
    · exact List.subset_append_of_subset_right _ (ih h)

/-! ### The grammar of a pattern -/

lemma Table.lookup_reverse_eq_none_iff {α : Type} {t : Table α} {name : Text} :
    t.reverse.lookup name = none ↔ name ∉ t.names := by
  rw [lookup_eq_none_iff, names, List.map_reverse, List.mem_reverse]
  rfl

section

variable {pattern : Matcher} {rules : List (Value × Matcher)} {body : Matcher} {name : Text}
  {target : Matcher}

/-- Where tables share no names, a rule that counts in its table counts in all. -/
lemma lookup_flatten_of_mem {tables : List (Table Matcher)} {table : Table Matcher}
    (hapart : tables.Pairwise fun t t' => ∀ name ∈ t.names, name ∉ t'.names) (hmem : table ∈ tables)
    (h : table.reverse.lookup name = some target) :
    tables.flatten.reverse.lookup name = some target := by
  induction tables with
  | nil => cases hmem
  | cons t tables ih =>
    obtain ⟨hfirst, hrest⟩ := List.pairwise_cons.mp hapart
    rw [List.flatten_cons, List.reverse_append, List.lookup_append]
    rcases List.mem_cons.mp hmem with rfl | hmem
    · have hname : name ∈ table.names := by
        by_contra hname
        rw [Table.lookup_reverse_eq_none_iff.mpr hname] at h
        cases h
      have hothers : name ∉ Table.names tables.flatten := by
        rw [Table.names, List.map_flatten, List.mem_flatten]
        rintro ⟨_, hnames, hname'⟩
        obtain ⟨t', ht', rfl⟩ := List.mem_map.mp hnames
        exact hfirst t' ht' name hname hname'
      rw [Table.lookup_reverse_eq_none_iff.mpr hothers, h]
      rfl
    · rw [ih hrest hmem]
      rfl

namespace Matcher

lemma grammar_of_mem_parts
    (hapart : pattern.tables.Pairwise fun t t' => ∀ name ∈ t.names, name ∉ t'.names)
    (hmem : .letrec rules body ∈ pattern.parts) (h : grammarOf rules name = some target) :
    pattern.grammar name = some target :=
  lookup_flatten_of_mem hapart (List.mem_filterMap.mpr ⟨_, hmem, rfl⟩) h

/-- Rules are parts of their pattern. -/
lemma parts_subset_of_mem_tables (h : (name, target) ∈ pattern.tables.flatten) :
    target.parts ⊆ pattern.parts := by
  obtain ⟨table, htable, hmem⟩ := List.mem_flatten.mp h
  obtain ⟨part, hpart, heq⟩ := List.mem_filterMap.mp htable
  cases part with
  | letrec rules body =>
    cases heq
    have hrule : (.str name, target) ∈ rules := mem_of_mem_namedRules hmem
    calc target.parts ⊆ rulesParts rules := parts_subset_rulesParts hrule
      _ ⊆ (Matcher.letrec rules body).parts :=
        List.subset_cons_of_subset _ (List.subset_append_left _ _)
      _ ⊆ pattern.parts := parts_subset pattern hpart
  | _ => cases heq

lemma parts_subset_of_grammar (h : pattern.grammar name = some target) :
    target.parts ⊆ pattern.parts :=
  parts_subset_of_mem_tables (Table.mem_of_lookup_reverse h)

end Matcher

end

/-! ### Nesting -/

/-- A rule refers to a name. -/
def Grammar.Leads (grammar : Grammar) (name name' : Text) : Prop :=
  ∃ target, grammar name = some target ∧ name' ∈ target.references

/-- No rule leads back to itself. -/
def Grammar.Acyclic (grammar : Grammar) : Prop :=
  ∀ name, ¬ Relation.TransGen grammar.Leads name name

/-- No rule leads back to itself where each refers to rules of lower rank only. -/
lemma Grammar.acyclic_of_rank {grammar : Grammar} (rank : Text → Nat)
    (h : ∀ name name', grammar.Leads name name' → rank name' < rank name) : grammar.Acyclic := by
  have hlt {name name' : Text} (hleads : Relation.TransGen grammar.Leads name name') :
      rank name' < rank name := by
    induction hleads with
    | single hleads => exact h _ _ hleads
    | tail _ hleads ih => exact (h _ _ hleads).trans ih
  exact fun name hleads => (hlt hleads).false

/-- At most `n` references to rules are nested inside one another, from a matcher on. -/
def Matcher.NestsWithin (grammar : Grammar) : (n : Nat) → Matcher → Prop
  | 0, matcher => ∀ name ∈ matcher.references, grammar name = none
  | n + 1, matcher =>
    ∀ name ∈ matcher.references, ∀ target, grammar name = some target →
      target.NestsWithin grammar n

/-- References that are nested deeper go along a chain of rules, each of which refers to the
next. -/
lemma Matcher.exists_chain {grammar : Grammar} {n : Nat} {matcher : Matcher}
    (h : ¬ matcher.NestsWithin grammar n) :
    ∃ names : List Text, names.length = n + 1 ∧ names.IsChain grammar.Leads ∧
      (∀ name ∈ names.head?, name ∈ matcher.references) ∧ ∀ name ∈ names, grammar name ≠ none := by
  induction n generalizing matcher with
  | zero =>
    simp only [NestsWithin, not_forall] at h
    obtain ⟨name, hname, hrule⟩ := h
    exact ⟨[name], rfl, .singleton name, by simpa using hname, by simpa using hrule⟩
  | succ n ih =>
    simp only [NestsWithin, not_forall] at h
    obtain ⟨name, hname, target, htarget, hdeep⟩ := h
    obtain ⟨names, hlength, hchain, hhead, hrules⟩ := ih hdeep
    refine ⟨name :: names, by simp [hlength], ?_, by simpa using hname, ?_⟩
    · have hleads : ∀ name' ∈ names.head?, grammar.Leads name name' :=
        fun name' hname' => ⟨target, htarget, hhead name' hname'⟩
      exact List.isChain_cons.mpr ⟨hleads, hchain⟩
    · simpa [htarget] using hrules

/-- Where no rule leads back to itself, references are nested no deeper than there are rules. -/
lemma Matcher.nestsWithin_of_acyclic {pattern : Matcher} (h : pattern.grammar.Acyclic)
    (matcher : Matcher) : matcher.NestsWithin pattern.grammar pattern.tables.flatten.length := by
  by_contra hdeep
  obtain ⟨names, hlength, hchain, -, hrules⟩ := exists_chain hdeep
  have hpairs : names.Pairwise (Relation.TransGen pattern.grammar.Leads) :=
    List.isChain_iff_pairwise.mp (hchain.imp fun _ _ => .single)
  -- a chain with a name twice would lead from a rule back to itself
  have hnodup : names.Nodup := by
    refine hpairs.imp ?_
    rintro name _ hleads rfl
    exact h name hleads
  have hsubset : names ⊆ Table.names pattern.tables.flatten := by
    intro name hname
    by_contra hnone
    exact hrules name hname (Table.lookup_reverse_eq_none_iff.mpr hnone)
  have hle := (List.subperm_of_subset hnodup hsubset).length_le
  rw [hlength, Table.names, List.length_map] at hle
  omega

end Motif
