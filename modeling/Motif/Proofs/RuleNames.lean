import Motif.Proofs.Notation
import Motif.Proofs.Rules
import Mathlib

/-!
# Names of rules

The rules of a letrec are written as a dictionary or as pairs. Where the keys of the dictionary are
texts this makes no difference: both literals compile to the same matcher, with the rules in their
order, or both are refused for the same reason.

The names in pairs are looked at, though, and the keys of a dictionary are not. One that is no text
is refused in a pair and taken in a dictionary, where it names a rule that no reference leads to.
Where no dictionary in a literal has such a key, all rules of the matcher are named by texts, and no
two rules of a letrec have the same name.
-/

namespace Motif

/-- The rules of every letrec in a matcher are named by texts no two of which are equal. -/
def Matcher.NamesRules (matcher : Matcher) : Prop :=
  ∀ part ∈ matcher.parts, ∀ names ∈ part.ruleNames?,
    ∃ texts : List Text, names = texts.map .str ∧ texts.Nodup

lemma Matcher.namesRules_of_leaf {matcher : Matcher} (hleaf : matcher.parts = [matcher])
    (hnames : matcher.ruleNames? = none) : matcher.NamesRules := by
  intro part hpart names hpartNames
  rw [hleaf, List.mem_singleton] at hpart
  rw [hpart, hnames] at hpartNames
  cases hpartNames

lemma Matcher.namesRules_allParts {matchers : List Matcher}
    (h : ∀ matcher ∈ matchers, matcher.NamesRules) {part : Matcher}
    (hpart : part ∈ allParts matchers) {names : List Value} (hnames : names ∈ part.ruleNames?) :
    ∃ texts : List Text, names = texts.map .str ∧ texts.Nodup := by
  rw [allParts_eq_flatMap] at hpart
  obtain ⟨matcher, hmatcher, hpart⟩ := List.mem_flatMap.mp hpart
  exact h matcher hmatcher part hpart names hnames

lemma Matcher.namesRules_of_allParts {matcher : Matcher} {matchers : List Matcher}
    (hparts : matcher.parts = matcher :: allParts matchers) (hnone : matcher.ruleNames? = none)
    (h : ∀ inner ∈ matchers, inner.NamesRules) : matcher.NamesRules := by
  intro part hpart names hnames
  rw [hparts] at hpart
  rcases List.mem_cons.mp hpart with rfl | hpart
  · rw [hnone] at hnames
    cases hnames
  · exact namesRules_allParts h hpart hnames

lemma Matcher.namesRules_letrec {rules : List (Value × Matcher)} {body : Matcher}
    (htexts : ∃ texts : List Text, rules.map Prod.fst = texts.map .str ∧ texts.Nodup)
    (hrules : ∀ matcher ∈ rules.map Prod.snd, matcher.NamesRules) (hbody : body.NamesRules) :
    (Matcher.letrec rules body).NamesRules := by
  intro part hpart names hnames
  rcases List.mem_cons.mp hpart with rfl | hpart
  · cases hnames
    exact htexts
  · rcases List.mem_append.mp hpart with hpart | hpart
    · rw [rulesParts_eq_allParts] at hpart
      exact namesRules_allParts hrules hpart hnames
    · exact hbody part hpart names hnames

namespace Value

/-- Wherever a dictionary gives the rules of a letrec in a literal, its keys are texts, no two of
them equal. What is a matcher already names its rules by texts as well. -/
inductive NamesRules : Value → Prop where
  | matcher {m : Matcher} (h : m.NamesRules) : NamesRules (.matcher m)
  | mapping {shape : Shape} {members : List (Text × Value)} {body : Value}
    (hnames : (members.map Prod.fst).Nodup)
    (hrules : ∀ literal ∈ members.map Prod.snd, NamesRules literal) (hbody : NamesRules body) :
    NamesRules (.seq shape [.form .letrec, .dict (named members), body])
  | seq {shape : Shape} {items : List Value}
    (hmapping : ∀ entries body, items ≠ [.form .letrec, .dict entries, body])
    (h : ∀ item ∈ items, NamesRules item) : NamesRules (.seq shape items)
  | plain {v : Value} (hitems : v.items? = none) (hmatcher : ∀ m, v ≠ .matcher m) : NamesRules v

/-! ### Compiled rules -/

/-- A rule has the name of an entry and what the literal of the entry compiles to. -/
def RuleOf (entry : Value × Value) (rule : Value × Matcher) : Prop :=
  rule.1 = entry.1 ∧ entry.2.compile = .ok rule.2

lemma exists_of_forall₂ {α β : Type} {R : α → β → Prop} {as : List α} {bs : List β}
    (h : List.Forall₂ R as bs) {b : β} (hb : b ∈ bs) : ∃ a ∈ as, R a b := by
  induction h with
  | nil => cases hb
  | cons hrel _ ih =>
    rcases List.mem_cons.mp hb with rfl | hb
    · exact ⟨_, List.mem_cons_self, hrel⟩
    · obtain ⟨a, ha, hrel⟩ := ih hb
      exact ⟨a, List.mem_cons_of_mem _ ha, hrel⟩

lemma map_fst_of_forall₂ {entries : List (Value × Value)} {rules : List (Value × Matcher)}
    (h : List.Forall₂ RuleOf entries rules) : rules.map Prod.fst = entries.map Prod.fst := by
  induction h with
  | nil => rfl
  | cons hrule _ ih => rw [List.map_cons, List.map_cons, hrule.1, ih]

/-- The entries of a dictionary become rules in their order. -/
lemma compileEntries_eq_ok_iff {entries : List (Value × Value)} {rules : List (Value × Matcher)} :
    compileEntries entries = .ok rules ↔ List.Forall₂ RuleOf entries rules := by
  constructor
  · intro h
    induction entries generalizing rules with
    | nil =>
      rw [compileEntries] at h
      cases h
      exact .nil
    | cons entry entries ih =>
      rw [compileEntries] at h
      obtain ⟨matcher, hmatcher, h⟩ := exists_of_bind_eq_ok h
      obtain ⟨others, hothers, h⟩ := exists_of_bind_eq_ok h
      cases h
      exact .cons ⟨rfl, hmatcher⟩ (ih hothers)
  · intro h
    induction h with
    | nil => rw [compileEntries]
    | @cons entry rule entries rules hrule _ ih =>
      rw [compileEntries, hrule.2, ih, ← hrule.1]
      rfl

/-- Pairs become rules in their order, and what comes after them the body. -/
lemma exists_of_compileRules {parts : List Value} {rules : List (Value × Matcher)} {body : Matcher}
    (h : compileRules parts = .ok (rules, body)) :
    ∃ pairs last, parts = pairs ++ [last] ∧ last.compile = .ok body ∧
      List.Forall₂ (fun pair rule => ∃ shape entry, pair = .seq shape [entry.1, entry.2] ∧
        RuleOf entry rule) pairs rules := by
  induction parts generalizing rules body with
  | nil =>
    rw [compileRules] at h
    cases h
  | cons part parts ih =>
    rw [compileRules.eq_def] at h
    split at h
    · cases h
    · rename_i last heq
      obtain ⟨matcher, hmatcher, h⟩ := exists_of_bind_eq_ok h
      cases h
      exact ⟨[], last, heq, hmatcher, .nil⟩
    · rename_i shape name literal parts' _ heq
      obtain ⟨rfl, rfl⟩ := List.cons.inj heq
      obtain ⟨matcher, hmatcher, h⟩ := exists_of_bind_eq_ok h
      obtain ⟨⟨others, body'⟩, hothers, h⟩ := exists_of_bind_eq_ok h
      cases h
      obtain ⟨pairs, last, rfl, hlast, hpairs⟩ := ih hothers
      exact ⟨_ :: pairs, last, rfl, hlast,
        .cons ⟨shape, (name, literal), rfl, rfl, hmatcher⟩ hpairs⟩
    · cases h

/-- Rules from pairs with which nothing is wrong are named by texts no two of which are equal. -/
lemma exists_texts_of_rulesFault? {pairs : List Value} {rules : List (Value × Matcher)}
    (hfault : rulesFault? pairs = none)
    (h : List.Forall₂ (fun pair rule => ∃ shape entry, pair = .seq shape [entry.1, entry.2] ∧
      RuleOf entry rule) pairs rules) :
    ∃ texts : List Text, rules.map Prod.fst = texts.map .str ∧ texts.Nodup := by
  rw [rulesFault?] at hfault
  cases hfind : pairs.find? (·.ruleName?.isNone) with
  | some entry => simp [hfind] at hfault
  | none =>
    have hrepeated : repeated (pairs.filterMap ruleName?) = [] := by
      cases hnames : repeated (pairs.filterMap ruleName?) with
      | nil => rfl
      | cons => simp [hfind, hnames] at hfault
    refine ⟨pairs.filterMap ruleName?, ?_, List.nodup_iff_count_le_one.mpr fun name => ?_⟩
    · have hnamed := List.find?_eq_none.mp hfind
      clear hfault hfind hrepeated
      induction h with
      | nil => rfl
      | @cons pair rule pairs rules hpair _ ih =>
        obtain ⟨hfirst, hothers⟩ := List.forall_mem_cons.mp hnamed
        obtain ⟨shape, ⟨key, literal⟩, rfl, hkey, -⟩ := hpair
        cases key with
        | str name =>
          rw [List.map_cons, hkey, ih hothers]
          rfl
        | _ => simp [ruleName?] at hfirst
    · by_contra hcount
      have hmem : name ∈ repeated (pairs.filterMap ruleName?) := by
        rw [repeated, Text.mem_sortedNames, List.mem_filter]
        exact ⟨List.count_pos_iff.mp (by omega), by simpa using hcount⟩
      rw [hrepeated] at hmem
      cases hmem

/-! ### The two spellings -/

lemma compile_mapping (shape : Shape) (entries : List (Value × Value)) (body : Value) :
    (Value.seq shape [.form .letrec, .dict entries, body]).compile = do
      let rules ← compileEntries entries
      return .letrec rules (← body.compile) := by
  rw [compile]

lemma compileRules_pairs (entries : List (Value × Value)) (body : Value) :
    compileRules ((entries.map fun (name, literal) => Value.tuple [name, literal]) ++ [body]) = do
      let rules ← compileEntries entries
      return (rules, ← body.compile) := by
  induction entries with
  | nil =>
    rw [List.map_nil, List.nil_append, compileRules, compileEntries]
    rfl
  | cons entry entries ih =>
    rw [List.map_cons, List.cons_append, compileRules, ih, compileEntries]
    · cases entry.2.compile with
      | error e => rfl
      | ok matcher =>
        cases compileEntries entries with
        | error e => rfl
        | ok rules => cases body.compile <;> rfl
    · simp

/-- Rules in pairs are read as rules in a dictionary, once nothing is wrong with the pairs. -/
lemma compile_letrecLiteral_eq_mapping (entries : List (Value × Value)) (body : Value) :
    (letrecLiteral entries body).compile =
      match rulesFault? (entries.map fun (name, literal) => Value.tuple [name, literal]) with
      | some e => .error e
      | none => (Value.list [.form .letrec, .dict entries, body]).compile := by
  rw [compile_letrecLiteral_eq, compileRules_pairs, compile_mapping]
  cases rulesFault? _ with
  | some e => rfl
  | none =>
    cases compileEntries entries with
    | error e => rfl
    | ok rules => cases body.compile <;> rfl

/-- A pair whose name is no text is refused. -/
lemma exists_rulesFault?_of_key {entries : List (Value × Value)} {key : Value}
    (hkey : key ∈ entries.map Prod.fst) (htext : ∀ name, key ≠ .str name) :
    ∃ pair, rulesFault? (entries.map fun (name, literal) => Value.tuple [name, literal]) =
      some (.notARule pair) := by
  obtain ⟨⟨name, literal⟩, hentry, rfl⟩ := List.mem_map.mp hkey
  have hpair : Value.tuple [name, literal] ∈
      entries.map fun (name, literal) => Value.tuple [name, literal] :=
    List.mem_map.mpr ⟨_, hentry, rfl⟩
  have hnone : (Value.tuple [name, literal]).ruleName?.isNone = true := by
    cases name with
    | str name => exact absurd rfl (htext name)
    | _ => rfl
  obtain ⟨pair, hfind⟩ := Option.isSome_iff_exists.mp
    (List.find?_isSome (p := (·.ruleName?.isNone)) |>.mpr ⟨_, hpair, hnone⟩)
  exact ⟨pair, by rw [rulesFault?, hfind]⟩

/-- A letrec whose rules are given as a dictionary compiles if everything in it does. -/
lemma compile_mapping_eq_ok_iff {shape : Shape} {entries : List (Value × Value)} {body : Value}
    {matcher : Matcher} :
    (Value.seq shape [.form .letrec, .dict entries, body]).compile = .ok matcher ↔
      ∃ rules body', List.Forall₂ RuleOf entries rules ∧ body.compile = .ok body' ∧
        matcher = .letrec rules body' := by
  rw [compile_mapping]
  constructor
  · intro h
    obtain ⟨rules, hrules, h⟩ := exists_of_bind_eq_ok h
    obtain ⟨body', hbody, h⟩ := exists_of_bind_eq_ok h
    cases h
    exact ⟨rules, body', compileEntries_eq_ok_iff.mp hrules, hbody, rfl⟩
  · rintro ⟨rules, body', hrules, hbody, rfl⟩
    rw [compileEntries_eq_ok_iff.mpr hrules, hbody]
    rfl

/-! ### Names in compiled literals -/

/-- Whatever a literal compiles to names its rules by texts. -/
def CompilesNamed (literal : Value) : Prop :=
  ∀ matcher, literal.compile = .ok matcher → matcher.NamesRules

lemma compilesNamed_of_compileItems {literals : List Value} {matchers : List Matcher}
    (h : ∀ literal ∈ literals, literal.CompilesNamed)
    (hcompile : compileItems literals = .ok matchers) :
    ∀ matcher ∈ matchers, matcher.NamesRules := by
  rw [compileItems_eq_mapM] at hcompile
  intro matcher hmatcher
  obtain ⟨literal, hliteral, hcompiled⟩ := exists_of_mem_of_mapM_eq_ok hcompile hmatcher
  exact h literal hliteral matcher hcompiled

lemma compilesNamed_mapping {shape : Shape} {members : List (Text × Value)} {body : Value}
    (hnames : (members.map Prod.fst).Nodup)
    (hrules : ∀ literal ∈ members.map Prod.snd, literal.CompilesNamed)
    (hbody : body.CompilesNamed) :
    (Value.seq shape [.form .letrec, .dict (named members), body]).CompilesNamed := by
  intro matcher hcompile
  obtain ⟨rules, body', hpaired, hbody', rfl⟩ := compile_mapping_eq_ok_iff.mp hcompile
  refine Matcher.namesRules_letrec ⟨members.map Prod.fst, ?_, hnames⟩ ?_ (hbody _ hbody')
  · rw [map_fst_of_forall₂ hpaired, map_fst_named]
  · intro matcher hmatcher
    obtain ⟨rule, hrule, rfl⟩ := List.mem_map.mp hmatcher
    obtain ⟨entry, hentry, -, hcompiled⟩ := exists_of_forall₂ hpaired hrule
    obtain ⟨member, hmember, rfl⟩ := List.mem_map.mp hentry
    exact hrules _ (List.mem_map_of_mem hmember) _ hcompiled

/-- The literals in the pairs of a letrec are items of its items. -/
lemma compilesNamed_pairs {shape : Shape} {parts : List Value}
    (hmapping : ∀ entries body, parts ≠ [.dict entries, body])
    (hbody : ∀ part ∈ parts, part.CompilesNamed)
    (hpairs : ∀ part ∈ parts, ∀ items, part.items? = some items → ∀ item ∈ items,
      item.CompilesNamed) :
    (Value.seq shape (.form .letrec :: parts)).CompilesNamed := by
  intro matcher hcompile
  rw [compile] at hcompile
  · cases hfault : rulesFault? parts.dropLast with
    | some e =>
      rw [hfault] at hcompile
      cases hcompile
    | none =>
      rw [hfault] at hcompile
      obtain ⟨⟨rules, body⟩, hrules, hcompile⟩ := exists_of_bind_eq_ok hcompile
      cases hcompile
      obtain ⟨pairs, last, rfl, hlast, hpaired⟩ := exists_of_compileRules hrules
      rw [List.dropLast_concat] at hfault
      refine Matcher.namesRules_letrec (exists_texts_of_rulesFault? hfault hpaired) ?_
        (hbody last (by simp) body hlast)
      intro matcher hmatcher
      obtain ⟨rule, hrule, rfl⟩ := List.mem_map.mp hmatcher
      obtain ⟨pair, hpair, shape, entry, rfl, -, hcompiled⟩ := exists_of_forall₂ hpaired hrule
      exact hpairs _ (List.mem_append_left _ hpair) _ rfl entry.2 (by simp) _ hcompiled
  · exact fun entries body h => hmapping entries body h

lemma compilesNamed_choose {shape : Shape} {alternatives : List Value}
    (h : ∀ alternative ∈ alternatives, alternative.CompilesNamed) :
    (Value.seq shape (.form .choose :: alternatives)).CompilesNamed := by
  intro matcher hcompile
  rw [compile] at hcompile
  obtain ⟨matchers, hmatchers, rfl⟩ := exists_of_map_eq_ok hcompile
  exact Matcher.namesRules_of_allParts rfl rfl (compilesNamed_of_compileItems h hmatchers)

lemma compilesNamed_list {shape : Shape} {items : List Value}
    (hhead : ∀ form, items.head? ≠ some (.form form)) (h : ∀ item ∈ items, item.CompilesNamed) :
    (Value.seq shape items).CompilesNamed := by
  intro matcher hcompile
  rw [compile_list hhead] at hcompile
  obtain ⟨matchers, hmatchers, rfl⟩ := exists_of_map_eq_ok hcompile
  exact Matcher.namesRules_of_allParts rfl rfl (compilesNamed_of_compileItems h hmatchers)

lemma compilesNamed_scalar {literal : Value} (hitems : literal.items? = none)
    (hmatcher : ∀ matcher, literal ≠ .matcher matcher) : literal.CompilesNamed := by
  intro matcher hcompile
  cases literal with
  | seq => cases hitems
  | matcher m => exact absurd rfl (hmatcher m)
  | _ =>
    simp only [compile, Except.ok.injEq] at hcompile
    subst hcompile
    exact Matcher.namesRules_of_leaf rfl rfl

/-- What a literal compiles to names its rules by texts if the literal does, and so do its items. -/
theorem NamesRules.compilesNamed {literal : Value} (h : literal.NamesRules) :
    literal.CompilesNamed ∧
      ∀ items, literal.items? = some items → ∀ item ∈ items, item.CompilesNamed := by
  -- a rule in a pair is an item of an item, so what holds of a literal is proved of its items too
  induction h with
  | matcher h =>
    refine ⟨fun matcher hcompile => ?_, fun items heq => by cases heq⟩
    rw [compile] at hcompile
    cases hcompile
    exact h
  | mapping hnames _ _ hrules hbody =>
    refine ⟨compilesNamed_mapping hnames (fun literal hmem => (hrules literal hmem).1) hbody.1, ?_⟩
    rintro items ⟨⟩ item hitem
    rcases List.mem_cons.mp hitem with rfl | hitem
    · exact compilesNamed_scalar rfl fun m heq => by cases heq
    rcases List.mem_cons.mp hitem with rfl | hitem
    · exact compilesNamed_scalar rfl fun m heq => by cases heq
    · rw [List.mem_singleton.mp hitem]
      exact hbody.1
  | @seq shape items hmapping _ ih =>
    have hitems : ∀ item ∈ items, item.CompilesNamed := fun item hmem => (ih item hmem).1
    refine ⟨?_, fun items' heq => Option.some.inj heq ▸ hitems⟩
    by_cases hhead : ∃ form, items.head? = some (.form form)
    · obtain ⟨form, hform⟩ := hhead
      obtain ⟨parts, rfl⟩ := List.head?_eq_some_iff.mp hform
      obtain ⟨-, hparts⟩ := List.forall_mem_cons.mp hitems
      cases form with
      | letrec =>
        exact compilesNamed_pairs (fun entries body heq => hmapping entries body (heq ▸ rfl)) hparts
          fun part hpart => (ih part (List.mem_cons_of_mem _ hpart)).2
      | choose => exact compilesNamed_choose hparts
    · exact compilesNamed_list (not_exists.mp hhead) hitems
  | plain hitems hmatcher =>
    refine ⟨compilesNamed_scalar hitems hmatcher, fun items heq => ?_⟩
    rw [hitems] at heq
    cases heq

/-! ### Spellings of a letrec -/

/-- Keys that are texts are the names of members. -/
lemma exists_named_of_keys {entries : List (Value × Value)}
    (h : ∀ key ∈ entries.map Prod.fst, ∃ name, key = .str name) :
    ∃ members : List (Text × Value), entries = named members := by
  induction entries with
  | nil => exact ⟨[], rfl⟩
  | cons entry entries ih =>
    obtain ⟨⟨name, hname⟩, hothers⟩ := List.forall_mem_cons.mp h
    obtain ⟨members, rfl⟩ := ih hothers
    exact ⟨(name, entry.2) :: members, by simp only [named, List.map_cons, ← hname]⟩

/-- A letrec whose rules are given as a dictionary compiles if everything in it does, to a letrec
with the rules in their order. Given as pairs they are compiled alike if all keys are texts, and
refused otherwise. Where no dictionary in a literal has another key, what the literal compiles to
names its rules by texts, no two rules of a letrec by the same one. -/
theorem compile_letrec_spellings {entries : List (Value × Value)}
    (hkeys : (entries.map Prod.fst).Nodup) (body : Value) :
    let mapping := Value.list [.form .letrec, .dict entries, body]
    let pairs := letrecLiteral entries body
    (∀ matcher, mapping.compile = .ok matcher ↔ ∃ rules body', List.Forall₂ RuleOf entries rules ∧
        body.compile = .ok body' ∧ matcher = .letrec rules body') ∧
      ((∀ key ∈ entries.map Prod.fst, ∃ name, key = .str name) → pairs.compile = mapping.compile) ∧
      (∀ key ∈ entries.map Prod.fst, (∀ name, key ≠ .str name) →
        ∃ pair, pairs.compile = .error (.notARule pair)) ∧
      ∀ (literal : Value) (matcher : Matcher), literal.NamesRules →
        literal.compile = .ok matcher → matcher.NamesRules := by
  intro mapping pairs
  refine ⟨fun matcher => compile_mapping_eq_ok_iff, ?_, ?_,
    fun literal matcher hliteral hcompile => hliteral.compilesNamed.1 matcher hcompile⟩
  · intro htexts
    obtain ⟨members, rfl⟩ := exists_named_of_keys htexts
    have hnames : (members.map Prod.fst).Nodup := by
      rw [map_fst_named] at hkeys
      exact hkeys.of_map
    have hfault : rulesFault? ((named members).map fun (name, literal) => .tuple [name, literal]) =
        none := by
      rw [named, List.map_map]
      exact rulesFault?_rulePairs hnames
    rw [compile_letrecLiteral_eq_mapping, hfault]
  · intro key hkey htext
    obtain ⟨pair, hfault⟩ := exists_rulesFault?_of_key hkey htext
    exact ⟨pair, by rw [compile_letrecLiteral_eq_mapping, hfault]⟩

/-- Two rules, the first of them a letrec given in the other spelling. -/
theorem compile_letrec_spellings_nested :
    let inner : Value := letrecLiteral [(.str "c", .rest)] (.matcher (.reference "a"))
    let entries : List (Value × Value) := [(.str "b", inner), (.str "a", .int 1)]
    let body : Value := .list [.matcher (.reference "b"), .rest]
    let mapping : Value := .list [.form .letrec, .dict entries, body]
    let matcher : Matcher := .letrec
      [(.str "b", .letrec [(.str "c", .rest)] (.reference "a")), (.str "a", .constant (.int 1))]
      (.array [.reference "b", .rest])
    (entries.map Prod.fst).Nodup ∧ (∀ key ∈ entries.map Prod.fst, ∃ name, key = .str name) ∧
      mapping.NamesRules ∧ mapping.compile = .ok matcher ∧
      (letrecLiteral entries body).compile = .ok matcher ∧ matcher.NamesRules := by
  intro inner entries body mapping matcher
  let members : List (Text × Value) := [("b", inner), ("a", .int 1)]
  have hnames : (members.map Prod.fst).Nodup := by
    simp only [members, List.map_cons, List.map_nil]
    decide
  have hkeys : ((named members).map Prod.fst).Nodup := by
    rw [map_fst_named]
    exact hnames.map fun _ _ => Value.str.inj
  have htexts : ∀ key ∈ entries.map Prod.fst, ∃ name, key = .str name := by simp [entries]
  have hreference (name : Text) : (Value.matcher (.reference name)).NamesRules :=
    .matcher (Matcher.namesRules_of_leaf rfl rfl)
  have hinner : inner.NamesRules := by
    refine .seq nofun ?_
    simp only [List.map_cons, List.map_nil, List.cons_append, List.nil_append,
      List.forall_mem_cons]
    refine ⟨.plain rfl nofun, .seq nofun ?_, hreference "a", nofun⟩
    simp only [List.forall_mem_cons]
    exact ⟨.plain rfl nofun, .plain rfl nofun, nofun⟩
  have hbody : body.NamesRules := by
    refine .seq nofun ?_
    simp only [List.forall_mem_cons]
    exact ⟨hreference "b", .plain rfl nofun, nofun⟩
  have hmapping : mapping.NamesRules := by
    refine .mapping hnames ?_ hbody
    simp only [members, List.map_cons, List.map_nil, List.forall_mem_cons]
    exact ⟨hinner, .plain rfl nofun, nofun⟩
  have hcompile : mapping.compile = .ok matcher := by
    cbv
  obtain ⟨-, hspellings, -, hnamed⟩ := compile_letrec_spellings hkeys body
  exact ⟨hkeys, htexts, hmapping, hcompile, (hspellings htexts).trans hcompile,
    hnamed mapping matcher hmapping hcompile⟩

/-- A key that is no text is refused in a pair and names a rule in a dictionary. -/
theorem compile_letrec_numbered :
    let entries : List (Value × Value) := [(.int 1, .str "a")]
    let matcher : Matcher := .letrec [(.int 1, .constant (.str "a"))] (.constant (.str "b"))
    (Value.list [.form .letrec, .dict entries, .str "b"]).compile = .ok matcher ∧
      (letrecLiteral entries (.str "b")).compile =
        .error (.notARule (.tuple [.int 1, .str "a"])) ∧ ¬ matcher.NamesRules := by
  intro entries matcher
  refine ⟨by cbv, by cbv, fun h => ?_⟩
  obtain ⟨texts, htexts, -⟩ := h matcher matcher.mem_parts_self [.int 1] rfl
  cases texts <;> cases htexts

end Value

end Motif
