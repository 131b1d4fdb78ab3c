import Motif.Proofs.Simulation
import Motif.Proofs.Visits

/-!
# Letrecs without use

Rules are looked up where a reference is run, not where it is written. The rules of a letrec are
therefore in scope in all that is run from its body on, the rules that it calls included, whether
they were given inside or outside: a name that a letrec gives anew means the new rule in outer rules
as well, until it is given anew again. A letrec can be replaced by its body if a match looks none of
its rules up there, and it is not enough to look for their names in the body alone.
-/

namespace Motif

section

variable {H : Predicates}

/-! ### Letrecs replaced by their bodies -/

/-- A letrec is replaced by its body, in one place, in several or in none. -/
abbrev Unscopes (rules : List (Value × Matcher)) (body : Matcher) : Matcher → Matcher → Prop :=
  Recast id fun rules' body' => rules' = rules ∧ body' = body

section

variable {rules : List (Value × Matcher)} {body : Matcher}

/-- What does not have the letrec in it stays. -/
lemma Unscopes.eq_of_not_mem {matcher matcher' : Matcher} (h : Unscopes rules body matcher matcher')
    (hnot : .letrec rules body ∉ matcher.parts) : matcher' = matcher := by
  refine Recast.eq_of_undropped matcher h fun part hpart hdrops => ?_
  cases part with
  | letrec =>
    obtain ⟨rfl, rfl⟩ := hdrops
    exact hnot hpart
  | _ => exact hdrops

/-! ### Rules that are looked up -/

namespace Visit

/-- A rule of a letrec is looked up: a reference or a variable of its name is run, the name is not
bound to data, and no letrec further inside has given it anew. -/
def LooksUp (rules : List (Value × Matcher)) (body : Matcher) (v : Visit) : Prop :=
  ∃ name, (v.matcher = .reference name ∨ v.matcher.binds? = some name) ∧
    name ∉ v.env.bindings.names ∧ v.scope.giver? name = some (rules, body)

/-- A variable comes to a matcher among the data and stands for a rule with this letrec in it, to
which the matcher may be equal. -/
def Compares (rules : List (Value × Matcher)) (body : Matcher) (v : Visit) : Prop :=
  ∃ name target m others, v.matcher.binds? = some name ∧ name ∉ v.env.bindings.names ∧
    v.env.rules.lookup name = some target ∧ .letrec rules body ∈ target.parts ∧
    v.items = .matcher m :: others

end Visit

/-! ### The match without a letrec -/

/-- All names but those that mean rules of a letrec stand for the same rules, up to this letrec
replaced by its body. -/
def Table.MatchedBut (rules : List (Value × Matcher)) (body : Matcher) (scope : Scope)
    (table table' : Table Matcher) : Prop :=
  ∀ name, scope.giver? name ≠ some (rules, body) →
    Option.Rel (Unscopes rules body) (table.lookup name) (table'.lookup name)

namespace Visit

variable {v : Visit} {env env' : Environment} {items : List Value} {name : Text} {scope : Scope}

/-- A name that is looked up stands for the same. -/
lemma lookup_rel (h : ¬ v.LooksUp rules body)
    (hmatched : v.env.Matched (Table.MatchedBut rules body v.scope) env')
    (hname : v.matcher = .reference name ∨ v.matcher.binds? = some name)
    (hunbound : v.env.bindings.lookup name = none) :
    Option.Rel (Unscopes rules body) (v.env.rules.lookup name) (env'.rules.lookup name) :=
  hmatched.rules name fun hgiver =>
    h ⟨name, hname, Table.lookup_eq_none_iff.mp hunbound, hgiver⟩

lemma agreeOn (hlooks : ¬ v.LooksUp rules body) (hcompares : ¬ v.Compares rules body)
    (hmatched : v.env.Matched (Table.MatchedBut rules body v.scope) env')
    (hbinds : v.matcher.binds? = some name) : v.env.AgreeOn name v.items env' := by
  refine .of_lookup hmatched.bindings (lookup_rel hlooks hmatched (.inr hbinds)) ?_
  intro hunbound target target' htarget hunscopes
  by_cases hpart : .letrec rules body ∈ target.parts
  · exact .inr fun m others hitems => hcompares ⟨name, target, m, others, hbinds,
      Table.lookup_eq_none_iff.mp hunbound, htarget, hpart, hitems⟩
  · exact .inl (hunscopes.eq_of_not_mem hpart)

lemma call (hlooks : ¬ Visit.LooksUp rules body ⟨.reference name, items, env, scope⟩)
    (hmatched : env.Matched (Table.MatchedBut rules body scope) env') :
    Option.Rel (Unscopes rules body) (env.matcher? name) (env'.matcher? name) :=
  Environment.matcher?_rel_of_lookup hmatched.bindings (fun m _ => .refl m) fun hlookup =>
    lookup_rel hlooks hmatched (.inl rfl) hlookup

end Visit

namespace Table.MatchedBut

variable {scope : Scope} {table table' : Table Matcher} {inner : Matcher}

lemma insertAll (h : MatchedBut rules body scope table table')
    {entries entries' : List (Value × Matcher)}
    (hentries : List.Forall₂ (fun rule rule' => rule'.1 = id rule.1 ∧
      Unscopes rules body rule.2 rule'.2) (namedRules entries) (namedRules entries')) :
    MatchedBut rules body ((entries, inner) :: scope) (table.insertAll (namedRules entries))
      (table'.insertAll (namedRules entries')) := by
  intro name hgiver
  refine lookup_insertAll_rel hentries (fun _ _ => id) fun hnew => h name ?_
  rwa [Scope.giver?, List.find?_cons_of_neg (by simpa using hnew)] at hgiver

/-- In the body of the letrec itself its names are looked up in the one match only. -/
lemma dropped (h : MatchedBut rules body scope table table') :
    MatchedBut rules body ((rules, body) :: scope) (table.insertAll (namedRules rules)) table' := by
  intro name hgiver
  by_cases hnew : name ∈ (namedRules rules).names
  · exact absurd (List.find?_cons_of_pos (by simpa using hnew)) hgiver
  · rw [Scope.giver?, List.find?_cons_of_neg (by simpa using hnew)] at hgiver
    rw [lookup_insertAll, lookup_reverse_eq_none_iff.mpr hnew, Option.none_or]
    exact h name hgiver

end Table.MatchedBut

lemma simulation_unscopes : Simulation id (fun rules' body' => rules' = rules ∧ body' = body)
    (fun v => ¬ v.LooksUp rules body ∧ ¬ v.Compares rules body)
    (Table.MatchedBut rules body) where
  agree hfine hbinds hmatched := Visit.agreeOn hfine.1 hfine.2 hmatched hbinds
  call hfine hmatched := Visit.call hfine.1 hmatched
  scope _ htables hentries := htables.insertAll hentries
  drop htables hdrops := by
    obtain ⟨rfl, rfl⟩ := hdrops
    exact htables.dropped

/-! ### What is not looked up -/

namespace Visit.Stays

variable {pattern : Matcher} {v : Visit}

/-- A rule of a letrec is not looked up if no reference and no variable that its body reaches has
the name of one of them. -/
lemma not_looksUp (h : v.Stays pattern)
    (hnames : ∀ n ∈ (namedRules rules).names, ∀ matcher, pattern.Reaches body matcher →
      matcher ≠ .reference n ∧ matcher.binds? ≠ some n) : ¬ v.LooksUp rules body := by
  rintro ⟨name, hlooks, -, hgiver⟩
  have hreaches : pattern.Reaches body v.matcher := h.fits.2 _ (List.mem_of_find?_eq_some hgiver)
  have hname : name ∈ (namedRules rules).names := by simpa using List.find?_some hgiver
  obtain ⟨hreference, hbinds⟩ := hnames name hname _ hreaches
  exact hlooks.elim hreference hbinds

/-- Nothing comes to a matcher among data without matchers. -/
lemma not_compares (h : v.Stays pattern) : ¬ v.Compares rules body := by
  rintro ⟨-, -, m, others, -, -, -, -, hitems⟩
  exact h.items_ne m others hitems

end Visit.Stays

/-- A name that is not bound to data stands for the rule of the innermost letrec around that gives
it, in rules from outside as well. -/
lemma Visit.matcher?_of_giver? {limits : Limits} {pattern : Matcher} {datum : Value} {v : Visit}
    {n : Text} {target : Matcher} (h : .called v ∈ pattern.traceOf limits datum)
    (hgiver : v.scope.giver? n = some (rules, body)) (htarget : grammarOf rules n = some target)
    (hunbound : n ∉ v.env.bindings.names) : v.env.matcher? n = some target := by
  rw [Environment.matcher?_of_unbound (Table.lookup_eq_none_iff.mpr hunbound),
    Visit.rules_eq_of_called h, Scope.lookup_rules, hgiver]
  exact htarget

end

/-- A letrec can be replaced by its body, in one place or in several: as many items are used and the
same data is bound, if there is a match at all. This holds unless the match looks one of its rules
up from its body on, or compares a rule that it is in with a matcher among the data. On data without
matchers it does neither if nothing that the body reaches by references has the name of one of its
rules. Otherwise the names stand for its rules in all that is run from the body on, and in rules
from outside as well, unless they are bound to data or given anew. -/
theorem Matcher.outcome_unscoped [Predicates] (limits : Limits) {rules : List (Value × Matcher)}
    {body pattern pattern' : Matcher} (h : Unscopes rules body pattern pattern') (datum : Value) :
    (OnlyRuns (¬ ·.LooksUp rules body) (pattern.traceOf limits datum) →
        OnlyRuns (¬ ·.Compares rules body) (pattern.traceOf limits datum) →
        Outcome.found <$> pattern'.outcome limits datum =
          Outcome.found <$> pattern.outcome limits datum) ∧
      (datum.Inert →
        (∀ n ∈ (namedRules rules).names, ∀ matcher, pattern.Reaches body matcher →
          matcher ≠ .reference n ∧ matcher.binds? ≠ some n) →
        OnlyRuns (¬ ·.LooksUp rules body) (pattern.traceOf limits datum) ∧
          OnlyRuns (¬ ·.Compares rules body) (pattern.traceOf limits datum)) ∧
      ∀ {v : Visit} {n : Text} {target : Matcher}, .called v ∈ pattern.traceOf limits datum →
        v.scope.giver? n = some (rules, body) → grammarOf rules n = some target →
        n ∉ v.env.bindings.names → v.env.matcher? n = some target := by
  refine ⟨fun hlooks hcompares => ?_, fun hdatum hnames => ⟨fun v hv => ?_, fun v hv => ?_⟩,
    Visit.matcher?_of_giver?⟩
  · exact simulation_unscopes.found_eq h (fun _ _ => .none) fun v hv =>
      ⟨hlooks v hv, hcompares v hv⟩
  · exact (Visit.stays_of_called hdatum hv).not_looksUp hnames
  · exact (Visit.stays_of_called hdatum hv).not_compares

end

/-- A letrec with a rule that nothing refers to, in the scope of another rule of this name, which is
referred to outside only; and a letrec whose rule is referred to in an alternative that is not
tried. -/
theorem Matcher.outcome_unscoped_unused :
    let a : Text := [.char 'a']
    let r : Text := [.char 'r']
    let x : Text := [.char 'x']
    let rules : List (Value × Matcher) := [(.str a, .constant (.int 2))]
    let outer : List (Value × Matcher) :=
      [(.str a, .constant (.int 1)), (.str r, .array [.element x none])]
    let pattern := Matcher.letrec outer
      (.array [.reference a, .letrec rules (.reference r)])
    let pattern' := Matcher.letrec outer (.array [.reference a, .reference r])
    let datum := Value.list [.int 1, .list [.int 5]]
    let body := Matcher.choice [.constant (.int 1), .reference a]
    let untried := Matcher.letrec rules body
    (Unscopes rules (.reference r) pattern pattern' ∧ datum.Inert ∧
      (∀ n ∈ (namedRules rules).names, ∀ matcher, pattern.Reaches (.reference r) matcher →
        matcher ≠ .reference n ∧ matcher.binds? ≠ some n) ∧
      Outcome.found <$> pattern'.outcome {} datum = .ok (some (1, [(x, .int 5)]))) ∧
    Unscopes rules body untried body ∧
      OnlyRuns (¬ ·.LooksUp rules body) (untried.traceOf {} (.int 1)) ∧
      OnlyRuns (¬ ·.Compares rules body) (untried.traceOf {} (.int 1)) ∧
      Outcome.found <$> body.outcome {} (.int 1) = .ok (some (1, [])) := by
  intro a r x rules outer pattern pattern' datum body untried
  have hunscopes : Unscopes rules (.reference r) pattern pattern' :=
    .letrec rfl (Recast.refl_rules outer)
      (.array (.cons .reference (.cons (.dropped ⟨rfl, rfl⟩ .reference) .nil)))
  have hinner : (Value.list [.int 5]).Inert :=
    Value.inert_seq_iff.mpr (by simpa using Value.inert_int 5)
  have hdatum : datum.Inert :=
    Value.inert_seq_iff.mpr (by simpa using ⟨Value.inert_int 1, hinner⟩)
  have hreaches (matcher : Matcher) (h : pattern.Reaches (.reference r) matcher) :
      matcher = .reference r ∨ matcher = .array [.element x none] ∨ matcher = .element x none := by
    induction h with
    | first => exact .inl rfl
    | element _ hmem ih =>
      rcases ih with heq | heq | heq <;> cases heq
      exact .inr (.inr (List.mem_singleton.mp hmem))
    | alternative _ _ ih => rcases ih with heq | heq | heq <;> cases heq
    | body _ ih => rcases ih with heq | heq | heq <;> cases heq
    | @rule name target _ hmem ih =>
      rcases ih with heq | heq | heq <;> cases heq
      have hrules : pattern.tables.flatten =
          [(a, .constant (.int 1)), (r, .array [.element x none]), (a, .constant (.int 2))] := rfl
      rw [hrules] at hmem
      have hne : r ≠ a := by decide
      simp only [List.mem_cons, Prod.mk.injEq, hne, false_and, true_and, false_or, or_false,
        List.not_mem_nil] at hmem
      exact .inr (.inl hmem)
  have hnames : ∀ n ∈ (namedRules rules).names, ∀ matcher, pattern.Reaches (.reference r) matcher →
      matcher ≠ .reference n ∧ matcher.binds? ≠ some n := by
    intro n hn matcher h
    cases List.mem_singleton.mp hn
    rcases hreaches matcher h with rfl | rfl | rfl
    · exact ⟨by simp [a, r], nofun⟩
    · exact ⟨nofun, nofun⟩
    · exact ⟨nofun, by simp [Matcher.binds?, a, x]⟩
  have hfound : Outcome.found <$> pattern.outcome {} datum = .ok (some (1, [(x, .int 5)])) := by
    dsimp only [pattern, outer, rules, datum, a, r, x]
    cbv
  have hfound' : Outcome.found <$> untried.outcome {} (.int 1) = .ok (some (1, [])) := by
    dsimp only [untried, body, rules, a]
    cbv
  have hrun : ((untried.traceOf {} (.int 1)).filterMap Event.visit?).all (fun v =>
      v.matcher.kind? != some .reference && v.matcher.binds?.isNone) = true := by
    dsimp only [untried, body, rules, a]
    cbv
  have hlooks : OnlyRuns (¬ ·.LooksUp rules body) (untried.traceOf {} (.int 1)) := by
    refine onlyRuns_of_all ?_ hrun
    rintro v hnone ⟨name, hname | hname, -⟩
    · simp [hname, Matcher.kind?] at hnone
    · simp [hname] at hnone
  have hcompares : OnlyRuns (¬ ·.Compares rules body) (untried.traceOf {} (.int 1)) :=
    fun v hv => (Visit.stays_of_called (Value.inert_int 1) hv).not_compares
  obtain ⟨hunscoped, hquiet, -⟩ := Matcher.outcome_unscoped {} hunscopes datum
  obtain ⟨hunscoped', -, -⟩ :=
    Matcher.outcome_unscoped {} (Recast.dropped ⟨rfl, rfl⟩ (.refl body)) (.int 1)
  obtain ⟨hlooks', hcompares'⟩ := hquiet hdatum hnames
  exact ⟨⟨hunscopes, hdatum, hnames, (hunscoped hlooks' hcompares').trans hfound⟩,
    .dropped ⟨rfl, rfl⟩ (.refl body), hlooks, hcompares,
    (hunscoped' hlooks hcompares).trans hfound'⟩

/-- A rule of an inner letrec takes the place of an outer one of its name in another outer rule that
the body calls, though the body does not mention this name. A rule that is a letrec is no longer
equal to a matcher among the data once it is replaced by its body. -/
theorem Matcher.found_ne_of_inner_rule :
    let a : Text := [.char 'a']
    let r : Text := [.char 'r']
    let rules : List (Value × Matcher) := [(.str a, .constant (.int 2))]
    let outer : List (Value × Matcher) := [(.str a, .constant (.int 1)), (.str r, .reference a)]
    let pattern := Matcher.letrec outer (.letrec rules (.reference r))
    let pattern' := Matcher.letrec outer (.reference r)
    let inner := Matcher.letrec rules (.constant (.int 3))
    let comparing := Matcher.letrec [(.str r, inner)] (.element r none)
    let comparing' := Matcher.letrec [(.str r, .constant (.int 3))] (.element r none)
    (Unscopes rules (.reference r) pattern pattern' ∧
      (∀ part ∈ (Matcher.reference r).parts, ∀ n ∈ (namedRules rules).names, n ∉ part.mentions) ∧
      Outcome.found <$> pattern.outcome {} (.int 1) = .ok none ∧
      Outcome.found <$> pattern.outcome {} (.int 2) = .ok (some (1, [])) ∧
      Outcome.found <$> pattern'.outcome {} (.int 1) = .ok (some (1, [])) ∧
      Outcome.found <$> pattern'.outcome {} (.int 2) = .ok none) ∧
    Unscopes rules (.constant (.int 3)) comparing comparing' ∧
      Outcome.found <$> comparing.outcome {} (.matcher inner) = .ok (some (1, [])) ∧
      Outcome.found <$> comparing'.outcome {} (.matcher inner) = .ok none := by
  intro a r rules outer pattern pattern' inner comparing comparing'
  have hunscopes : Unscopes rules (.reference r) pattern pattern' :=
    .letrec rfl (Recast.refl_rules outer) (.dropped ⟨rfl, rfl⟩ .reference)
  have hunscopes' : Unscopes rules (.constant (.int 3)) comparing comparing' :=
    .letrec rfl (.cons (.dropped ⟨rfl, rfl⟩ .constant) .nil) .element
  refine ⟨⟨hunscopes, by decide, ?_, ?_, ?_, ?_⟩, hunscopes', ?_, ?_⟩ <;>
  · dsimp only [pattern, pattern', comparing, comparing', inner, outer, rules, a, r]
    cbv

end Motif
