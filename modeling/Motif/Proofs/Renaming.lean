import Motif.Proofs.Simulation
import Motif.Proofs.Visits

/-!
# Names of rules

A name is looked up among the data first and among the rules in scope only then, so a rule and a
variable of one name can get in the way of each other: once the variable is bound, a reference does
not find the rule, and as long as it is not, the variable stands for the rule. Nothing else hangs on
the names of rules. Where a match runs into neither, a rule can be given any new name.
-/

namespace Motif

section

variable {H : Predicates}

/-! ### Renaming -/

/-- A name, or `m` in the place of `n`. -/
def renameTo (n m name : Text) : Text := if name = n then m else name

mutual

/-- Gives rules and references called `n` the name `m`. Variables keep their names. -/
def Matcher.renameRule (n m : Text) : Matcher → Matcher
  | .array elements => .array (allRenameRule n m elements)
  | .choice alternatives => .choice (allRenameRule n m alternatives)
  | .reference name => .reference (renameTo n m name)
  | .letrec rules body => .letrec (rulesRenameRule n m rules) (body.renameRule n m)
  | matcher => matcher

/-- As `Matcher.renameRule`, for matchers. -/
def allRenameRule (n m : Text) : List Matcher → List Matcher
  | [] => []
  | matcher :: matchers => matcher.renameRule n m :: allRenameRule n m matchers

/-- As `Matcher.renameRule`, for rules. -/
def rulesRenameRule (n m : Text) : List (Value × Matcher) → List (Value × Matcher)
  | [] => []
  | (key, matcher) :: rules =>
    (key.renamedKey (renameTo n m), matcher.renameRule n m) :: rulesRenameRule n m rules

end

section

variable {n m : Text}

lemma renameTo_self (n m : Text) : renameTo n m n = m := if_pos rfl

lemma renameTo_of_ne {name : Text} (h : name ≠ n) : renameTo n m name = name := if_neg h

/-- Only `m` takes a place that another name may have. -/
lemma eq_of_renameTo_eq {name name' : Text} (hname : name ≠ m) (hname' : name' ≠ m)
    (h : renameTo n m name = renameTo n m name') : name = name' := by
  unfold renameTo at h
  split at h <;> split at h
  · simp_all
  · exact absurd h.symm hname'
  · exact absurd h hname
  · exact h

lemma eq_of_renameTo_eq_self {name : Text} (h : renameTo n m name = n) : name = m := by
  unfold renameTo at h
  split at h
  · simp_all
  · contradiction

/-- The rules and the references called `n` are called `m` instead, and no letrec is dropped. -/
abbrev Renames (n m : Text) : Matcher → Matcher → Prop := Recast (renameTo n m) fun _ _ => False

lemma map_fst_rulesRenameRule (rules : List (Value × Matcher)) :
    (rulesRenameRule n m rules).map Prod.fst =
      rules.map fun rule => rule.1.renamedKey (renameTo n m) := by
  induction rules with
  | nil => rfl
  | cons rule rules ih => exact congrArg (_ :: ·) ih

mutual

theorem Matcher.renames_renameRule : (matcher : Matcher) →
    Renames n m matcher (matcher.renameRule n m)
  | .constant _ => .constant
  | .element .. => .element
  | .segment .. => .segment
  | .segmentExact .. => .segmentExact
  | .rest => .rest
  | .array elements => .array (forall₂_allRenameRule elements)
  | .choice alternatives => .choice (forall₂_allRenameRule alternatives)
  | .reference _ => .reference
  | .letrec rules body =>
    .letrec (map_fst_rulesRenameRule rules) (forall₂_rulesRenameRule rules)
      (Matcher.renames_renameRule body)
  | .abstract _ => .abstract

theorem forall₂_allRenameRule : (matchers : List Matcher) →
    List.Forall₂ (Renames n m) matchers (allRenameRule n m matchers)
  | [] => .nil
  | matcher :: matchers =>
    .cons (Matcher.renames_renameRule matcher) (forall₂_allRenameRule matchers)

theorem forall₂_rulesRenameRule : (rules : List (Value × Matcher)) →
    List.Forall₂ (Renames n m) (rules.map Prod.snd) ((rulesRenameRule n m rules).map Prod.snd)
  | [] => .nil
  | (_, matcher) :: rules =>
    .cons (Matcher.renames_renameRule matcher) (forall₂_rulesRenameRule rules)

end

end

/-! ### Clashes -/

/-- A reference does not find the rule that is in scope, as its name is bound to data, or a variable
stands for the rule, as its name is not. -/
def Visit.Clashes (n : Text) (v : Visit) : Prop :=
  n ∈ v.env.rules.names ∧
    (v.matcher = .reference n ∧ n ∈ v.env.bindings.names ∨
      v.matcher.binds? = some n ∧ n ∉ v.env.bindings.names)

/-- Without a variable of its name nothing gets in the way of a rule. -/
lemma Visit.Stays.not_clashes {pattern : Matcher} {n : Text} {v : Visit} (h : v.Stays pattern)
    (hn : n ∉ pattern.variables) : ¬ v.Clashes n := by
  rintro ⟨-, ⟨-, hbound⟩ | ⟨hbinds, -⟩⟩
  · obtain ⟨value, hlookup⟩ := Table.mem_names_iff.mp hbound
    exact hn (h.known.bound hlookup).1
  · exact hn (Matcher.mem_variables h.fits.1 hbinds)

/-- A rule of one of the letrecs around is in scope under its name, or another one is. -/
lemma Scope.mem_names_rules {scope : Scope} {n : Text}
    (h : ∃ letrec ∈ scope, n ∈ (namedRules letrec.1).names) : n ∈ scope.rules.names := by
  induction scope with
  | nil => obtain ⟨_, hmem, -⟩ := h; cases hmem
  | cons letrec scope ih =>
    rw [rules, List.foldr_cons]
    apply Table.mem_names_insertAll_iff.mpr
    obtain ⟨l, hmem, hn⟩ := h
    rcases List.mem_cons.mp hmem with rfl | hmem
    · exact .inl hn
    · exact .inr (ih ⟨l, hmem, hn⟩)

/-! ### The match with a rule renamed -/

/-- Rules in scope before and after a rule `n` is called `m`. -/
structure Table.Renamed (n m : Text) (rules rules' : Table Matcher) : Prop where
  lookup : ∀ name, name ≠ m →
    Option.Rel (Renames n m) (rules.lookup name) (rules'.lookup (renameTo n m name))
  gone : rules'.lookup n = none

section

variable {pattern : Matcher} {n m : Text}

variable (hm : ∀ part ∈ pattern.parts, m ∉ part.mentions)

include hm in
lemma not_mem_variables : m ∉ pattern.variables := by
  intro hmem
  obtain ⟨part, hpart, hbinds⟩ := List.mem_filterMap.mp hmem
  exact hm part hpart (Matcher.mem_mentions_of_binds? hbinds)

include hm in
/-- A variable stands for the same after the renaming. -/
lemma Visit.Stays.agreeOn {v : Visit} {env' : Environment} {name : Text} (hstays : v.Stays pattern)
    (hclear : ¬ v.Clashes n) (hmatched : v.env.Matched (Table.Renamed n m) env')
    (hbinds : v.matcher.binds? = some name) : v.env.AgreeOn name v.items env' := by
  have hname : name ≠ m := by
    rintro rfl
    exact hm _ hstays.mem_parts (Matcher.mem_mentions_of_binds? hbinds)
  refine .of_lookup (R := Renames n m) hmatched.bindings (fun hunbound => ?_) ?_
  · by_cases hn : name = n
    · subst hn
      have hscope : name ∉ v.env.rules.names := fun hscope =>
        hclear ⟨hscope, .inr ⟨hbinds, Table.lookup_eq_none_iff.mp hunbound⟩⟩
      rw [Table.lookup_eq_none_iff.mpr hscope, hmatched.rules.gone]
      exact .none
    · have hrel := hmatched.rules.lookup name hname
      rwa [renameTo_of_ne hn] at hrel
  · exact fun _ _ _ _ _ => .inr hstays.items_ne

include hm in
/-- A reference finds the rule of the new name after the renaming. -/
lemma Visit.Stays.call {items : List Value} {env env' : Environment} {scope : Scope} {name : Text}
    (hstays : Visit.Stays pattern ⟨.reference name, items, env, scope⟩)
    (hclear : ¬ Visit.Clashes n ⟨.reference name, items, env, scope⟩)
    (hmatched : env.Matched (Table.Renamed n m) env') :
    Option.Rel (Renames n m) (env.matcher? name) (env'.matcher? (renameTo n m name)) := by
  have hknown : env.Known pattern := hstays.known
  have hname : name ≠ m := by
    rintro rfl
    exact hm _ hstays.mem_parts List.mem_cons_self
  have hrel := hmatched.rules.lookup name hname
  by_cases hn : name = n
  · subst hn
    have hfresh : env'.bindings.lookup m = none := by
      rw [hmatched.bindings, Option.eq_none_iff_forall_ne_some]
      exact fun v hbound => not_mem_variables hm (hknown.bound hbound).1
    have htarget : env.matcher? name = env.rules.lookup name := by
      cases hlookup : env.bindings.lookup name with
      | none => exact Environment.matcher?_of_unbound hlookup
      | some v =>
        have hbound : name ∈ env.bindings.names := Table.mem_names_iff.mpr ⟨v, hlookup⟩
        have hscope : name ∉ env.rules.names := fun hscope =>
          hclear ⟨hscope, .inl ⟨rfl, hbound⟩⟩
        rw [Environment.matcher?_of_inert hlookup (hknown.bound hlookup).2,
          Table.lookup_eq_none_iff.mpr hscope]
    rw [renameTo_self] at hrel ⊢
    rwa [htarget, Environment.matcher?_of_unbound hfresh]
  · rw [renameTo_of_ne hn] at hrel ⊢
    exact Environment.matcher?_rel_of_lookup hmatched.bindings
      (fun m hbound => absurd (hknown.bound hbound).2 (Value.not_inert_matcher m)) fun _ => hrel

/-- The rules of a letrec come into scope under their new names. -/
lemma Table.Renamed.insertAll {rules rules' entries entries' : Table Matcher}
    (h : Renamed n m rules rules')
    (hentries : List.Forall₂
      (fun rule rule' => rule'.1 = renameTo n m rule.1 ∧ Renames n m rule.2 rule'.2) entries
      entries')
    (hfresh : m ∉ entries.names) :
    Renamed n m (rules.insertAll entries) (rules'.insertAll entries') := by
  constructor
  · intro name hname
    refine lookup_insertAll_rel hentries (fun k hk heq => ?_) fun _ => h.lookup name hname
    exact eq_of_renameTo_eq (ne_of_mem_of_not_mem hk hfresh) hname heq
  · have hgone : n ∉ entries'.names := by
      rw [names_eq_map hentries, List.mem_map]
      rintro ⟨name, hmem, heq⟩
      exact hfresh (eq_of_renameTo_eq_self heq ▸ hmem)
    rw [lookup_insertAll, lookup_reverse_eq_none_iff.mpr hgone, Option.none_or, h.gone]

include hm in
lemma simulation_renames : Simulation (renameTo n m) (fun _ _ => False)
    (fun v => v.Stays pattern ∧ ¬ v.Clashes n) fun _ => Table.Renamed n m where
  agree hfine hbinds hmatched := hfine.1.agreeOn hm hfine.2 hmatched hbinds
  call hfine hmatched := hfine.1.call hm hfine.2 hmatched
  scope hfine htables h := htables.insertAll h (hm _ hfine.1.mem_parts)
  drop _ := False.elim

end

/-- On data without matchers a rule can be given a name that occurs nowhere in the pattern: as many
items are used and the same data is bound, if there is a match at all. This holds unless the match
runs, where a rule of the old name is in scope, a reference to it while its name is bound to data,
or a variable of its name that is not bound yet. It runs neither without a variable of this name in
the pattern; and a reference that is run in the body of a letrec that gives its name, or in rules
called from there, finds a rule, unless its name is bound to data. -/
theorem Matcher.outcome_renameRule [Predicates] (limits : Limits) {pattern : Matcher} {n m : Text}
    (hm : ∀ part ∈ pattern.parts, m ∉ part.mentions) {datum : Value} (hdatum : datum.Inert) :
    (OnlyRuns (¬ ·.Clashes n) (pattern.traceOf limits datum) →
        Outcome.found <$> (pattern.renameRule n m).outcome limits datum =
          Outcome.found <$> pattern.outcome limits datum) ∧
      (n ∉ pattern.variables → OnlyRuns (¬ ·.Clashes n) (pattern.traceOf limits datum)) ∧
      ∀ {v : Visit} {name : Text}, .called v ∈ pattern.traceOf limits datum →
        v.matcher = .reference name → (∃ letrec ∈ v.scope, name ∈ (namedRules letrec.1).names) →
        name ∉ v.env.bindings.names → ∃ target, v.env.matcher? name = some target := by
  refine ⟨fun hclear => ?_, fun hn v hv => (Visit.stays_of_called hdatum hv).not_clashes hn, ?_⟩
  · have hempty : Table.Renamed n m [] [] := ⟨fun _ _ => .none, rfl⟩
    exact (simulation_renames hm).found_eq pattern.renames_renameRule hempty
      fun v hv => ⟨Visit.stays_of_called hdatum hv, hclear v hv⟩
  · intro v name hv _ hscope hunbound
    have hrules := Scope.mem_names_rules hscope
    rw [← Visit.rules_eq_of_called hv] at hrules
    rw [Environment.matcher?_of_unbound (Table.lookup_eq_none_iff.mpr hunbound)]
    exact Table.mem_names_iff.mp hrules

end

/-- A rule that refers to itself, next to a variable of another name; and a rule whose name is bound
to data, in an alternative that is not tried. -/
theorem Matcher.outcome_renameRule_recursive :
    let n : Text := [.char 'n']
    let m : Text := [.char 'm']
    let x : Text := [.char 'x']
    let pattern := Matcher.letrec
      [(.str n, .choice [.constant (.int 0), .array [.element x none, .reference n]])]
      (.reference n)
    let datum := Value.list [.int 5, .list [.int 5, .int 0]]
    let untried := Matcher.array [.element n none,
      .choice [.constant (.int 1), .letrec [(.str n, .constant (.int 1))] (.reference n)]]
    let pair := Value.list [.int 5, .int 1]
    ((∀ part ∈ pattern.parts, m ∉ part.mentions) ∧ datum.Inert ∧
      OnlyRuns (¬ ·.Clashes n) (pattern.traceOf {} datum) ∧
      Outcome.found <$> (pattern.renameRule n m).outcome {} datum =
        .ok (some (1, [(x, .int 5)]))) ∧
    (∀ part ∈ untried.parts, m ∉ part.mentions) ∧ pair.Inert ∧
      OnlyRuns (¬ ·.Clashes n) (untried.traceOf {} pair) ∧
      Outcome.found <$> (untried.renameRule n m).outcome {} pair =
        .ok (some (1, [(n, .int 5)])) := by
  intro n m x pattern datum untried pair
  have hm : ∀ part ∈ pattern.parts, m ∉ part.mentions := by decide
  have hm' : ∀ part ∈ untried.parts, m ∉ part.mentions := by decide
  have hinner : (Value.list [.int 5, .int 0]).Inert :=
    Value.inert_seq_iff.mpr (by simpa using ⟨Value.inert_int 5, Value.inert_int 0⟩)
  have hdatum : datum.Inert :=
    Value.inert_seq_iff.mpr (by simpa using ⟨Value.inert_int 5, hinner⟩)
  have hpair : pair.Inert :=
    Value.inert_seq_iff.mpr (by simpa using ⟨Value.inert_int 5, Value.inert_int 1⟩)
  have hfound : Outcome.found <$> pattern.outcome {} datum = .ok (some (1, [(x, .int 5)])) := by
    dsimp only [pattern, datum, n, x]
    cbv
  have hfound' : Outcome.found <$> untried.outcome {} pair = .ok (some (1, [(n, .int 5)])) := by
    dsimp only [untried, pair, n]
    cbv
  have hrules : ((untried.traceOf {} pair).filterMap Event.visit?).all
      (·.env.rules.isEmpty) = true := by
    dsimp only [untried, pair, n]
    cbv
  obtain ⟨hrenamed, hclear, -⟩ := Matcher.outcome_renameRule {} (n := n) hm hdatum
  obtain ⟨hrenamed', -, -⟩ := Matcher.outcome_renameRule {} (n := n) hm' hpair
  have hclear := hclear (by decide)
  have hclear' : OnlyRuns (¬ ·.Clashes n) (untried.traceOf {} pair) := by
    refine onlyRuns_of_all ?_ hrules
    rintro v hempty ⟨hscope, -⟩
    rw [List.isEmpty_iff.mp hempty] at hscope
    cases hscope
  exact ⟨⟨hm, hdatum, hclear, (hrenamed hclear).trans hfound⟩, hm', hpair, hclear',
    (hrenamed' hclear').trans hfound'⟩

/-- A variable that is bound before the letrec gets in the way of a rule of its name: the reference
in the body does not find the rule, and would under another name. -/
theorem Matcher.found_ne_of_bound_name :
    let n : Text := [.char 'n']
    let m : Text := [.char 'm']
    let pattern := Matcher.array
      [.element n none, .letrec [(.str n, .constant (.int 1))] (.reference n)]
    let datum := Value.list [.int 5, .int 1]
    (∀ part ∈ pattern.parts, m ∉ part.mentions) ∧ datum.Inert ∧
      (∃ f, pattern.outcome {} datum = .ok (.failure f) ∧
        ∃ e ∈ f.chain, e.matcher = .reference ∧ e.reason = .referenceNotFound) ∧
      Outcome.found <$> (pattern.renameRule n m).outcome {} datum =
        .ok (some (1, [(n, .int 5)])) := by
  intro n m pattern datum
  have hdatum : datum.Inert :=
    Value.inert_seq_iff.mpr (by simpa using ⟨Value.inert_int 5, Value.inert_int 1⟩)
  have hfailure : pattern.outcome {} datum = .ok (.failure
      ⟨⟨.array, .unexpectedInput, datum, 1, true⟩,
        [⟨.reference, .referenceNotFound, .str n, 1, true⟩]⟩) := by
    dsimp only [pattern, datum, n]
    cbv
  refine ⟨by decide, hdatum, ⟨_, hfailure, _, List.mem_cons_of_mem _ List.mem_cons_self, rfl, rfl⟩,
    ?_⟩
  dsimp only [pattern, datum, n, m]
  cbv

end Motif
