import Motif.Proofs.Alongside

/-!
# Recast patterns on the same data

The match of a pattern and of the pattern recast, on the same datum, find the same: they differ in
the rules in scope only. What is in the way of this can be said of the one match alone, by what it
runs.
-/

namespace Motif

variable {H : Predicates}

/-- What a match that succeeds finds: how many items were used and what was bound, in order. -/
def Outcome.found : Outcome → Option (Nat × Table Value)
  | .success result => some (result.consumed, result.environment.bindings)
  | .failure _ => none

/-- What the match of a pattern and of the pattern recast have in common, where the first one runs
matchers as `fine` says: `T` relates the rules in scope in the bodies of some letrecs. -/
structure Simulation (name : Text → Text) (drops : List (Value × Matcher) → Matcher → Prop)
    (fine : Visit → Prop) (T : Scope → Table Matcher → Table Matcher → Prop) : Prop where
  /-- Variables stand for the same. -/
  agree {visit : Visit} {env' : Environment} {k : Text} (hfine : fine visit)
    (hname : visit.matcher.binds? = some k) (henv : visit.env.Matched (T visit.scope) env') :
    visit.env.AgreeOn k visit.items env'
  /-- References run related matchers. -/
  call {k : Text} {items : List Value} {env env' : Environment} {scope : Scope}
    (hfine : fine ⟨.reference k, items, env, scope⟩) (henv : env.Matched (T scope) env') :
    Option.Rel (Recast name drops) (env.matcher? k) (env'.matcher? (name k))
  /-- The rules of a letrec come into scope together. -/
  scope {rules rules' : List (Value × Matcher)} {body : Matcher} {items : List Value}
    {env : Environment} {scope : Scope} {table table' : Table Matcher}
    (hfine : fine ⟨.letrec rules body, items, env, scope⟩) (htables : T scope table table')
    (h : List.Forall₂ (fun rule rule' => rule'.1 = name rule.1 ∧ Recast name drops rule.2 rule'.2)
      (namedRules rules) (namedRules rules')) :
    T ((rules, body) :: scope) (table.insertAll (namedRules rules))
      (table'.insertAll (namedRules rules'))
  /-- The rules of a letrec that is dropped come into scope in the first match only. -/
  drop {rules : List (Value × Matcher)} {body : Matcher} {scope : Scope}
    {table table' : Table Matcher} (htables : T scope table table') (h : drops rules body) :
    T ((rules, body) :: scope) (table.insertAll (namedRules rules)) table'

section

variable {bound : Value → Value → Prop} {T : Table Matcher → Table Matcher → Prop}
  {env env' : Environment} {name : Text} {items : List Value}

lemma Table.Rel.eq {α : Type} {t t' : Table α} (h : Table.Rel Eq t t') : t = t' := by
  induction h with
  | nil => rfl
  | cons hentry _ ih => rw [Prod.ext hentry.1 hentry.2, ih]

lemma Environment.Like.matched (h : env'.Like Eq (fun table' table => T table table') env) :
    env.Matched T env' := ⟨h.bindings.eq, h.depth, h.maxDepth, h.rules⟩

namespace Environment.AgreeOn

/-- A variable stands for the same, or for rules. -/
lemma get?_rel (h : env.AgreeOn name items env') :
    Option.Rel (fun v w => v = w ∨ ∃ m m', v = .matcher m ∧ w = .matcher m') (env'.get? name)
      (env.get? name) := by
  cases h with
  | unbound h h' =>
    rw [h, h']
    exact .none
  | bound h h' =>
    rw [h, h']
    exact .some (.inl rfl)
  | rules h h' =>
    rw [h, h']
    exact .some (.inr ⟨_, _, rfl, rfl⟩)

/-- What a variable stands for equals the first item in both environments or in none. -/
lemma equal_eq {item v w : Value} {others : List Value} (h : env.AgreeOn name (item :: others) env')
    (hv : env'.get? name = some v) (hw : env.get? name = some w) : v.equal item = w.equal item := by
  cases h with
  | unbound h =>
    rw [h] at hw
    cases hw
  | bound h h' =>
    rw [h] at hw
    rw [h'] at hv
    cases hw
    cases hv
    rfl
  | @rules m m' h h' hitem =>
    have hbare (m : Matcher) : item ≠ .matcher m := fun heq => hitem m others (heq ▸ rfl)
    rw [h] at hw
    rw [h'] at hv
    cases hw
    cases hv
    rw [Value.matcher_equal_eq_false _ hbare, Value.matcher_equal_eq_false _ hbare]

end Environment.AgreeOn

end

namespace Simulation

variable {name : Text → Text} {drops : List (Value × Matcher) → Matcher → Prop}
  {fine : Visit → Prop} {T : Scope → Table Matcher → Table Matcher → Prop}

/-- Items and data are the same, and chains of failures need not match. -/
def likeness [Predicates] (S : Simulation name drops fine T) (stack : Option Nat) :
    Likeness stack name drops where
  fine := fine
  ends _ := True
  exact := False
  item := Eq
  bound := Eq
  rules scope table' table := T scope table table'
  ends_stack := trivial
  ends_abstract _ _ := trivial
  items_rel {v _} h := by
    subst h
    cases v with
    | seq shape vs =>
      exact .inl ⟨shape, shape, vs, vs, rfl, rfl, List.forall₂_same.mpr fun _ _ => rfl⟩
    | _ => exact .inr ⟨rfl, rfl⟩
  bound_item h := h
  bound_run h := by
    rw [List.forall₂_eq_eq_eq] at h
    rw [h]
  bound_rel {v _} h := by
    subst h
    cases v with
    | seq shape vs =>
      refine .inl ⟨shape, shape, vs, vs, rfl, rfl, List.forall₂_same.mpr ?_⟩
      rintro _ _ _ _ rfl
      rfl
    | _ => exact .inr ⟨rfl, rfl⟩
  constant _ h := by rw [h]
  allowed_eq _ h := by rw [h]
  variable_rel hfine hname henv := (S.agree hfine hname henv.matched).get?_rel
  element hfine _ h henv hbound hbound' := by
    subst h
    exact (S.agree hfine rfl henv.matched).equal_eq hbound hbound'
  call hfine henv := by
    rcases rel_cases (S.call hfine henv.matched) with
      ⟨hnone, hnone'⟩ | ⟨target, target', htarget, htarget', hrecast⟩
    · rw [hnone, hnone']
      exact .none
    · rw [htarget, htarget']
      exact .some hrecast
  scope hfine htables h := S.scope hfine htables h
  drop htables h := S.drop htables h
  settle _ hexact := hexact.elim

variable {limits : Limits} {pattern pattern' : Matcher} {datum : Value}

lemma exists_failure?_of_stackExhausted
    (h : pattern.start limits datum Success.keep =
      (.error .stackExhausted : Except Interrupt (Verdict Success))) :
    ∃ f, Interrupt.stackExhausted.failure? pattern datum = some f := by
  cases pattern with
  | abstract => cases h
  | _ => exact ⟨_, rfl⟩

/-- A match and that of the pattern recast find the same, or are interrupted alike. -/
theorem found_eq (S : Simulation name drops fine T) (hrecast : Recast name drops pattern pattern')
    (hempty : T [] [] []) (hfine : OnlyRuns fine (pattern.traceOf limits datum)) :
    Outcome.found <$> pattern'.outcome limits datum =
      Outcome.found <$> pattern.outcome limits datum := by
  rcases ((S.likeness limits.stack).agree_start hrecast rfl hempty hfine).ends_or_answers with
    ⟨interrupt, hstart', hstart, -⟩ | ⟨verdict', verdict, hstart', hstart, hmatches⟩
  · rw [Matcher.outcome_of_interrupt hstart, Matcher.outcome_of_interrupt hstart']
    cases interrupt with
    | unimplemented => rfl
    | stackExhausted =>
      obtain ⟨f, hf⟩ := exists_failure?_of_stackExhausted hstart
      obtain ⟨f', hf'⟩ := exists_failure?_of_stackExhausted hstart'
      rw [hf, hf']
      rfl
  · rw [Matcher.outcome_of_start hstart, Matcher.outcome_of_start hstart']
    cases hmatches with
    | own => rfl
    | passed h =>
      obtain ⟨henv, hconsumed⟩ := h
      simp only [Outcome.ofVerdict, Except.map_ok, Outcome.found, hconsumed,
        henv.matched.bindings]

end Simulation

end Motif
