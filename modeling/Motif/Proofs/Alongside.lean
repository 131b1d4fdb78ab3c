import Motif.Proofs.Counterparts
import Motif.Proofs.Recast
import Motif.Proofs.Trace

/-!
# Searches alongside watched ones

A plain search can go along with a watched one that runs the same pattern or one that is recast, on
the same items or on others like them. A `Likeness` says what the two have in common and when a
matcher is run in a way that keeps it. It is enough that the watched search runs matchers in this
way only: nothing is asked of what it does not come to.
-/

namespace Motif

variable {H : Predicates}

open Watched (tell weigh)

/-! ### Plain computations and watched ones -/

/-- A plain computation ends as a watched one does, if the latter runs matchers as `fine` says. -/
def Comparison.alongside (σ : Type) (fine : Visit → Prop) (ends : Interrupt → Prop) :
    Comparison (Except Interrupt) (Watched σ) where
  Holds R x y := y.Writes fun _ answer _ new => OnlyRuns fine new → Agree ends R x answer
  pure h := Watched.writes_pure fun _ _ => h
  bind {_ _ _ _ R S x y f g} h hfg := by
    constructor
    intro state
    have hending := h.ending state
    rw [Watched.bind_apply]
    generalize y state = written at hending
    rcases written with ⟨interrupt | b, state', new⟩
    · intro hruns
      have hagree : Agree ends R x (.error interrupt) := hending hruns
      rcases hagree.ends_or_answers with ⟨_, rfl, h, hends⟩ | ⟨_, _, _, h, -⟩
      · cases h
        exact ⟨rfl, hends⟩
      · cases h
    · intro hruns
      obtain ⟨hnew, hmore⟩ := onlyRuns_append.mp hruns
      have hagree : Agree ends R x (.ok b) := hending hnew
      rcases hagree.ends_or_answers with ⟨_, _, h, -⟩ | ⟨a, b', rfl, h, hab⟩
      · cases h
      · cases h
        exact (hfg a b hab).ending state' hmore

lemma Environment.atDepth_rules (env : Environment) (depth : Int) :
    (env.atDepth depth).rules = env.rules := by
  unfold Environment.atDepth
  split <;> rfl

/-- Environments with as many open references, in which the data correspond name by name and the
rules in scope are related. -/
structure Environment.Like (bound : Value → Value → Prop)
    (rules : Table Matcher → Table Matcher → Prop) (env env' : Environment) : Prop where
  bindings : Table.Rel bound env.bindings env'.bindings
  rules : rules env.rules env'.rules
  depth : env.depth = env'.depth
  maxDepth : env.maxDepth = env'.maxDepth

namespace Environment.Like

variable {bound : Value → Value → Prop} {rules rules' : Table Matcher → Table Matcher → Prop}
  {env env' outer outer' : Environment}

lemma extend (h : env.Like bound rules env') (name : Text) {v w : Value} (hvalue : bound v w) :
    (env.extend name v).Like bound rules (env'.extend name w) :=
  ⟨h.bindings.insert name hvalue, h.rules, h.depth, h.maxDepth⟩

lemma scopedTo (h : env.Like bound rules' env') (houter : outer.Like bound rules outer') :
    (env.scopedTo outer).Like bound rules (env'.scopedTo outer') :=
  ⟨h.bindings, houter.rules, h.depth, h.maxDepth⟩

lemma descend (h : env.Like bound rules env') : env.descend.Like bound rules env'.descend :=
  ⟨h.bindings, h.rules, congrArg (· + 1) h.depth, h.maxDepth⟩

lemma atDepth (h : env.Like bound rules env') (depth : Int) :
    (env.atDepth depth).Like bound rules (env'.atDepth depth) := by
  unfold Environment.atDepth
  rw [h.depth]
  split
  · exact h
  · exact ⟨h.bindings, h.rules, rfl, h.maxDepth⟩

lemma exhausted_eq (h : env.Like bound rules env') : env.exhausted = env'.exhausted := by
  rw [Environment.exhausted, Environment.exhausted, h.depth, h.maxDepth]

end Environment.Like

/-! ### Likenesses -/

/-- The restriction that a matcher puts on items. -/
def Matcher.only : Matcher → Option Restriction
  | .element _ only | .segment _ only | .segmentExact _ only => only
  | _ => none

/-- What a plain search has in common with a watched one of a pattern that it has recast: how items,
what is bound, and the rules in scope correspond, the plain ones first. All that `fine` says of a
matcher that the watched search runs may be used for this, and no more. The chains of failures match
where `exact` is the case. -/
structure Likeness [Predicates] (stack : Option Nat) (name : Text → Text)
    (drops : List (Value × Matcher) → Matcher → Prop) where
  fine : Visit → Prop
  ends : Interrupt → Prop
  exact : Prop
  item : Value → Value → Prop
  bound : Value → Value → Prop
  rules : Scope → Table Matcher → Table Matcher → Prop
  ends_stack : ends .stackExhausted
  ends_abstract {visit : Visit} {stamp : Nat} (hfine : fine visit)
    (h : visit.matcher = .abstract stamp) : ends .unimplemented
  items_rel {v w : Value} (h : item v w) :
    (∃ shape shape' vs ws, v = .seq shape vs ∧ w = .seq shape' ws ∧ List.Forall₂ item vs ws) ∨
      v.items? = none ∧ w.items? = none
  bound_item {v w : Value} (h : item v w) : bound v w
  bound_run {vs ws : List Value} (h : List.Forall₂ item vs ws) : bound (.list vs) (.list ws)
  /-- The items of what is bound do not tell items apart. -/
  bound_rel {v w : Value} (h : bound v w) :
    (∃ shape shape' vs ws, v = .seq shape vs ∧ w = .seq shape' ws ∧
      List.Forall₂ (fun v w => ∀ i i', item i i' → i.equal v = i'.equal w) vs ws) ∨
      v.items? = none ∧ w.items? = none
  constant {value v w : Value} {items : List Value} {env : Environment} {scope : Scope}
    (hfine : fine ⟨.constant value, items, env, scope⟩) (h : item v w) :
    v.equal value = w.equal value
  allowed_eq {visit : Visit} {v w : Value} (hfine : fine visit) (h : item v w) :
    allowed visit.matcher.only v = allowed visit.matcher.only w
  /-- A variable stands for what corresponds, or for a rule in both searches. -/
  variable_rel {visit : Visit} {env : Environment} {k : Text} (hfine : fine visit)
    (hname : visit.matcher.binds? = some k) (henv : env.Like bound (rules visit.scope) visit.env) :
    Option.Rel (fun v w => bound v w ∨ ∃ m m', v = .matcher m ∧ w = .matcher m') (env.get? k)
      (visit.env.get? k)
  /-- A variable for one item equals an item that it may take in both searches or in none. -/
  element {k : Text} {only : Option Restriction} {v w b b' : Value} {others : List Value}
    {env env' : Environment} {scope : Scope}
    (hfine : fine ⟨.element k only, w :: others, env', scope⟩) (hallowed : allowed only w = true)
    (h : item v w) (henv : env.Like bound (rules scope) env') (hbound : env.get? k = some b)
    (hbound' : env'.get? k = some b') : b.equal v = b'.equal w
  /-- References run matchers of which the plain one is the other recast. -/
  call {k : Text} {items : List Value} {env env' : Environment} {scope : Scope}
    (hfine : fine ⟨.reference k, items, env', scope⟩)
    (henv : env.Like bound (rules scope) env') :
    Option.Rel (fun m' m => Recast name drops m m') (env.matcher? (name k)) (env'.matcher? k)
  /-- The rules of a letrec come into scope together. -/
  scope {entries entries' : List (Value × Matcher)} {body : Matcher} {items : List Value}
    {env : Environment} {scope : Scope} {table table' : Table Matcher}
    (hfine : fine ⟨.letrec entries body, items, env, scope⟩) (htables : rules scope table table')
    (h : List.Forall₂ (fun rule rule' => rule'.1 = name rule.1 ∧ Recast name drops rule.2 rule'.2)
      (namedRules entries) (namedRules entries')) :
    rules ((entries, body) :: scope) (table.insertAll (namedRules entries'))
      (table'.insertAll (namedRules entries))
  /-- The rules of a letrec that is dropped come into scope in the watched search only. -/
  drop {entries : List (Value × Matcher)} {body : Matcher} {scope : Scope}
    {table table' : Table Matcher} (htables : rules scope table table') (h : drops entries body) :
    rules ((entries, body) :: scope) table (table'.insertAll (namedRules entries))
  /-- Neither of two arrays takes the report of an element for its own, where this can be told. -/
  settle {elements elements' : List Matcher} {shape shape' : Shape} {vs ws others : List Value}
    {env env' : Environment} {scope : Scope} {κ : Type} [Answer κ]
    {k : Environment → Except Interrupt κ} {room : Nat} {f f' : Failure} {position : Int}
    (hfine : fine ⟨.array elements, .seq shape' ws :: others, env', scope⟩) (hexact : exact)
    (hrecast : List.Forall₂ (Recast name drops) elements elements')
    (hitem : item (.seq shape vs) (.seq shape' ws)) (henv : env.Like bound (rules scope) env')
    (hplaced : searchElements (callRule stack room) elements' ⟨shape, vs⟩ 0 ⟨shape, vs⟩ env k =
      .ok (.placed f position))
    (hmatches : f.Matches exact f') :
    Landing.speaksOf ⟨shape, vs⟩ f = false ∧ Landing.speaksOf ⟨shape', ws⟩ f' = false

namespace Likeness

section

variable {stack : Option Nat} {name : Text → Text}
  {drops : List (Value × Matcher) → Matcher → Prop} (L : Likeness stack name drops)
  {σ α β γ δ κ : Type} [Answer κ]

/-- A plain computation and a watched one. -/
abbrev Beside (R : α → β → Prop) (x : Except Interrupt α) (y : Watched σ β) : Prop :=
  (Comparison.alongside σ L.fine L.ends).Holds R x y

/-- The environments of a plain search and a watched one in the bodies of some letrecs. -/
abbrev Envs (scope : Scope) : Environment → Environment → Prop :=
  Environment.Like L.bound (L.rules scope)

variable {L} {R : α → β → Prop} {S : γ → δ → Prop} {x : Except Interrupt α} {y : Watched σ β}

/-! ### One computation after the other -/

lemma beside_pure {a : α} {b : β} (h : R a b) :
    L.Beside (σ := σ) R (pure a) (pure b) :=
  (Comparison.alongside σ L.fine L.ends).pure h

lemma beside_silently {a : α} {b : β} (h : R a b) :
    L.Beside R (pure a) (Watched.silently (pure b : Stateful σ β)) := ⟨fun _ _ => h⟩

lemma beside_throw {interrupt : Interrupt} (h : L.ends interrupt) :
    L.Beside (σ := σ) R (throw interrupt) (throwThe Interrupt interrupt) :=
  Watched.writes_throw fun _ _ => ⟨rfl, h⟩

lemma Beside.map (h : L.Beside R x y) {f : α → γ} {g : β → δ} (hfg : ∀ a b, R a b → S (f a) (g b)) :
    L.Beside S (f <$> x) (g <$> y) :=
  Comparison.map _ h hfg

/-- What is told first makes no difference. -/
lemma Beside.told (h : L.Beside R x y) (event : Event) : L.Beside R x (do tell event; y) := by
  constructor
  intro state hruns
  exact h.ending state (onlyRuns_append.mp hruns).2

/-- A matcher that is run may be taken to be run in a fine way. -/
lemma Beside.called {visit : Visit} (h : L.fine visit → L.Beside R x y) :
    L.Beside R x (do tell (.called visit); y) := by
  constructor
  intro state hruns
  obtain ⟨hcalled, hmore⟩ := onlyRuns_append.mp hruns
  exact (h (hcalled visit List.mem_cons_self)).ending state hmore

/-- What is told last makes no difference. -/
lemma Beside.tells (h : L.Beside R x y) (event : Event) :
    L.Beside R x (do let b ← y; tell event; pure b) := by
  rw [← bind_pure x]
  exact (Comparison.alongside σ L.fine L.ends).bind h fun a b hab => (beside_pure hab).told event

lemma Beside.weigh (h : L.Beside R x y) (best : Option Failure) (f : Failure) :
    L.Beside R x (do Watched.weigh best f; y) := by
  cases best with
  | none => exact h
  | some best => exact h.told _

/-- What the plain computation ends with is known beside the watched one. -/
lemma Beside.and_ending (h : L.Beside R x y) : L.Beside (fun a b => x = .ok a ∧ R a b) x y := by
  constructor
  intro state hruns
  exact (h.ending state hruns).and_left fun _ => id

variable {A : κ → κ → Prop}

omit [Answer κ] in
/-- Both searches may fail at once. -/
lemma beside_report (k : MatcherKind) (r : Reason) (v w : Value) (n : Nat) :
    L.Beside (σ := σ) (Verdict.Matches L.exact A) (pure (.own (.report k r v n none)))
      (pure (.own (.report k r w n none))) :=
  beside_pure (.own (.report k r v w n .none))

omit [Answer κ] in
/-- Both searches may hand on what their continuations answer. -/
lemma Beside.passed {x : Except Interrupt κ} {y : Watched σ κ} (h : L.Beside A x y) :
    L.Beside (Verdict.Matches L.exact A) (.passed <$> x) (.passed <$> y) :=
  h.map fun _ _ => .passed

lemma beside_offer (hA : Tells L.exact A) {k : α → Except Interrupt κ} {k' : α → Watched σ κ}
    {attempts : List α} (hk : ∀ a ∈ attempts, L.Beside A (k a) (k' a))
    {best best' : Option Failure} (hbest : Option.Rel (Failure.Matches L.exact) best best') :
    L.Beside (Offered (Failure.Matches L.exact) A) (offer k attempts best)
      (watchedOffer k' attempts best') := by
  induction attempts generalizing best best' with
  | nil => exact beside_pure (.refused hbest)
  | cons a attempts ih =>
    simp only [offer, watchedOffer]
    apply Comparison.bind _ (hk a List.mem_cons_self)
    intro x x' hx
    rcases rel_cases (hA x x' hx) with ⟨hnone, hnone'⟩ | ⟨f, f', hf, hf', hmatches⟩
    · rw [hnone, hnone']
      exact beside_pure (.accepted hx)
    · rw [hf, hf']
      exact (ih (fun a ha => hk a (List.mem_cons_of_mem _ ha))
        (.some (.better hbest hmatches))).weigh best' f'

/-- Two searches that report the best failures of their attempts. -/
lemma beside_attempts (hA : Tells L.exact A) {k : α → Except Interrupt κ} {k' : α → Watched σ κ}
    {attempts : List α} (hk : ∀ a ∈ attempts, L.Beside A (k a) (k' a))
    {refused refused' : Option Failure → Failure}
    (hrefused : ∀ b b', Option.Rel (Failure.Matches L.exact) b b' →
      (refused b).Matches L.exact (refused' b')) :
    L.Beside (Verdict.Matches L.exact A)
      (do
        match ← offer k attempts none with
        | .ok x => pure (.passed x)
        | .error b => pure (.own (refused b)))
      (do
        match ← watchedOffer k' attempts none with
        | .ok x => pure (.passed x)
        | .error b => pure (.own (refused' b))) := by
  apply Comparison.bind _ (beside_offer hA hk .none)
  intro tried tried' h
  cases h with
  | accepted hx => exact beside_pure (.passed hx)
  | refused hb => exact beside_pure (.own (hrefused _ _ hb))

end

section

variable {stack : Option Nat} {name : Text → Text}
  {drops : List (Value × Matcher) → Matcher → Prop} {L : Likeness stack name drops}
  {σ κ : Type} [Answer κ]

/-- Continuations of searches in the bodies of some letrecs. The rules in scope for the plain one
are those of the search. -/
abbrev Continues (L : Likeness stack name drops) (scope : Scope) (table : Table Matcher)
    (A : κ → κ → Prop) (k : Continuation (Except Interrupt) κ) (k' : Continuation (Watched σ) κ) :
    Prop :=
  ∀ ⦃env env'⦄ n, L.Envs scope env env' → env.rules = table → L.Beside A (k env n) (k' env' n)

/-! ### Single matchers -/

section

variable {A : κ → κ → Prop} {scope : Scope} {shape shape' : Shape} {items items' : List Value}
  {env env' : Environment} {k : Continuation (Except Interrupt) κ} {k' : Continuation (Watched σ) κ}
  (hA : Tells L.exact A) (hitems : List.Forall₂ L.item items items') (henv : L.Envs scope env env')
  (hk : L.Continues scope env.rules A k k')
include hitems henv hk

lemma beside_constant {value : Value} (hfine : L.fine ⟨.constant value, items', env', scope⟩) :
    L.Beside (Verdict.Matches L.exact A) (searchConstant value ⟨shape, items⟩ env k)
      (searchConstant value ⟨shape', items'⟩ env' k') := by
  cases hitems with
  | nil => exact beside_report ..
  | @cons item item' _ _ hitem _ =>
    simp only [searchConstant, L.constant hfine hitem]
    cases item'.equal value with
    | true => exact (hk 1 henv rfl).passed
    | false => exact beside_report ..

lemma beside_element {x : Text} {only : Option Restriction}
    (hfine : L.fine ⟨.element x only, items', env', scope⟩) :
    L.Beside (Verdict.Matches L.exact A) (searchElement x only ⟨shape, items⟩ env k)
      (searchElement x only ⟨shape', items'⟩ env' k') := by
  cases hitems with
  | nil => exact beside_report ..
  | @cons item item' others others' hitem _ =>
    have hsame : allowed only item = allowed only item' := L.allowed_eq hfine hitem
    simp only [searchElement, hsame]
    cases hallowed : allowed only item' with
    | false => exact beside_report ..
    | true =>
      rcases rel_cases (L.variable_rel hfine rfl henv) with ⟨hnone, hnone'⟩ | ⟨b, b', hb, hb', -⟩
      · rw [hnone, hnone']
        exact (hk 1 (henv.extend x (L.bound_item hitem)) rfl).passed
      · simp only [hb, hb', L.element hfine hallowed hitem henv hb hb']
        cases b'.equal item' with
        | true => exact (hk 1 henv rfl).passed
        | false => exact beside_report ..

include hA

lemma beside_rest :
    L.Beside (Verdict.Matches L.exact A) (searchRest ⟨shape, items⟩ env k)
      (watchedRest ⟨shape', items'⟩ env' k') := by
  simp only [searchRest, watchedRest, hitems.length_eq]
  exact beside_attempts hA (fun n _ => hk n henv rfl) fun b b' hb => .report _ _ _ _ _ hb

end

/-! ### Runs of items -/

section

variable {items items' : List Value} {only : Option Restriction}
  (hitems : List.Forall₂ L.item items items')
  (hallowed : ∀ v w, L.item v w → allowed only v = allowed only w)
include hitems hallowed

lemma matches_segmentStopped (shape shape' : Shape) {best best' : Option Failure}
    (hbest : Option.Rel (Failure.Matches L.exact) best best') :
    (segmentStopped only ⟨shape, items⟩ best).Matches L.exact
      (segmentStopped only ⟨shape', items'⟩ best') := by
  simp only [segmentStopped, length_takeWhile_eq hallowed hitems, hitems.length_eq]
  rcases rel_cases (forall₂_getElem? hitems (items'.takeWhile (allowed only)).length) with
    ⟨hnone, hnone'⟩ | ⟨item, item', hitem, hitem', -⟩
  · rw [hnone, hnone']
    exact .report _ _ _ _ _ hbest
  · rw [hitem, hitem']
    exact .report _ _ _ _ _ hbest

lemma matches_replayConflict (input input' : Input) (index : Nat) {vs ws : List Value}
    (hexpected : List.Forall₂ (fun v w => ∀ i i', L.item i i' → i.equal v = i'.equal w) vs ws) :
    Option.Rel (Failure.Matches L.exact) (replayConflict only input index vs items)
      (replayConflict only input' index ws items') := by
  induction hexpected generalizing items items' index with
  | nil => exact .none
  | cons hvalue _ ih =>
    cases hitems with
    | nil => exact .some (.report _ _ _ _ _ .none)
    | cons hitem hitems =>
      simp only [replayConflict, hvalue _ _ hitem, hallowed _ _ hitem]
      split
      · exact .some (.report _ _ _ _ _ .none)
      · split
        · exact .some (.report _ _ _ _ _ .none)
        · exact ih hitems _

end

section

variable {A : κ → κ → Prop} {scope : Scope} {shape shape' : Shape} {items items' : List Value}
  {env env' : Environment} {k : Continuation (Except Interrupt) κ} {k' : Continuation (Watched σ) κ}
  (hA : Tells L.exact A) (hitems : List.Forall₂ L.item items items') (henv : L.Envs scope env env')
  (hk : L.Continues scope env.rules A k k')
include hA hitems henv hk

lemma beside_segment {matcher : Matcher} {x : Text} (hname : matcher.binds? = some x)
    (hfine : L.fine ⟨matcher, items', env', scope⟩) :
    L.Beside (Verdict.Matches L.exact A) (searchSegment x matcher.only ⟨shape, items⟩ env k)
      (watchedSegment x matcher.only ⟨shape', items'⟩ env' k') := by
  have hallowed (v w : Value) (h : L.item v w) :
      allowed matcher.only v = allowed matcher.only w := L.allowed_eq hfine h
  cases hitems with
  | nil =>
    simp only [searchSegment, watchedSegment]
    exact beside_report ..
  | @cons item item' others others' hitem hothers =>
    have hitems : List.Forall₂ L.item (item :: others) (item' :: others') := .cons hitem hothers
    rcases rel_cases (L.variable_rel hfine hname henv) with
      ⟨hnone, hnone'⟩ | ⟨b, b', hb, hb', hbound⟩
    · simp only [searchSegment, watchedSegment, hnone, hnone', segmentLengths_eq hallowed hitems]
      refine beside_attempts hA (fun n _ => ?_) fun _ _ hbest =>
        matches_segmentStopped hitems hallowed shape shape' hbest
      exact hk n (henv.extend x (L.bound_run (List.forall₂_take n hitems))) rfl
    · simp only [searchSegment, watchedSegment, hb, hb']
      have hrel : (∃ shape shape' vs ws, b = .seq shape vs ∧ b' = .seq shape' ws ∧
          List.Forall₂ (fun v w => ∀ i i', L.item i i' → i.equal v = i'.equal w) vs ws) ∨
          b.items? = none ∧ b'.items? = none := by
        rcases hbound with hbound | ⟨m, m', rfl, rfl⟩
        · exact L.bound_rel hbound
        · exact .inr ⟨rfl, rfl⟩
      rcases hrel with ⟨_, _, vs, ws, rfl, rfl, hexpected⟩ | ⟨hbare, hbare'⟩
      · cases hexpected with
        | nil => exact beside_report ..
        | @cons v w vs ws hfirst hrest =>
          have hreplay := matches_replayConflict hitems hallowed ⟨shape, item :: others⟩
            ⟨shape', item' :: others'⟩ 0 (.cons hfirst hrest)
          dsimp only
          rcases rel_cases hreplay with ⟨hnone, hnone'⟩ | ⟨f, f', hf, hf', hconflict⟩
          · rw [hnone, hnone', hrest.length_eq]
            exact (hk _ henv rfl).passed
          · rw [hf, hf']
            exact beside_pure (.own hconflict)
      · cases b with
        | seq => cases hbare
        | _ =>
          cases b' with
          | seq => cases hbare'
          | _ => exact beside_report ..

lemma beside_segmentExact {x : Text} {only : Option Restriction}
    (hfine : L.fine ⟨.segmentExact x only, items', env', scope⟩) :
    L.Beside (Verdict.Matches L.exact A) (searchSegmentExact x only ⟨shape, items⟩ env k)
      (watchedSegmentExact x only ⟨shape', items'⟩ env' k') := by
  simp only [searchSegmentExact, watchedSegmentExact, hitems.length_eq]
  refine Beside.map (beside_segment hA.verdicts hitems henv ?_ rfl hfine)
    fun _ _ => Verdict.Matches.join
  intro now now' n hnow hrules
  dsimp only
  split
  · exact (hk n hnow hrules).passed
  · exact beside_report ..

end

/-! ### Combinations -/

/-- A plain search goes along with a watched one in the bodies of some letrecs: whatever the items,
environments and continuations, if they correspond. -/
def Goes (L : Likeness stack name drops) (scope : Scope) (plain : Searcher (Except Interrupt))
    (watched : Searcher (Watched σ)) : Prop :=
  ∀ {κ : Type} [Answer κ] {A : κ → κ → Prop} {shape shape' : Shape} {items items' : List Value}
    {env env' : Environment} {k : Continuation (Except Interrupt) κ}
    {k' : Continuation (Watched σ) κ}, Tells L.exact A → List.Forall₂ L.item items items' →
    L.Envs scope env env' → L.Continues scope env.rules A k k' →
    L.Beside (Verdict.Matches L.exact A) (plain ⟨shape, items⟩ env k)
      (watched ⟨shape', items'⟩ env' k')

variable {room : Nat}

/-- As `Goes`, for the elements of an array. -/
def GoesElements (L : Likeness stack name drops) (σ : Type) (room : Nat)
    (scope : Scope) (elements elements' : List Matcher) : Prop :=
  ∀ {κ : Type} [Answer κ] {A : κ → κ → Prop} {shape shape' : Shape} {items items' : List Value}
    {env env' : Environment} {k : Environment → Except Interrupt κ} {k' : Environment → Watched σ κ}
    (whole whole' : Input) (offset : Nat), Tells L.exact A → List.Forall₂ L.item items items' →
    L.Envs scope env env' →
    (∀ ⦃now now'⦄, L.Envs scope now now' → now.rules = env.rules →
      L.Beside A (k now) (k' now')) →
    L.Beside (Landing.Matches L.exact A)
      (searchElements (callRule stack room) elements' whole offset ⟨shape, items⟩ env k)
      (watchedElements (watchedCall stack room) elements scope whole' offset ⟨shape', items'⟩ env'
        k')

lemma goesElements_nil {scope : Scope} : L.GoesElements σ room scope [] [] := by
  intro κ _ A shape shape' items items' env env' k k' whole whole' offset hA hitems henv hk
  cases hitems with
  | nil => exact (hk henv rfl).map fun _ _ => .outer
  | cons => exact beside_pure (.leftover fun _ => .cons ⟨rfl, rfl, rfl, rfl⟩ .nil)

lemma goesElements_cons {scope : Scope} {element element' : Matcher}
    {elements elements' : List Matcher}
    (helement : L.Goes scope (element'.search (callRule stack room))
      (element.watched (watchedCall (σ := σ) stack room) scope))
    (helements : L.GoesElements σ room scope elements elements') :
    L.GoesElements σ room scope (element :: elements) (element' :: elements') := by
  intro κ _ A shape shape' items items' env env' k k' whole whole' offset hA hitems henv hk
  rw [searchElements_cons, watchedElements]
  refine Beside.map (helement hA.landings hitems henv fun now now' n hnow hrules => ?_)
    fun _ _ h => Verdict.Matches.ofElement h offset
  exact helements whole whole' (offset + n) hA (List.forall₂_drop n hitems) hnow (hrules ▸ hk)

/-- Two arrays go along if their elements do, and if neither takes a report for its own. -/
lemma goes_array {scope : Scope} {elements elements' : List Matcher}
    (hrecast : List.Forall₂ (Recast name drops) elements elements')
    (helements : L.GoesElements σ room scope elements elements') :
    L.Goes scope ((Matcher.array elements').search (callRule stack room))
      ((Matcher.array elements).watched (watchedCall (σ := σ) stack room) scope) := by
  intro κ _ A shape shape' items items' env env' k k' hA hitems henv hk
  simp only [Matcher.watched]
  refine Beside.called fun hfine => ?_
  cases hitems with
  | nil => exact beside_report ..
  | @cons item item' others others' hitem _ =>
    rcases L.items_rel hitem with ⟨s, s', vs, ws, rfl, rfl, hinner⟩ | ⟨hbare, hbare'⟩
    · rw [Matcher.search_array_seq]
      have hends : L.Beside (Landing.Matches L.exact A)
          (searchElements (callRule stack room) elements' ⟨s, vs⟩ 0 ⟨s, vs⟩ env fun now => k now 1)
          (watchedElements (watchedCall stack room) elements scope ⟨s', ws⟩ 0 ⟨s', ws⟩ env'
            fun now' => k' now' 1) :=
        helements ⟨s, vs⟩ ⟨s', ws⟩ 0 hA hinner henv fun now now' hnow hrules => hk 1 hnow hrules
      refine hends.and_ending.map fun landing landing' hboth => ?_
      refine hboth.2.settle fun hexact f f' position hplaced hf => ?_
      exact L.settle hfine hexact hrecast hitem henv (hplaced ▸ hboth.1) hf
    · rw [Pairing.search_array_bare hbare]
      cases item' with
      | seq => cases hbare'
      | _ => exact beside_report ..

lemma goes_alternatives_cons {scope : Scope} {alternative alternative' : Matcher}
    {alternatives alternatives' : List Matcher}
    (halternative : L.Goes scope (alternative'.search (callRule stack room))
      (alternative.watched (watchedCall (σ := σ) stack room) scope))
    (halternatives : ∀ {best best'}, Option.Rel (Failure.Matches L.exact) best best' →
      L.Goes scope (searchAlternatives (callRule stack room) alternatives' best)
        (watchedAlternatives (watchedCall (σ := σ) stack room) alternatives scope best'))
    {best best' : Option Failure} (hbest : Option.Rel (Failure.Matches L.exact) best best') :
    L.Goes scope (searchAlternatives (callRule stack room) (alternative' :: alternatives') best)
      (watchedAlternatives (watchedCall (σ := σ) stack room) (alternative :: alternatives) scope
        best') := by
  intro κ _ A shape shape' items items' env env' k k' hA hitems henv hk
  simp only [searchAlternatives, watchedAlternatives]
  apply Comparison.bind _ (halternative hA hitems henv hk)
  intro verdict verdict' hverdict
  rcases rel_cases (hA.verdicts verdict verdict' hverdict) with
    ⟨hnone, hnone'⟩ | ⟨f, f', hf, hf', hmatches⟩
  · rw [hnone, hnone']
    exact beside_pure hverdict
  · rw [hf, hf']
    exact (halternatives (.some (.better hbest hmatches)) hA hitems henv hk).weigh best' f'

/-- References go along, where the watched one is run in a fine way. -/
def GoesCall (L : Likeness stack name drops) (σ : Type) (room : Nat) : Prop :=
  ∀ {scope : Scope} {x : Text} {κ : Type} [Answer κ] {A : κ → κ → Prop} {shape shape' : Shape}
    {items items' : List Value} {env env' : Environment} {k : Continuation (Except Interrupt) κ}
    {k' : Continuation (Watched σ) κ}, L.fine ⟨.reference x, items', env', scope⟩ →
    Tells L.exact A → List.Forall₂ L.item items items' → L.Envs scope env env' →
    L.Continues scope env.rules A k k' →
    L.Beside (Verdict.Matches L.exact A) (callRule stack room (name x) ⟨shape, items⟩ env k)
      (watchedCall stack room scope x ⟨shape', items'⟩ env' k')

mutual

/-- A plain search goes along with a watched one of which it is the recast one, if it does at every
reference. -/
theorem goes_watched (hcall : L.GoesCall σ room) : (m : Matcher) → {m' : Matcher} →
    Recast name drops m m' → (scope : Scope) →
    L.Goes scope (m'.search (callRule stack room))
      (m.watched (watchedCall (σ := σ) stack room) scope)
  | .constant value, _, h, scope => by
    cases h
    intro hA hitems henv hk
    exact Beside.called (beside_constant hitems henv hk)
  | .element x only, _, h, scope => by
    cases h
    intro hA hitems henv hk
    exact Beside.called (beside_element hitems henv hk)
  | .segment x only, _, h, scope => by
    cases h
    intro hA hitems henv hk
    exact Beside.called (beside_segment hA hitems henv hk rfl)
  | .segmentExact x only, _, h, scope => by
    cases h
    intro hA hitems henv hk
    exact Beside.called (beside_segmentExact hA hitems henv hk)
  | .rest, _, h, scope => by
    cases h
    intro hA hitems henv hk
    exact Beside.called fun _ => beside_rest hA hitems henv hk
  | .array elements, _, h, scope => by
    cases h with
    | array h => exact goes_array h (goesElements hcall elements h scope)
  | .choice alternatives, _, h, scope => by
    cases h with
    | choice h =>
      intro hA hitems henv hk
      exact Beside.called fun _ =>
        goes_alternatives hcall alternatives h scope .none hA hitems henv hk
  | .reference x, _, h, scope => by
    cases h
    intro hA hitems henv hk
    exact Beside.called fun hfine => hcall hfine hA hitems henv hk
  | .letrec rules body, m', h, scope => by
    intro hA hitems henv hk
    refine Beside.called fun hfine => ?_
    cases h with
    | letrec hkeys hrules h =>
      have hscope := L.scope hfine henv.rules (namedRules_forall₂ hkeys hrules)
      refine goes_watched hcall body h ((rules, body) :: scope) hA hitems
        ⟨henv.bindings, hscope, henv.depth, henv.maxDepth⟩ fun now now' n hnow _ => ?_
      exact hk n (hnow.scopedTo henv) rfl
    | dropped hdrops h =>
      refine goes_watched hcall body h ((rules, body) :: scope) hA hitems
        ⟨henv.bindings, L.drop henv.rules hdrops, henv.depth, henv.maxDepth⟩
        fun now now' n hnow hrules => ?_
      -- the plain search has left no letrec, and its rules are those of before
      exact hk n ⟨hnow.bindings, hrules ▸ henv.rules, hnow.depth, hnow.maxDepth⟩ hrules
  | .abstract stamp, _, h, scope => by
    cases h
    intro hA hitems henv hk
    exact Beside.called fun hfine => beside_throw (L.ends_abstract hfine rfl)

theorem goesElements (hcall : L.GoesCall σ room) : (elements : List Matcher) →
    {elements' : List Matcher} → List.Forall₂ (Recast name drops) elements elements' →
    (scope : Scope) → L.GoesElements σ room scope elements elements'
  | [], _, h, scope => by
    cases h
    exact goesElements_nil
  | element :: elements, _, h, scope => by
    cases h with
    | cons hfirst hothers =>
      exact goesElements_cons (goes_watched hcall element hfirst scope)
        (goesElements hcall elements hothers scope)

theorem goes_alternatives (hcall : L.GoesCall σ room) :
    (alternatives : List Matcher) → {alternatives' : List Matcher} →
    List.Forall₂ (Recast name drops) alternatives alternatives' → (scope : Scope) →
    {best best' : Option Failure} → Option.Rel (Failure.Matches L.exact) best best' →
    L.Goes scope (searchAlternatives (callRule stack room) alternatives' best)
      (watchedAlternatives (watchedCall (σ := σ) stack room) alternatives scope best')
  | [], _, h, scope, _, _, hbest => by
    cases h
    intro hA hitems henv hk
    exact beside_pure (.own (.report _ _ _ _ _ hbest))
  | alternative :: alternatives, _, h, scope, _, _, hbest => by
    cases h with
    | cons hfirst hothers =>
      exact goes_alternatives_cons (goes_watched hcall alternative hfirst scope)
        (fun hbest => goes_alternatives hcall alternatives hothers scope hbest) hbest

end

/-! ### References -/

/-- Below the ceiling and where the stack has room, the rule of a reference is run in both searches,
one level deeper. -/
lemma goesCall_succ (hcall : L.GoesCall σ room) : L.GoesCall σ (room + 1) := by
  intro scope x κ _ A shape shape' items items' env env' k k' hfine hA hitems henv hk
  simp only [callRule, watchedCall, henv.exhausted_eq, henv.depth]
  rcases rel_cases (L.call hfine henv) with
    ⟨hnone, hnone'⟩ | ⟨target', target, htarget', htarget, hrecast⟩
  · rw [hnone, hnone']
    exact beside_report ..
  · rw [htarget', htarget]
    dsimp only
    split
    · exact (beside_report ..).told _
    · split
      · exact beside_throw L.ends_stack
      · refine ((goes_watched hcall target hrecast scope hA hitems henv.descend ?_).tells _).told _
        intro now now' n hnow hrules
        have hleft := hk n (hnow.atDepth env'.depth) ((now.atDepth_rules env'.depth).trans hrules)
        exact (hleft.tells _).told _

/-- References go along, however many of them may be opened inside one another. -/
lemma goesCall (L : Likeness stack name drops) (σ : Type) (room : Nat) : L.GoesCall σ room := by
  induction room with
  | zero =>
    intro scope x κ _ A shape shape' items items' env env' k k' hfine hA hitems henv hk
    simp only [callRule, watchedCall]
    rcases rel_cases (L.call hfine henv) with ⟨hnone, hnone'⟩ | ⟨_, _, htarget', htarget, -⟩
    · rw [hnone, hnone']
      exact beside_report ..
    · rw [htarget', htarget]
      exact (beside_report ..).told _
  | succ room ih => exact goesCall_succ ih

end

/-- A match goes along with that of a pattern of which it is the recast one, if all that the latter
runs is run in a fine way. -/
theorem agree_start {limits : Limits} {name : Text → Text}
    {drops : List (Value × Matcher) → Matcher → Prop} (L : Likeness limits.stack name drops)
    {pattern pattern' : Matcher} (hrecast : Recast name drops pattern pattern')
    {datum datum' : Value} (hdatum : L.item datum datum') (hempty : L.rules [] [] [])
    (hfine : OnlyRuns L.fine (pattern.traceOf limits datum')) :
    Agree L.ends
      (Verdict.Matches L.exact fun result result' : Success =>
        L.Envs [] result.environment result'.environment ∧ result.consumed = result'.consumed)
      (pattern'.start limits datum Success.keep) (pattern.start limits datum' Success.keep) := by
  have hbeside : L.Beside
      (Verdict.Matches L.exact fun result result' : Success =>
        L.Envs [] result.environment result'.environment ∧ result.consumed = result'.consumed)
      (pattern'.start limits datum Success.keep)
      (pattern.watchedFrom limits.stack (.single datum') (.empty limits.maxDepth)
        (Success.keep : Continuation (Stateful Unit) Success).watched) := by
    refine goes_watched (L.goesCall Unit _) pattern hrecast [] (fun _ _ _ => .none)
      (.cons hdatum .nil) ⟨.nil, hempty, rfl, rfl⟩ fun now now' n hnow _ => ?_
    exact (beside_silently ⟨hnow, rfl⟩).told _
  have hagree := hbeside.ending ()
  rw [Matcher.ending_watchedFrom, ← Matcher.start_eq_ending] at hagree
  exact hagree hfine

end Likeness

end Motif
