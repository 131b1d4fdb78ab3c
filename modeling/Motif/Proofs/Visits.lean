import Motif.Proofs.Interrupts
import Motif.Proofs.Inlining
import Motif.Proofs.Trace

/-!
# What a search comes to

A search of a matcher runs others: the elements of an array one after the other, the alternatives
of a choice, the body of a letrec with its rules in scope, and the matcher that the name of a
reference stands for. What is kept from each of them to the next holds of every matcher that is
run, and of the items and the environment with which it is.

In the bodies of letrecs the rules in scope are those of the letrecs. A search of data without
matchers runs parts of its pattern only, and what is bound on the way is bound to variables of the
pattern.
-/

namespace Motif

variable {H : Predicates}

/-! ### Invariants of searches -/

/-- What is kept in a search: of the matchers that are run in the bodies of some letrecs, of the
items, and of the environments there. -/
structure Upkeep where
  fits : Scope → Matcher → Prop
  given : List Value → Prop
  known : Scope → Environment → Prop
  element {scope : Scope} {elements : List Matcher} {element : Matcher}
    (h : fits scope (.array elements)) (hmem : element ∈ elements) : fits scope element
  alternative {scope : Scope} {alternatives : List Matcher} {alternative : Matcher}
    (h : fits scope (.choice alternatives)) (hmem : alternative ∈ alternatives) :
    fits scope alternative
  body {scope : Scope} {rules : List (Value × Matcher)} {body : Matcher}
    (h : fits scope (.letrec rules body)) : fits ((rules, body) :: scope) body
  rule {scope : Scope} {env : Environment} {name : Text} {target : Matcher}
    (h : fits scope (.reference name)) (henv : known scope env)
    (htarget : env.matcher? name = some target) : fits scope target
  drop {items : List Value} (h : given items) (n : Nat) : given (items.drop n)
  inside {shape : Shape} {inner others : List Value} (h : given (.seq shape inner :: others)) :
    given inner
  extend {scope : Scope} {matcher : Matcher} {items : List Value} {env : Environment}
    {name : Text} {v : Value} (h : fits scope matcher) (hname : matcher.binds? = some name)
    (hitems : given items) (henv : known scope env) (hv : v.TakenFrom items) :
    known scope (env.extend name v)
  define {scope : Scope} {rules : List (Value × Matcher)} {body : Matcher} {env : Environment}
    (h : fits scope (.letrec rules body)) (henv : known scope env) :
    known ((rules, body) :: scope) (env.define (namedRules rules))
  scopedTo {scope scope' : Scope} {env env' : Environment} (h : known scope' env')
    (henv : known scope env) : known scope (env'.scopedTo env)
  descend {scope : Scope} {env : Environment} (h : known scope env) : known scope env.descend
  atDepth {scope : Scope} {env : Environment} (h : known scope env) (depth : Int) :
    known scope (env.atDepth depth)

namespace Upkeep

open Watched (tell weigh Writes)

variable {U : Upkeep} {σ α β κ : Type}

/-- What is kept holds of a matcher that is run. -/
structure Holds (U : Upkeep) (v : Visit) : Prop where
  fits : U.fits v.scope v.matcher
  given : U.given v.items
  known : U.known v.scope v.env

/-- What is kept holds of a matcher that is run, and where the continuation of the whole search is
called. -/
def Allows (U : Upkeep) : Event → Prop
  | .called v => U.Holds v
  | .handed env _ => U.known [] env
  | _ => True

/-- What is kept holds of all that a computation comes to. -/
def Runs (U : Upkeep) (x : Watched σ α) : Prop :=
  x.Writes fun _ _ _ new => ∀ event ∈ new, U.Allows event

lemma runs_pure (a : α) : U.Runs (pure a : Watched σ α) :=
  Watched.writes_pure fun _ _ => by simp

lemma runs_throw (interrupt : Interrupt) :
    U.Runs (throwThe Interrupt interrupt : Watched σ α) :=
  Watched.writes_throw fun _ _ => by simp

lemma runs_tell {event : Event} (h : U.Allows event) : U.Runs (tell event : Watched σ Unit) :=
  Watched.writes_tell fun _ => List.forall_mem_singleton.mpr h

lemma Runs.bind {x : Watched σ α} {f : α → Watched σ β} (h : U.Runs x) (hf : ∀ a, U.Runs (f a)) :
    U.Runs (x >>= f) := by
  apply Writes.bind h
  · intro state interrupt state' new hnew
    exact hnew
  · intro state a state' new hnew
    apply (hf a).mono
    rintro state₁ answer state₂ new' hnew' -
    exact List.forall_mem_append.mpr ⟨hnew, hnew'⟩

lemma Runs.map {x : Watched σ α} (h : U.Runs x) (f : α → β) : U.Runs (f <$> x) := by
  rw [map_eq_pure_bind]
  exact h.bind fun a => runs_pure (f a)

lemma Runs.called {x : Watched σ α} (h : U.Runs x) {v : Visit} (hv : U.Holds v) :
    U.Runs (do tell (.called v); x) := by
  have htell : U.Runs (tell (.called v) : Watched σ Unit) := runs_tell hv
  exact htell.bind fun _ => h

/-- What is done between two other events. -/
lemma Runs.within {x : Watched σ α} (h : U.Runs x) {before after : Event}
    (hbefore : U.Allows before) (hafter : U.Allows after) :
    U.Runs (do tell before; let a ← x; tell after; pure a) :=
  (runs_tell hbefore).bind fun _ => h.bind fun a => (runs_tell hafter).bind fun _ => runs_pure a

lemma runs_weigh (best : Option Failure) (f : Failure) :
    U.Runs (weigh best f : Watched σ Unit) := by
  cases best with
  | none => exact runs_pure ()
  | some best => exact runs_tell trivial

/-! ### Single matchers -/

lemma runs_offer [Answer κ] {k : α → Watched σ κ} {attempts : List α}
    (h : ∀ a ∈ attempts, U.Runs (k a)) (best : Option Failure) :
    U.Runs (watchedOffer k attempts best) := by
  induction attempts generalizing best with
  | nil => exact runs_pure _
  | cons a attempts ih =>
    rw [watchedOffer]
    apply (h a List.mem_cons_self).bind
    intro x
    cases failure? x with
    | none => exact runs_pure _
    | some f =>
      exact (runs_weigh best f).bind fun _ => ih (fun a ha => h a (List.mem_cons_of_mem _ ha)) _

/-- What is kept holds of every matcher that a search runs in the bodies of some letrecs, if it does
where it begins and in the continuation. -/
def Keeps (U : Upkeep) (scope : Scope) (search : Searcher (Watched σ)) : Prop :=
  ∀ {κ : Type} [Answer κ] (input : Input) (env : Environment) (k : Continuation (Watched σ) κ),
    U.given input.items → U.known scope env → (∀ env' n, U.known scope env' → U.Runs (k env' n)) →
    U.Runs (search input env k)

section

variable {scope : Scope}

lemma keeps_constant (value : Value) : U.Keeps scope (searchConstant (m := Watched σ) value) := by
  rintro κ _ ⟨shape, items⟩ env k - henv hk
  cases items with
  | nil => exact runs_pure _
  | cons item others =>
    simp only [searchConstant]
    split
    · exact (hk env 1 henv).map _
    · exact runs_pure _

lemma keeps_element [Predicates] {name : Text} {only : Option Restriction}
    (h : U.fits scope (.element name only)) :
    U.Keeps scope (searchElement (m := Watched σ) name only) := by
  rintro κ _ ⟨shape, items⟩ env k hitems henv hk
  cases items with
  | nil => exact runs_pure _
  | cons item others =>
    simp only [searchElement]
    split
    · exact runs_pure _
    · have hitem : item.TakenFrom (item :: others) := .within (.item List.mem_cons_self)
      split
      · exact (hk _ 1 (U.extend h rfl hitems henv hitem)).map _
      · split
        · exact (hk env 1 henv).map _
        · exact runs_pure _

lemma keeps_rest : U.Keeps scope (watchedRest (σ := σ)) := by
  intro κ _ input env k _ henv hk
  apply (runs_offer (fun n _ => hk env n henv) none).bind
  rintro (best | x)
  · exact runs_pure _
  · exact runs_pure _

lemma keeps_segment [Predicates] {matcher : Matcher} {name : Text} {only : Option Restriction}
    (h : U.fits scope matcher) (hname : matcher.binds? = some name) :
    U.Keeps scope (watchedSegment (σ := σ) name only) := by
  rintro κ _ ⟨shape, items⟩ env k hitems henv hk
  cases items with
  | nil =>
    simp only [watchedSegment, searchSegment]
    exact runs_pure _
  | cons item others =>
    cases hget : env.get? name with
    | none =>
      have hgrown (n : Nat) (hn : n ∈ segmentLengths only (item :: others)) :
          U.Runs (k (env.extend name (.list ((item :: others).take n))) n) := by
        refine hk _ n (U.extend h hname hitems henv ?_)
        exact .run (take_ne_nil_of_mem_segmentLengths hn) (List.take_prefix n _).isInfix
      simp only [watchedSegment, hget]
      apply (runs_offer hgrown none).bind
      rintro (best | x)
      · exact runs_pure _
      · exact runs_pure _
    | some bound =>
      simp only [watchedSegment, searchSegment, hget]
      split
      · split
        · exact runs_pure _
        · exact (hk env _ henv).map _
      · exact runs_pure _

lemma keeps_segmentExact [Predicates] {name : Text} {only : Option Restriction}
    (h : U.fits scope (.segmentExact name only)) :
    U.Keeps scope (watchedSegmentExact (σ := σ) name only) := by
  intro κ _ input env k hitems henv hk
  refine Runs.map (keeps_segment h rfl input env _ hitems henv fun env' n henv' => ?_) _
  split
  · exact (hk env' n henv').map _
  · exact runs_pure _

end

/-! ### All matchers -/

section Call

variable {call : Scope → Text → Searcher (Watched σ)}

/-- As `Keeps`, for the elements of an array. -/
def KeepsElements [Predicates] (U : Upkeep) (call : Scope → Text → Searcher (Watched σ))
    (scope : Scope) (elements : List Matcher) : Prop :=
  ∀ {κ : Type} [Answer κ] (whole : Input) (offset : Nat) (input : Input) (env : Environment)
    (k : Environment → Watched σ κ), U.given input.items → U.known scope env →
    (∀ env', U.known scope env' → U.Runs (k env')) →
    U.Runs (watchedElements call elements scope whole offset input env k)

lemma keepsElements_nil {scope : Scope} : U.KeepsElements call scope [] := by
  intro κ _ whole offset input env k _ henv hk
  rw [watchedElements]
  split
  · exact (hk env henv).map _
  · exact runs_pure _

lemma keepsElements_cons {scope : Scope} {element : Matcher} {elements : List Matcher}
    (helement : U.Keeps scope (element.watched call scope))
    (helements : U.KeepsElements call scope elements) :
    U.KeepsElements call scope (element :: elements) := by
  intro κ _ whole offset input env k hitems henv hk
  rw [watchedElements]
  refine Runs.map (helement input env _ hitems henv fun env' n henv' => ?_) _
  exact helements whole _ _ env' k (U.drop hitems n) henv' hk

lemma keeps_array {scope : Scope} {elements : List Matcher} (h : U.fits scope (.array elements))
    (helements : U.KeepsElements call scope elements) :
    U.Keeps scope ((Matcher.array elements).watched call scope) := by
  rintro κ _ ⟨shape, items⟩ env k hitems henv hk
  simp only [Matcher.watched]
  refine Runs.called ?_ ⟨h, hitems, henv⟩
  cases items with
  | nil => exact runs_pure _
  | cons item others =>
    cases item with
    | seq shape' inner =>
      exact (helements _ 0 _ env _ (U.inside hitems) henv fun env' henv' => hk env' 1 henv').map _
    | _ => exact runs_pure _

lemma keeps_alternatives_cons {scope : Scope} {alternative : Matcher} {alternatives : List Matcher}
    (halternative : U.Keeps scope (alternative.watched call scope))
    (halternatives : ∀ best, U.Keeps scope (watchedAlternatives call alternatives scope best))
    (best : Option Failure) :
    U.Keeps scope (watchedAlternatives call (alternative :: alternatives) scope best) := by
  intro κ _ input env k hitems henv hk
  simp only [watchedAlternatives]
  apply (halternative input env k hitems henv hk).bind
  intro verdict
  cases failure? verdict with
  | none => exact runs_pure _
  | some f =>
    exact (runs_weigh best f).bind fun _ => halternatives _ input env k hitems henv hk

mutual

/-- What is kept holds of every matcher that a search runs, if it does in every rule. -/
theorem keeps_watched [Predicates]
    (hcall : ∀ scope name, U.fits scope (.reference name) → U.Keeps scope (call scope name)) :
    (matcher : Matcher) → (scope : Scope) → U.fits scope matcher →
      U.Keeps scope (matcher.watched call scope)
  | .constant value, _, h => fun input env k hitems henv hk =>
    (keeps_constant value input env k hitems henv hk).called ⟨h, hitems, henv⟩
  | .element _ _, _, h => fun input env k hitems henv hk =>
    (keeps_element h input env k hitems henv hk).called ⟨h, hitems, henv⟩
  | .segment _ _, _, h => fun input env k hitems henv hk =>
    (keeps_segment h rfl input env k hitems henv hk).called ⟨h, hitems, henv⟩
  | .segmentExact _ _, _, h => fun input env k hitems henv hk =>
    (keeps_segmentExact h input env k hitems henv hk).called ⟨h, hitems, henv⟩
  | .rest, _, h => fun input env k hitems henv hk =>
    (keeps_rest input env k hitems henv hk).called ⟨h, hitems, henv⟩
  | .array elements, scope, h =>
    keeps_array h (keepsElements hcall elements scope fun _ => U.element h)
  | .choice alternatives, scope, h => fun input env k hitems henv hk =>
    (keeps_alternatives hcall alternatives scope none (fun _ => U.alternative h) input env k hitems
      henv hk).called ⟨h, hitems, henv⟩
  | .reference name, scope, h => fun input env k hitems henv hk =>
    (hcall scope name h input env k hitems henv hk).called ⟨h, hitems, henv⟩
  | .letrec rules body, scope, h => fun input _ _ hitems henv hk =>
    (keeps_watched hcall body ((rules, body) :: scope) (U.body h) input _ _ hitems
      (U.define h henv) fun _ n henv' => hk _ n (U.scopedTo henv' henv)).called ⟨h, hitems, henv⟩
  | .abstract _, _, h => fun _ _ _ hitems henv _ =>
    (runs_throw _).called ⟨h, hitems, henv⟩

theorem keepsElements [Predicates]
    (hcall : ∀ scope name, U.fits scope (.reference name) → U.Keeps scope (call scope name)) :
    (elements : List Matcher) → (scope : Scope) → (∀ element ∈ elements, U.fits scope element) →
      U.KeepsElements call scope elements
  | [], _, _ => keepsElements_nil
  | element :: elements, scope, h =>
    keepsElements_cons (keeps_watched hcall element scope (h element List.mem_cons_self))
      (keepsElements hcall elements scope fun m hm => h m (List.mem_cons_of_mem _ hm))

theorem keeps_alternatives [Predicates]
    (hcall : ∀ scope name, U.fits scope (.reference name) → U.Keeps scope (call scope name)) :
    (alternatives : List Matcher) → (scope : Scope) → (best : Option Failure) →
      (∀ alternative ∈ alternatives, U.fits scope alternative) →
      U.Keeps scope (watchedAlternatives call alternatives scope best)
  | [], _, _, _ => fun _ _ _ _ _ _ => runs_pure _
  | alternative :: alternatives, scope, best, h =>
    keeps_alternatives_cons
      (keeps_watched hcall alternative scope (h alternative List.mem_cons_self))
      (fun best => keeps_alternatives hcall alternatives scope best
        fun m hm => h m (List.mem_cons_of_mem _ hm)) best

end

end Call

/-! ### References -/

lemma runs_ceiling {name : Text} {env : Environment} (a : α) :
    U.Runs (do tell (.ceiling name env); pure a : Watched σ α) := by
  have htell : U.Runs (tell (.ceiling name env) : Watched σ Unit) := runs_tell trivial
  exact htell.bind fun _ => runs_pure a

lemma keeps_watchedCall (stack : Option Nat) (room : Nat) {scope : Scope} {name : Text}
    (h : U.fits scope (.reference name)) :
    U.Keeps scope (watchedCall (σ := σ) stack room scope name) := by
  induction room generalizing scope name with
  | zero =>
    intro κ _ input env k hitems henv hk
    simp only [watchedCall]
    cases env.matcher? name with
    | none => exact runs_pure _
    | some target => exact runs_ceiling _
  | succ room ih =>
    intro κ _ input env k hitems henv hk
    simp only [watchedCall]
    cases htarget : env.matcher? name with
    | none => exact runs_pure _
    | some target =>
      dsimp only
      split
      · exact runs_ceiling _
      · split
        · exact runs_throw _
        · have hinner : U.Keeps scope (target.watched (watchedCall stack room) scope) :=
            keeps_watched (fun _ _ h => ih h) target scope (U.rule h henv htarget)
          refine (hinner input _ _ hitems (U.descend henv) fun env' n henv' => ?_).within
            trivial trivial
          exact (hk _ n (U.atDepth henv' _)).within trivial trivial

section

variable {limits : Limits} {pattern : Matcher} {datum : Value} (hfits : U.fits [] pattern)
  (hdatum : U.given [datum]) (hknown : U.known [] (.empty limits.maxDepth))
include hfits hdatum hknown

/-- What is kept holds of all that a match comes to, if it does of the pattern and the datum. -/
theorem allows_of_mem_traceOf {event : Event} (h : event ∈ pattern.traceOf limits datum) :
    U.Allows event := by
  have hruns : U.Runs (pattern.watchedFrom limits.stack (.single datum) (.empty limits.maxDepth)
      (Success.keep : Continuation (Stateful Unit) Success).watched) := by
    refine keeps_watched (fun _ _ h => keeps_watchedCall limits.stack _ h) pattern [] hfits _ _ _
      hdatum hknown fun env n henv => ?_
    have htell : U.Runs (tell (.handed env n) : Watched Unit Unit) := runs_tell henv
    exact htell.bind fun _ => ⟨fun _ event => by simp [Watched.silently]⟩
  exact hruns.ending () event h

lemma holds_of_called {v : Visit} (h : .called v ∈ pattern.traceOf limits datum) : U.Holds v :=
  allows_of_mem_traceOf hfits hdatum hknown h

/-- What is kept holds of the environment that a match succeeds in, under some ceiling. -/
lemma known_of_outcome {result : Success}
    (h : pattern.outcome limits datum = .ok (.success result)) :
    ∃ ceiling, U.known [] (result.environment.capped ceiling) := by
  obtain ⟨env, n, others, hways⟩ := Matcher.exists_waysOf_eq_cons h
  cases (Matcher.outcome_of_cons hways).symm.trans h
  replace hways : pattern.waysFrom limits.stack (Input.single datum).items
      (.empty limits.maxDepth) = .ok (env, n) :: others := hways
  have hcall : (env, n) ∈ pattern.calls limits.stack (.single datum) (.empty limits.maxDepth)
      (Success.keep : Continuation (Stateful Unit) Success) () :=
    Matcher.mem_calls_of_waysFrom hways ()
  rw [Matcher.calls_eq_trace, List.mem_filterMap] at hcall
  obtain ⟨event, hevent, hhanded⟩ := hcall
  cases event with
  | handed env n =>
    cases hhanded
    exact ⟨env.maxDepth, allows_of_mem_traceOf hfits hdatum hknown hevent⟩
  | _ => cases hhanded

end

end Upkeep

/-! ### Rules in scope -/

/-- The rules that are in scope in the bodies of some letrecs. -/
def Scope.rules (scope : Scope) : Table Matcher :=
  scope.foldr (fun letrec table => table.insertAll (namedRules letrec.1)) []

/-- The innermost of some letrecs with a rule of a name. -/
def Scope.giver? (scope : Scope) (name : Text) : Option (List (Value × Matcher) × Matcher) :=
  scope.find? fun letrec => (namedRules letrec.1).names.contains name

/-- A name means the rule of the innermost letrec with such a rule. -/
lemma Scope.lookup_rules (scope : Scope) (name : Text) :
    scope.rules.lookup name = (scope.giver? name).bind fun letrec => grammarOf letrec.1 name := by
  induction scope with
  | nil => rfl
  | cons letrec scope ih =>
    rw [rules, List.foldr_cons, Table.lookup_insertAll, giver?, List.find?_cons]
    by_cases h : name ∈ (namedRules letrec.1).names
    · obtain ⟨target, htarget⟩ := Option.ne_none_iff_exists'.mp
        (mt Table.lookup_reverse_eq_none_iff.mp (not_not.mpr h))
      simp only [List.contains_iff_mem.mpr h, Option.bind_some, grammarOf, htarget, Option.some_or]
    · simp only [mt List.contains_iff_mem.mp h, Table.lookup_reverse_eq_none_iff.mpr h,
        Option.none_or]
      exact ih

/-- In the bodies of some letrecs the rules of these are in scope, and no others. -/
def Upkeep.scoped : Upkeep where
  fits _ _ := True
  given _ := True
  known scope env := env.rules = scope.rules
  element _ _ := trivial
  alternative _ _ := trivial
  body _ := trivial
  rule _ _ _ := trivial
  drop _ _ := trivial
  inside _ := trivial
  extend _ _ _ henv _ := henv
  define {_ rules _ _} _ henv := congrArg (Table.insertAll · (namedRules rules)) henv
  scopedTo _ henv := henv
  descend henv := henv
  atDepth {_ env} henv depth := by
    unfold Environment.atDepth
    split
    · exact henv
    · exact henv

/-- Whatever a match runs, it runs with the rules of the letrecs around in scope. -/
theorem Visit.rules_eq_of_called {limits : Limits} {pattern : Matcher} {datum : Value} {v : Visit}
    (h : .called v ∈ pattern.traceOf limits datum) : v.env.rules = v.scope.rules :=
  (Upkeep.holds_of_called (U := .scoped) trivial trivial rfl h).known

/-! ### Data without matchers -/

namespace Value.Inert

variable {items : List Value} {v : Value} (hitems : ∀ item ∈ items, item.Inert)
include hitems

lemma of_within (h : v.Within items) : v.Inert := by
  induction h with
  | item h => exact hitems _ h
  | inside h _ ih => exact ih (inert_seq_iff.mp (hitems _ h))

lemma of_takenFrom (h : v.TakenFrom items) : v.Inert := by
  cases h with
  | within h => exact of_within hitems h
  | run _ h => exact inert_seq_iff.mpr fun v hv => hitems v (h.subset hv)
  | innerRun hinner _ h =>
    exact inert_seq_iff.mpr fun v hv =>
      inert_seq_iff.mp (of_within hitems hinner) v (h.subset hv)

end Value.Inert

/-- What is bound is bound to variables of a pattern and has no matcher in it, and the rules in
scope are rules of the pattern. -/
structure Environment.Known (pattern : Matcher) (env : Environment) : Prop where
  bound : ∀ ⦃name v⦄, env.bindings.lookup name = some v → name ∈ pattern.variables ∧ v.Inert
  rules : ∀ ⦃name target⦄, env.rules.lookup name = some target →
    (name, target) ∈ pattern.tables.flatten

namespace Environment.Known

variable {pattern : Matcher} {env env' : Environment}

lemma empty (pattern : Matcher) (maxDepth : Int) : (Environment.empty maxDepth).Known pattern :=
  ⟨nofun, nofun⟩

lemma extend (h : env.Known pattern) {name : Text} (hname : name ∈ pattern.variables) {v : Value}
    (hv : v.Inert) : (env.extend name v).Known pattern := by
  refine ⟨fun name' v' hlookup => ?_, h.rules⟩
  by_cases heq : name' = name
  · subst heq
    rw [Environment.extend, Table.lookup_insert_self] at hlookup
    cases hlookup
    exact ⟨hname, hv⟩
  · rw [Environment.extend, Table.lookup_insert_of_ne v _ heq] at hlookup
    exact h.bound hlookup

lemma define (h : env.Known pattern) {rules : List (Value × Matcher)} {body : Matcher}
    (hpart : .letrec rules body ∈ pattern.parts) :
    (env.define (namedRules rules)).Known pattern := by
  refine ⟨h.bound, fun name target hlookup => ?_⟩
  rw [Environment.define, Table.lookup_insertAll, Option.or_eq_some_iff] at hlookup
  rcases hlookup with hnew | ⟨-, hold⟩
  · exact List.mem_flatten.mpr ⟨_, List.mem_filterMap.mpr ⟨_, hpart, rfl⟩,
      Table.mem_of_lookup_reverse hnew⟩
  · exact h.rules hold

lemma scopedTo (h : env'.Known pattern) (houter : env.Known pattern) :
    (env'.scopedTo env).Known pattern := ⟨h.bound, houter.rules⟩

lemma descend (h : env.Known pattern) : env.descend.Known pattern := ⟨h.bound, h.rules⟩

lemma atDepth (h : env.Known pattern) (depth : Int) : (env.atDepth depth).Known pattern := by
  unfold Environment.atDepth
  split
  · exact h
  · exact ⟨h.bound, h.rules⟩

/-- A name stands for a matcher only if it is the name of a rule in scope. -/
lemma lookup_of_matcher? (h : env.Known pattern) {name : Text} {target : Matcher}
    (htarget : env.matcher? name = some target) : env.rules.lookup name = some target := by
  rcases Environment.matcher?_eq_some_iff.mp htarget with hdata | ⟨-, hrule⟩
  · exact absurd (h.bound hdata).2 (Value.not_inert_matcher target)
  · exact hrule

end Environment.Known

/-! ### Parts of a pattern -/

/-- Matchers that are in a first one or in a rule of a pattern that is referred to on the way.
Rules are reached by their names only. -/
inductive Matcher.Reaches (pattern first : Matcher) : Matcher → Prop where
  | first : Reaches pattern first first
  | element {elements : List Matcher} {element : Matcher}
    (h : Reaches pattern first (.array elements)) (hmem : element ∈ elements) :
    Reaches pattern first element
  | alternative {alternatives : List Matcher} {alternative : Matcher}
    (h : Reaches pattern first (.choice alternatives)) (hmem : alternative ∈ alternatives) :
    Reaches pattern first alternative
  | body {rules : List (Value × Matcher)} {body : Matcher}
    (h : Reaches pattern first (.letrec rules body)) : Reaches pattern first body
  | rule {name : Text} {target : Matcher} (h : Reaches pattern first (.reference name))
    (hmem : (name, target) ∈ pattern.tables.flatten) : Reaches pattern first target

/-- What is kept in a search of data without matchers: parts of the pattern are run, with what the
letrecs around reach, and what is known is known from the pattern. -/
def Upkeep.inert (pattern : Matcher) : Upkeep where
  fits scope matcher :=
    matcher.parts ⊆ pattern.parts ∧ ∀ letrec ∈ scope, pattern.Reaches letrec.2 matcher
  given items := ∀ item ∈ items, item.Inert
  known _ env := env.Known pattern
  element h hmem :=
    ⟨List.Subset.trans (parts_subset_allParts hmem)
      (List.Subset.trans (List.subset_cons_self _ _) h.1), fun l hl => .element (h.2 l hl) hmem⟩
  alternative h hmem :=
    ⟨List.Subset.trans (parts_subset_allParts hmem)
      (List.Subset.trans (List.subset_cons_self _ _) h.1), fun l hl => .alternative (h.2 l hl) hmem⟩
  body {_ rules body} h := by
    have hbody : body.parts ⊆ (Matcher.letrec rules body).parts :=
      List.subset_cons_of_subset _ (List.subset_append_right _ _)
    refine ⟨List.Subset.trans hbody h.1, List.forall_mem_cons.mpr ⟨.first, fun l hl => ?_⟩⟩
    exact .body (h.2 l hl)
  rule h henv htarget := by
    have hmem := henv.rules (henv.lookup_of_matcher? htarget)
    exact ⟨Matcher.parts_subset_of_mem_tables hmem, fun l hl => .rule (h.2 l hl) hmem⟩
  drop h _ item hitem := h item (List.mem_of_mem_drop hitem)
  inside h := Value.inert_seq_iff.mp (h _ List.mem_cons_self)
  extend h hname hitems henv hv :=
    henv.extend (Matcher.mem_variables h.1 hname) (.of_takenFrom hitems hv)
  define h henv := henv.define (h.1 (Matcher.mem_parts_self _))
  scopedTo h henv := h.scopedTo henv
  descend henv := henv.descend
  atDepth henv depth := henv.atDepth depth

/-- A visit is of a part of a pattern, on items without matchers and with what is known from the
pattern. -/
abbrev Visit.Stays (pattern : Matcher) (v : Visit) : Prop := (Upkeep.inert pattern).Holds v

namespace Visit

variable {pattern : Matcher} {limits : Limits} {datum : Value} {v : Visit}

/-- All that a match of a datum without matchers runs are parts of its pattern. -/
theorem stays_of_called (hdatum : datum.Inert) (h : .called v ∈ pattern.traceOf limits datum) :
    v.Stays pattern :=
  Upkeep.holds_of_called (U := .inert pattern) ⟨List.Subset.refl _, nofun⟩
    (List.forall_mem_singleton.mpr hdatum) (.empty _ _) h

namespace Stays

variable (h : v.Stays pattern)
include h

lemma mem_parts : v.matcher ∈ pattern.parts := h.fits.1 (Matcher.mem_parts_self _)

lemma items_ne (m : Matcher) (others : List Value) : v.items ≠ .matcher m :: others :=
  fun hitems => Value.not_inert_matcher m (h.given _ (hitems ▸ List.mem_cons_self))

end Stays

end Visit

end Motif
