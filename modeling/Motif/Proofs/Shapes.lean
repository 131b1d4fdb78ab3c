import Motif.Proofs.Chains
import Motif.Proofs.Denotation
import Motif.Proofs.Tupled
import Motif.Proofs.Visits
import Mathlib

/-!
# Lists and tuples match alike

A match goes the same way on a datum and on the datum with tuples for lists: it takes as many items,
binds the same names to what is the same but for lists and tuples, and fails with the same reports
at the same places. There are two exceptions: a variable that comes to a list of the items that it
is bound to as a run, and failures on the empty tuple. As there is one empty tuple only, an array
that comes to it takes the report of an array at the head of its elements for its own, which it does
with no empty list.

Whether one of the two is met is said of what the match on tuples runs.
-/

namespace Motif

section

variable {H : Predicates}

/-! ### What is met on tuples -/

/-- A variable bound to a run of items, which is a list, comes to a tuple of items that equal those
of the run one by one. -/
inductive Visit.RereadsRun [Predicates] : Visit → Prop where
  | mk {name : Text} {only : Option Restriction} {vs ws others : List Value} {env : Environment}
    {scope : Scope} (hbound : env.get? name = some (.list vs))
    (hallowed : allowed only (.tuple ws) = true)
    (hequal : (Value.tuple vs).equal (.tuple ws) = true) :
    RereadsRun ⟨.element name only, .tuple ws :: others, env, scope⟩

/-- A search begins with that of an array, behind references and the bodies of letrecs. -/
inductive Matcher.OpensArray (stack : Option Nat) : Matcher → Environment → Prop where
  | array {elements : List Matcher} {env : Environment} : OpensArray stack (.array elements) env
  | rule {name : Text} {target : Matcher} {env : Environment}
    (htarget : env.matcher? name = some target) (hceiling : env.exhausted = false)
    (hstack : ∀ limit ∈ stack, env.depth < limit) (h : OpensArray stack target env.descend) :
    OpensArray stack (.reference name) env
  | body {rules : List (Value × Matcher)} {body : Matcher} {env : Environment}
    (h : OpensArray stack body (env.define (namedRules rules))) :
    OpensArray stack (.letrec rules body) env

/-- An array whose first element begins with an array comes to the empty tuple. -/
inductive Visit.NestsOnEmpty (stack : Option Nat) : Visit → Prop where
  | mk {first : Matcher} {elements : List Matcher} {others : List Value} {env : Environment}
    {scope : Scope} (h : first.OpensArray stack env) :
    NestsOnEmpty stack ⟨.array (first :: elements), .tuple [] :: others, env, scope⟩

lemma Matcher.OpensArray.reshapes {stack : Option Nat} {matcher : Matcher} {env env' : Environment}
    (h : matcher.OpensArray stack env) (henv : env.Reshapes env') :
    matcher.OpensArray stack env' := by
  induction h generalizing env' with
  | array => exact .array
  | rule htarget hceiling hstack _ ih =>
    exact .rule ((Environment.Reshapes.matcher?_eq henv _).symm.trans htarget)
      (henv.exhausted_eq.symm.trans hceiling) (henv.depth ▸ hstack) (ih henv.descend)
  | body _ ih => exact .body (ih (henv.define _))

/-! ### Searches of no items -/

lemma Failure.relocate_matcher (f : Failure) (base : Int) :
    (f.relocate base).top.matcher = f.top.matcher := by
  unfold relocate
  split <;> rfl

/-- What a search on no items comes to: a failure of its own, an array's only if the search opens
one, or an answer that is no failure. -/
inductive Verdict.Empty {κ : Type} [Answer κ] (opens : Prop) : Verdict κ → Prop where
  | own {f : Failure} (h : f.top.matcher = .array → opens) : Empty opens (.own f)
  | passed {x : κ} (h : failure? x = none) : Empty opens (.passed x)

section

variable {stack : Option Nat} {room : Nat} {κ : Type} [Answer κ]

lemma failure?_of_offer {α : Type} {k : α → Except Interrupt κ} {attempts : List α}
    {best : Option Failure} {x : κ} (h : offer k attempts best = .ok (.ok x)) :
    failure? x = none := by
  induction attempts generalizing best with
  | nil => cases h
  | cons a attempts ih =>
    rw [offer] at h
    obtain ⟨y, -, h⟩ := exists_of_bind_eq_ok h
    cases hy : failure? y with
    | none =>
      rw [hy] at h
      cases h
      exact hy
    | some f =>
      rw [hy] at h
      exact ih h

lemma failure?_of_searchAlternatives {call : Text → Searcher (Except Interrupt)}
    {alternatives : List Matcher} {best : Option Failure} {input : Input} {env : Environment}
    {k : Continuation (Except Interrupt) κ} {x : κ}
    (h : searchAlternatives call alternatives best input env k = .ok (.passed x)) :
    failure? x = none := by
  induction alternatives generalizing best with
  | nil => cases h
  | cons alternative alternatives ih =>
    rw [searchAlternatives] at h
    obtain ⟨verdict, -, h⟩ := exists_of_bind_eq_ok h
    cases hverdict : failure? verdict with
    | none =>
      rw [hverdict] at h
      cases h
      exact hverdict
    | some f =>
      rw [hverdict] at h
      exact ih h

lemma Verdict.Empty.report {k : MatcherKind} (hk : k ≠ .array) {opens : Prop} (r : Reason)
    (v : Value) (n : Nat) (cause : Option Failure) :
    (Verdict.own (.report k r v n cause) : Verdict κ).Empty opens :=
  .own fun h => absurd h hk

lemma Verdict.Empty.mono {verdict : Verdict κ} {opens opens' : Prop} (h : verdict.Empty opens)
    (himp : opens → opens') : verdict.Empty opens' := by
  cases h with
  | own h => exact .own fun hmatcher => himp (h hmatcher)
  | passed h => exact .passed h

/-- No search of no items fails with the report of an array unless it opens one. -/
def EmptyCalls [Predicates] (stack : Option Nat) (room : Nat) : Prop :=
  ∀ {κ : Type} [Answer κ] {name : Text} {shape : Shape} {env : Environment}
    {k : Continuation (Except Interrupt) κ} {verdict : Verdict κ},
    callRule stack room name ⟨shape, []⟩ env k = .ok verdict →
      verdict.Empty ((Matcher.reference name).OpensArray stack env)

/-- What is run on no items fails by itself, with the report of an array only if it begins with one,
or is answered by no failure. -/
theorem Matcher.empty_of_search [Predicates] (hcall : EmptyCalls stack room) : (matcher : Matcher) →
    {shape : Shape} → {env : Environment} → {k : Continuation (Except Interrupt) κ} →
    {verdict : Verdict κ} →
    matcher.search (callRule stack room) ⟨shape, []⟩ env k = .ok verdict →
    verdict.Empty (matcher.OpensArray stack env)
  | .constant _, _, _, _, _, h | .element .., _, _, _, _, h | .segment .., _, _, _, _, h
  | .segmentExact .., _, _, _, _, h => by
    cases h
    exact .report (by decide) ..
  | .rest, shape, env, k, verdict, h => by
    -- filler may use no item and so hand on an answer, but fails by itself after a failure
    replace h : searchRest ⟨shape, []⟩ env k = .ok verdict := h
    obtain ⟨tried, htried, h⟩ := exists_of_bind_eq_ok h
    cases tried with
    | ok x =>
      cases h
      exact .passed (failure?_of_offer htried)
    | error best =>
      cases h
      exact .report (by decide) ..
  | .array _, _, _, _, _, h => by
    cases h
    exact .own fun _ => .array
  | .choice _, _, _, _, verdict, h => by
    rw [Matcher.search_choice] at h
    cases verdict with
    | own f =>
      obtain ⟨cause, rfl, -⟩ := own_of_searchAlternatives h
      exact .report (by decide) ..
    | passed x => exact .passed (failure?_of_searchAlternatives h)
  | .reference _, _, _, _, _, h => hcall h
  | .letrec _ body, _, _, _, _, h => (Matcher.empty_of_search hcall body h).mono .body
  | .abstract _, _, _, _, _, h => by cases h

lemma emptyCalls [Predicates] (stack : Option Nat) (room : Nat) : EmptyCalls stack room := by
  induction room with
  | zero =>
    intro κ _ name shape env k verdict h
    simp only [callRule] at h
    cases htarget : env.matcher? name with
    | none =>
      rw [htarget] at h
      cases h
      exact .report (by decide) ..
    | some target =>
      rw [htarget] at h
      cases h
      exact .report (by decide) ..
  | succ room ih =>
    intro κ _ name shape env k verdict h
    simp only [callRule] at h
    cases htarget : env.matcher? name with
    | none =>
      rw [htarget] at h
      cases h
      exact .report (by decide) ..
    | some target =>
      rw [htarget] at h
      dsimp only at h
      split at h
      · cases h
        exact .report (by decide) ..
      · rename_i hexhausted
        split at h
        · cases h
        · rename_i hstack
          exact (target.empty_of_search ih h).mono
            (.rule htarget (Bool.eq_false_of_not_eq_true hexhausted)
              (any_stack_eq_false_iff.mp (Bool.eq_false_of_not_eq_true hstack)))

/-- An array that fails on no items with the report of an array, as that of an element, begins with
an array at its first element. -/
lemma exists_opensArray_of_placed {elements : List Matcher} {whole : Input} {shape : Shape}
    {env : Environment} {k : Environment → Except Interrupt κ} {f : Failure} {position : Int}
    (h : searchElements (callRule stack room) elements whole 0 ⟨shape, []⟩ env k =
      .ok (.placed f position))
    (hmatcher : f.top.matcher = .array) :
    ∃ first others, elements = first :: others ∧ first.OpensArray stack env := by
  cases elements with
  | nil =>
    simp only [searchElements, List.isEmpty_nil, if_true] at h
    cases hk : k env <;> simp [hk] at h
  | cons first others =>
    refine ⟨first, others, rfl, ?_⟩
    rw [searchElements_cons] at h
    cases hfirst : first.search (callRule stack room) ⟨shape, []⟩ env fun env' n =>
        searchElements (callRule stack room) others whole (0 + n)
          (Input.drop n ⟨shape, []⟩) env' k with
    | error =>
      rw [hfirst] at h
      cases h
    | ok verdict =>
      rw [hfirst] at h
      cases first.empty_of_search (emptyCalls stack room) hfirst with
      | own hopens =>
        cases h
        rw [Failure.relocate_matcher] at hmatcher
        exact hopens hmatcher
      | passed hnone =>
        cases h
        cases hnone

end

/-! ### The match on lists beside that on tuples -/

lemma speaksOf_list (items : List Value) (f : Failure) :
    Landing.speaksOf ⟨.list, items⟩ f = false := by
  rw [Bool.eq_false_iff]
  intro hspeaks
  obtain ⟨-, hempty, -⟩ := Pairing.speaksOf_iff.mp hspeaks
  cases hempty

/-- Whether a matcher looks for nothing that tuples for lists would change, asks for nothing but
restrictions of the registry, and has a search of its own. -/
def Matcher.Flat : Matcher → Prop
  | .constant v => v.Reshapes v
  | .element _ only | .segment _ only | .segmentExact _ only => ∀ r ∈ only, r ∈ Restriction.registry
  | .abstract _ => False
  | _ => True

lemma Matcher.Flat.registered {matcher : Matcher} (h : matcher.Flat) :
    ∀ r ∈ matcher.only, r ∈ Restriction.registry := by
  cases matcher with
  | element | segment | segmentExact => exact h
  | _ => simp [Matcher.only]

/-- The rules of letrecs stay where nothing is renamed and no letrec dropped. -/
lemma namedRules_eq_of_recast {rules rules' : List (Value × Matcher)}
    (h : List.Forall₂ (fun rule rule' => rule'.1 = id rule.1 ∧
      Recast id (fun _ _ => False) rule.2 rule'.2) (namedRules rules) (namedRules rules')) :
    namedRules rules' = namedRules rules := by
  generalize namedRules rules = entries at h
  generalize namedRules rules' = entries' at h
  induction h with
  | nil => rfl
  | cons hentry _ ih => rw [Prod.ext hentry.1 hentry.2.eq_of_id, ih]

/-- What the match of a datum has in common with that of the datum with tuples for lists. -/
def Likeness.reshaping [Predicates] (stack : Option Nat) (exact : Prop) :
    Likeness stack id fun _ _ => False where
  fine v := v.matcher.Flat ∧ ¬ v.RereadsRun ∧ (exact → ¬ v.NestsOnEmpty stack)
  ends interrupt := interrupt = .stackExhausted
  exact := exact
  item := Value.Reshapes
  bound := Value.Corresponds
  rules _ := Eq
  ends_stack := rfl
  ends_abstract {visit _} hfine h := by
    obtain ⟨hflat, -⟩ := hfine
    rw [h] at hflat
    exact hflat.elim
  items_rel h := h.items_rel.imp_left fun ⟨vs, ws, hv, hw, hitems⟩ =>
    ⟨.list, .tuple, vs, ws, hv, hw, hitems⟩
  bound_item := .item
  bound_run := .run
  bound_rel h := h.items_rel.imp_left fun ⟨vs, ws, shape, hv, hw, hitems⟩ =>
    ⟨.list, shape, vs, ws, hv, hw, hitems.imp fun _ _ hvalue _ _ hitem => hitem.equal_eq hvalue⟩
  constant hfine h := h.equal_eq hfine.1
  allowed_eq hfine h := h.allowed_eq hfine.1.registered
  variable_rel {_ _ k} _ _ henv := by
    rcases rel_cases (Environment.Reshapes.get?_rel henv k) with
      ⟨hnone, hnone'⟩ | ⟨v, w, hv, hw, hvalue⟩
    · rw [hnone, hnone']
      exact .none
    · rw [hv, hw]
      exact .some (.inl hvalue)
  element {k _ _ _ b b' _ _ _ _} hfine hallowed h henv hbound hbound' := by
    have hrel := Environment.Reshapes.get?_rel henv k
    rw [hbound, hbound'] at hrel
    cases hrel with
    | some hvalue =>
      -- a run is a list in both runs, and the item a list in the first one only
      rcases hvalue.equal_eq_or h with heq | ⟨vs, ws, rfl, rfl, hequal⟩
      · exact heq
      · exact absurd (.mk hbound' hallowed hequal) hfine.2.1
  call {k _ _ env' _} _ henv := by
    rw [id, Environment.Reshapes.matcher?_eq henv k]
    cases env'.matcher? k with
    | none => exact .none
    | some target => exact .some (.refl target)
  scope _ htables h := by rw [htables, namedRules_eq_of_recast h]
  drop _ h := h.elim
  settle {elements elements' _ _ vs ws _ _ _ _ _ _ _ _ f f' _} hfine hexact hrecast hitem henv
      hplaced hmatches := by
    obtain ⟨-, -, hnests⟩ := hfine
    rcases hitem.items_rel with ⟨_, _, hlist, htuple, hinner⟩ | ⟨hbare, -⟩
    · cases hlist
      cases htuple
      refine ⟨speaksOf_list vs f, ?_⟩
      rw [Bool.eq_false_iff]
      intro hspeaks
      obtain ⟨hmatcher, hempty, -⟩ := Pairing.speaksOf_iff.mp hspeaks
      cases ws with
      | cons => cases hempty
      | nil =>
        cases hinner
        have hmatcher' : f.top.matcher = .array := (hmatches.top hexact).matcher.trans hmatcher
        obtain ⟨first, others, helements, hopens⟩ := exists_opensArray_of_placed hplaced hmatcher'
        obtain rfl : elements' = elements :=
          Recast.all_eq_of_undropped elements hrecast fun part _ => part.not_droppable
        subst helements
        exact hnests hexact (.mk (hopens.reshapes henv))
    · cases hbare

/-! ### Patterns in the notation -/

/-- What stands in patterns in the notation: matchers that tuples for lists do not change, or
constants that are objects. -/
def Matcher.Written (matcher : Matcher) : Prop :=
  matcher.Flat ∨ ∃ entries, matcher = .constant (.dict entries)

lemma Value.Decoded.written_verbatim {v : Value} (h : v.Decoded) :
    ∀ part ∈ v.verbatim.parts, part.Written := by
  induction h with
  | @list items h ih =>
    refine List.forall_mem_cons.mpr ⟨.inl trivial, ?_⟩
    induction items with
    | nil => simp [allVerbatim, allParts]
    | cons item items ihitems =>
      obtain ⟨hitem, hitems⟩ := List.forall_mem_cons.mp h
      obtain ⟨ihitem, ihothers⟩ := List.forall_mem_cons.mp ih
      exact List.forall_mem_append.mpr ⟨ihitem, ihitems hitems ihothers⟩
  | @object members =>
    exact List.forall_mem_cons.mpr ⟨.inr ⟨named members, rfl⟩, by simp⟩
  | _ => exact List.forall_mem_cons.mpr ⟨.inl ⟨by constructor, rfl⟩, by simp⟩

namespace Notation

lemma Restricted.registered {entries : List (Value × Value)} {only : Option Restriction}
    (h : Restricted entries only) : ∀ r ∈ only, r ∈ Restriction.registry := by
  cases h with
  | named hr => simpa using hr
  | _ => simp

lemma written_of_leaf {matcher : Matcher} (hleaf : matcher.parts = [matcher])
    (h : matcher.Flat) : ∀ part ∈ matcher.parts, part.Written := by
  rw [hleaf, List.forall_mem_singleton]
  exact .inl h

mutual

theorem Denotes.written : {node : Value} → {matcher : Matcher} → Denotes node matcher →
    node.Decoded → ∀ part ∈ matcher.parts, part.Written
  | _, _, .filler, _ => written_of_leaf rfl trivial
  | v, _, .plain h, hdecoded => by
    have hflat : v.Reshapes v := ⟨hdecoded, by cases v <;> first | rfl | cases h⟩
    exact written_of_leaf rfl hflat
  | _, _, .list h, hdecoded =>
    List.forall_mem_cons.mpr ⟨.inl trivial, h.written fun _ => hdecoded.of_mem_parts⟩
  | _, _, .var _ _ honly, _ => written_of_leaf rfl honly.registered
  | _, _, .segment _ _ honly _, _ => written_of_leaf rfl honly.registered
  | _, _, .segmentExact _ _ honly _, _ => written_of_leaf rfl honly.registered
  | _, _, .ref .., _ => written_of_leaf rfl trivial
  | _, _, .choose _ hnodes h, hdecoded => by
    have hlist := hdecoded.of_mem_parts (List.mem_map_of_mem (Value.mem_of_lookupKey hnodes))
    exact List.forall_mem_cons.mpr ⟨.inl trivial, h.written fun _ => hlist.of_mem_parts⟩
  | _, _, .letrec _ hrules hbody h h', hdecoded => by
    have hobject := hdecoded.of_mem_parts (List.mem_map_of_mem (Value.mem_of_lookupKey hrules))
    have hbody' := hdecoded.of_mem_parts (List.mem_map_of_mem (Value.mem_of_lookupKey hbody))
    refine List.forall_mem_cons.mpr ⟨.inl trivial, List.forall_mem_append.mpr ⟨?_, ?_⟩⟩
    · exact h.written fun _ => hobject.of_mem_parts
    · exact h'.written hbody'
  | _, _, .const _ hv, hdecoded =>
    (hdecoded.of_mem_parts (List.mem_map_of_mem (Value.mem_of_lookupKey hv))).written_verbatim

theorem AllDenote.written : {nodes : List Value} → {matchers : List Matcher} →
    AllDenote nodes matchers → (∀ node ∈ nodes, node.Decoded) →
    ∀ part ∈ allParts matchers, part.Written
  | _, _, .nil, _ => by simp [allParts]
  | _, _, .cons h h', hdecoded => by
    obtain ⟨hnode, hnodes⟩ := List.forall_mem_cons.mp hdecoded
    exact List.forall_mem_append.mpr ⟨h.written hnode, h'.written hnodes⟩

theorem RulesDenote.written : {rules : List (Value × Value)} →
    {matchers : List (Value × Matcher)} → RulesDenote rules matchers →
    (∀ node ∈ rules.map Prod.snd, node.Decoded) → ∀ part ∈ rulesParts matchers, part.Written
  | _, _, .nil, _ => by simp [rulesParts]
  | _, _, .cons h h', hdecoded => by
    obtain ⟨hnode, hnodes⟩ := List.forall_mem_cons.mp hdecoded
    exact List.forall_mem_append.mpr ⟨h.written hnode, h'.written hnodes⟩

end

/-- What is read from a pattern in the notation and compiled has no other parts than those. -/
lemma written_of_translate {node literal : Value} {pattern : Matcher} (h : node.Decoded)
    (htranslate : translate node = .ok literal) (hcompile : literal.compile = .ok pattern) :
    ∀ part ∈ pattern.parts, part.Written := by
  obtain ⟨matcher, hdenotes⟩ := (covered_of_decoded h).1 literal htranslate
  obtain ⟨literal', htranslate', hcompile'⟩ := hdenotes.compiles h
  obtain rfl : literal = literal' := Except.ok.inj (htranslate.symm.trans htranslate')
  obtain rfl : pattern = matcher := Except.ok.inj (hcompile.symm.trans hcompile')
  exact hdenotes.written h

end Notation

/-! ### Outcomes on tuples -/

/-- Outcomes of which both are successes that use as many items and give the same names in the same
order to what is the same but for lists and tuples, or failures whose chains match entry by entry
where `exact` is the case. -/
inductive Outcome.Reshapes (exact : Prop) : Outcome → Outcome → Prop where
  | success {result result' : Success} (hconsumed : result.consumed = result'.consumed)
    (hbindings : Table.Rel (fun v w => v.tupled = w.tupled) result.environment.bindings
      result'.environment.bindings) :
    Reshapes exact (.success result) (.success result')
  | failure {f f' : Failure} (h : f.Matches exact f') : Reshapes exact (.failure f) (.failure f')

/-- A success goes with a success. -/
lemma Outcome.Reshapes.exists_successes {exact : Prop} {outcome outcome' : Outcome}
    (h : outcome.Reshapes exact outcome') (hmatched : outcome.matched = true) :
    ∃ result result', outcome = .success result ∧ outcome' = .success result' ∧
      result.consumed = result'.consumed ∧
      Table.Rel (fun v w => v.tupled = w.tupled) result.environment.bindings
        result'.environment.bindings := by
  cases h with
  | success hconsumed hbindings => exact ⟨_, _, rfl, rfl, hconsumed, hbindings⟩
  | failure => cases hmatched

lemma Matcher.exists_kind?_of_flat {matcher : Matcher} (h : matcher.Flat) :
    ∃ kind, matcher.kind? = some kind := by
  cases matcher with
  | abstract => exact h.elim
  | _ => exact ⟨_, rfl⟩

/-- Patterns whose parts tuples for lists do not change come to outcomes that are the same but for
lists and tuples. -/
lemma Matcher.exists_outcomes_of_flat {exact : Prop} {limits : Limits} {pattern : Matcher}
    (hflat : ∀ part ∈ pattern.parts, part.Flat) {datum : Value} (hdatum : datum.Decoded)
    (hrereads : OnlyRuns (¬ ·.RereadsRun) (pattern.traceOf limits datum.tupled))
    (hnests : exact →
      OnlyRuns (¬ ·.NestsOnEmpty limits.stack) (pattern.traceOf limits datum.tupled)) :
    ∃ outcome outcome', pattern.outcome limits datum = .ok outcome ∧
      pattern.outcome limits datum.tupled = .ok outcome' ∧ outcome.Reshapes exact outcome' := by
  have hfine : OnlyRuns (Likeness.reshaping limits.stack exact).fine
      (pattern.traceOf limits datum.tupled) := fun v hv =>
    ⟨hflat _ (Visit.stays_of_called hdatum.inert_tupled hv).mem_parts, hrereads v hv,
      fun hexact => hnests hexact v hv⟩
  have hagree := (Likeness.reshaping limits.stack exact).agree_start (.refl pattern)
    ⟨hdatum, rfl⟩ rfl hfine
  refine exists_outcomes_of_agree hagree (fun _ _ hverdict => ?_) fun interrupt hends => ?_
  · cases hverdict with
    | own h => exact .failure h
    | passed h => exact .success h.2 (h.1.bindings.imp fun _ _ ⟨hname, hvalue⟩ =>
        ⟨hname, hvalue.tupled_eq⟩)
  · obtain ⟨kind, hkind⟩ := exists_kind?_of_flat (hflat _ pattern.mem_parts_self)
    cases hends
    simp only [Interrupt.failure?, hkind]
    exact ⟨_, _, rfl, rfl, .failure (.report _ _ _ _ _ .none)⟩

/-- A pattern in the notation without objects among its constants treats lists and tuples alike: on
a datum and on the datum with tuples for lists it comes to outcomes that are the same but for lists
and tuples, whatever the limits. This is so if on tuples no variable that is bound to a run of items
comes to a list of the same items. The chains of failures match if no array whose first element
begins with an array comes to the empty tuple. -/
theorem Matcher.outcome_tupled [Predicates] {node literal : Value} {pattern : Matcher}
    (hnode : node.Decoded) (htranslate : Notation.translate node = .ok literal)
    (hcompile : literal.compile = .ok pattern)
    (hconst : ∀ entries, .constant (.dict entries) ∉ pattern.parts) (limits : Limits)
    {datum : Value} (hdatum : datum.Decoded)
    (hrereads : OnlyRuns (¬ ·.RereadsRun) (pattern.traceOf limits datum.tupled)) :
    ∃ outcome outcome', pattern.outcome limits datum = .ok outcome ∧
      pattern.outcome limits datum.tupled = .ok outcome' ∧
      outcome.Reshapes
        (OnlyRuns (¬ ·.NestsOnEmpty limits.stack) (pattern.traceOf limits datum.tupled))
        outcome' := by
  have hflat (part : Matcher) (hpart : part ∈ pattern.parts) : part.Flat := by
    rcases Notation.written_of_translate hnode htranslate hcompile part hpart with
      hflat | ⟨entries, rfl⟩
    · exact hflat
    · exact absurd hpart (hconst entries)
  exact exists_outcomes_of_flat hflat hdatum hrereads id

end

/-- A run that stands again at the head of an inner list, after a variable that takes numbers only;
and one that filler takes, so that the variable of its name is not tried. -/
theorem Matcher.outcome_tupled_again :
    let x := Value.dict (Value.named [("var", .str "x"), ("where", .str "integer")])
    let s := Value.dict (Value.named [("segment", .str "s")])
    let node := Value.list [x, s, .list [s, .str "..."]]
    let pattern := Matcher.array [.element "x" (some .integer), .segment "s" none,
      .array [.segment "s" none, .rest]]
    let datum := Value.list [.int 7, .list [.int 1], .int 2,
      .list [.list [.int 1], .int 2, .list []]]
    let node' := Value.list [s, .dict (Value.named [("choose",
      .list [.str "...", .dict (Value.named [("var", .str "s")])])])]
    let pattern' := Matcher.array [.segment "s" none, .choice [.rest, .element "s" none]]
    let datum' := Value.list [.int 1, .list [.int 1]]
    (node.Decoded ∧ (∃ literal, Notation.translate node = .ok literal ∧
        literal.compile = .ok pattern) ∧
      (∀ entries, .constant (.dict entries) ∉ pattern.parts) ∧ datum.Decoded ∧
      OnlyRuns (¬ ·.RereadsRun) (pattern.traceOf {} datum.tupled) ∧
      ∃ result result', pattern.outcome {} datum = .ok (.success result) ∧
        pattern.outcome {} datum.tupled = .ok (.success result') ∧
        result.consumed = result'.consumed ∧
        Table.Rel (fun v w => v.tupled = w.tupled) result.environment.bindings
          result'.environment.bindings) ∧
    node'.Decoded ∧ (∃ literal, Notation.translate node' = .ok literal ∧
        literal.compile = .ok pattern') ∧
      (∀ entries, .constant (.dict entries) ∉ pattern'.parts) ∧ datum'.Decoded ∧
      OnlyRuns (¬ ·.RereadsRun) (pattern'.traceOf {} datum'.tupled) ∧
      ∃ result result', pattern'.outcome {} datum' = .ok (.success result) ∧
        pattern'.outcome {} datum'.tupled = .ok (.success result') ∧
        result.consumed = result'.consumed ∧
        Table.Rel (fun v w => v.tupled = w.tupled) result.environment.bindings
          result'.environment.bindings := by
  intro x s node pattern datum node' pattern' datum'
  have hx : x.Decoded := .object (by decide) (by simpa using ⟨.str, .str⟩)
  have hs : s.Decoded := .object (by decide) (by simpa using .str)
  have hinner : (Value.list [s, .str "..."]).Decoded := .list (by simpa using ⟨hs, .str⟩)
  have hnode : node.Decoded := .list (by simpa using ⟨hx, hs, hinner⟩)
  have hread : Notation.translate node = .ok (.list [.matcher (.element "x" (some .integer)),
      .matcher (.segment "s" none), .list [.matcher (.segment "s" none), .rest]]) := by
    dsimp only [node, x, s]
    cbv
  have hcompile : (Value.list [.matcher (.element "x" (some .integer)),
      .matcher (.segment "s" none), .list [.matcher (.segment "s" none), .rest]]).compile =
        .ok pattern := by
    dsimp only [pattern]
    cbv
  have hconst (entries : List (Value × Value)) : .constant (.dict entries) ∉ pattern.parts := by
    simp [pattern, parts, allParts]
  have hones : (Value.list [.int 1]).Decoded := .list (by simpa using .int)
  have hnone : (Value.list []).Decoded := .list (by simp)
  have hlast : (Value.list [.list [.int 1], .int 2, .list []]).Decoded :=
    .list (by simpa using ⟨hones, .int, hnone⟩)
  have hdatum : datum.Decoded := .list (by simpa using ⟨.int, hones, .int, hlast⟩)
  have hrereads : OnlyRuns (¬ ·.RereadsRun) (pattern.traceOf {} datum.tupled) := by
    intro v hv hreads
    have hpart := (Visit.stays_of_called hdatum.inert_tupled hv).mem_parts
    cases hreads with
    | @mk name only _ _ _ _ _ _ hallowed _ =>
      obtain ⟨-, rfl⟩ : name = "x" ∧ only = some .integer := by
        simpa [pattern, parts, allParts] using hpart
      cases hallowed
  have hvar : (Value.dict (Value.named [("var", .str "s")])).Decoded :=
    .object (by decide) (by simpa using .str)
  have hchoose : (Value.dict (Value.named [("choose",
      .list [.str "...", .dict (Value.named [("var", .str "s")])])])).Decoded := by
    have hnodes : (Value.list [.str "...", .dict (Value.named [("var", .str "s")])]).Decoded :=
      .list (by simpa using ⟨.str, hvar⟩)
    exact .object (by decide) (by simpa using hnodes)
  have hnode' : node'.Decoded := .list (by simpa using ⟨hs, hchoose⟩)
  have hread' : Notation.translate node' = .ok (.list [.matcher (.segment "s" none),
      .list [.form .choose, .rest, .matcher (.element "s" none)]]) := by
    dsimp only [node', s]
    cbv
  have hcompile' : (Value.list [.matcher (.segment "s" none),
      .list [.form .choose, .rest, .matcher (.element "s" none)]]).compile = .ok pattern' := by
    dsimp only [pattern']
    cbv
  have hconst' (entries : List (Value × Value)) : .constant (.dict entries) ∉ pattern'.parts := by
    simp [pattern', parts, allParts]
  have hdatum' : datum'.Decoded := .list (by simpa using ⟨.int, hones⟩)
  have hrun : ((pattern'.traceOf {} datum'.tupled).filterMap Event.visit?).all
      (·.matcher.kind? != some .element) = true := by
    dsimp only [pattern', datum']
    cbv
  have hrereads' : OnlyRuns (¬ ·.RereadsRun) (pattern'.traceOf {} datum'.tupled) := by
    refine onlyRuns_of_all ?_ hrun
    rintro v hv ⟨⟩
    simp [Matcher.kind?] at hv
  have hmatched : Outcome.matched <$> pattern.outcome {} datum = .ok true := by
    dsimp only [pattern, datum]
    cbv
  have hmatched' : Outcome.matched <$> pattern'.outcome {} datum' = .ok true := by
    dsimp only [pattern', datum']
    cbv
  obtain ⟨outcome₁, outcome₁', h₁, h₁', houtcomes⟩ :=
    Matcher.outcome_tupled hnode hread hcompile hconst {} hdatum hrereads
  obtain ⟨outcome₂, outcome₂', h₂, h₂', houtcomes'⟩ :=
    Matcher.outcome_tupled hnode' hread' hcompile' hconst' {} hdatum' hrereads'
  rw [h₁] at hmatched
  rw [h₂] at hmatched'
  obtain ⟨_, _, rfl, rfl, hsame⟩ := houtcomes.exists_successes (Except.ok.inj hmatched)
  obtain ⟨_, _, rfl, rfl, hsame'⟩ := houtcomes'.exists_successes (Except.ok.inj hmatched')
  exact ⟨⟨hnode, ⟨_, hread, hcompile⟩, hconst, hdatum, hrereads, _, _, h₁, h₁', hsame⟩, hnode',
    ⟨_, hread', hcompile'⟩, hconst', hdatum', hrereads', _, _, h₂, h₂', hsame'⟩

/-- A variable for items that is bound to a run already takes a list of the same items, and refuses
the tuple of them. -/
theorem Matcher.refuses_tupled_run :
    let s := Value.dict (Value.named [("segment", .str "s")])
    let s' := Value.dict (Value.named [("var", .str "s")])
    let node := Value.list [s, s']
    let pattern := Matcher.array [.segment "s" none, .element "s" none]
    let datum := Value.list [.int 1, .list [.int 1]]
    node.Decoded ∧ (∃ literal, Notation.translate node = .ok literal ∧
        literal.compile = .ok pattern) ∧
      (∀ entries, .constant (.dict entries) ∉ pattern.parts) ∧ datum.Decoded ∧
      (∃ result, pattern.outcome {} datum = .ok (.success result)) ∧
      ∃ f, pattern.outcome {} datum.tupled = .ok (.failure f) := by
  intro s s' node pattern datum
  have hs : s.Decoded := .object (by decide) (by simpa using .str)
  have hs' : s'.Decoded := .object (by decide) (by simpa using .str)
  have hones : (Value.list [.int 1]).Decoded := .list (by simpa using .int)
  refine ⟨.list (by simpa using ⟨hs, hs'⟩), ⟨.list [.matcher (.segment "s" none),
      .matcher (.element "s" none)], ?_, ?_⟩, ?_, .list (by simpa using ⟨.int, hones⟩), ?_⟩
  · dsimp only [node, s, s']
    cbv
  · dsimp only [pattern]
    cbv
  · simp [pattern, parts, allParts]
  · dsimp only [pattern, datum]
    constructor
    · refine ⟨⟨⟨[("s", .list [.int 1])], [], 0, 50, 1⟩, 1⟩, ?_⟩
      cbv
    · let whole := Value.tuple [.int 1, .tuple [.int 1]]
      let pair := Value.tuple [.tuple [.int 1], .list [.int 1]]
      refine ⟨⟨⟨.array, .unexpectedInput, whole, 2, true⟩,
        [⟨.segment, .indexOutOfRange, whole, 2, true⟩,
          ⟨.element, .bindingConflict, pair, 1, true⟩]⟩, ?_⟩
      dsimp only [whole, pair]
      cbv

end Motif
