import Motif.Proofs.Equality
import Motif.Proofs.Interrupts
import Motif.Proofs.Pairs
import Motif.Proofs.Rules

/-!
# Equal data match alike

Whether a truth value, a whole number or a binary number stands for a quantity makes no difference
to a pattern that restricts nothing: data that are equal match or fail together. Successes bind the
same names to values that are equal, and failures give the same reasons at the same positions.

The two runs meet values that are equal one by one. A value that is no number and a matcher are left
out: the first does not equal itself, and the second would be run where a reference finds it.
-/

namespace Motif

section

variable {H : Predicates}

/-! ### Simple data -/

mutual

/-- Whether a value is neither a matcher nor the value that is not a number, and neither stands in
it at any list nesting. -/
def Value.simple : Value → Bool
  | .float .nan => false
  | .matcher _ => false
  | .seq _ items => allSimple items
  | _ => true

/-- As `Value.simple`, for items. -/
def allSimple : List Value → Bool
  | [] => true
  | v :: vs => v.simple && allSimple vs

end

namespace Value

variable {v w : Value}

lemma simple_of_quantity {q : Quantity} (hw : w.quantity? = some q) (hq : q ≠ .nan) :
    w.simple = true := by
  cases w with
  | float x =>
    cases x with
    | nan => exact absurd (Option.some.inj hw).symm hq
    | _ => rfl
  | bool => rfl
  | int => rfl
  | _ => cases hw

lemma quantity_ne_nan {x : Binary64} (h : (Value.float x).simple = true) :
    x.quantity ≠ .nan := by
  cases x with
  | nan => cases h
  | infinity => exact nofun
  | finite => exact nofun

lemma equal_iff_alike (h : v.simple = true) : v.equal w = true ↔ v.alike w = true := by
  refine ⟨alike_of_equal, equal_of_alike ?_⟩
  rintro rfl
  cases h

end Value

mutual

/-- What is alike to a simple value is simple. -/
theorem Value.simple_of_alike : (v : Value) → v.simple = true → {w : Value} → v.alike w = true →
    w.simple = true
  | .null, _, w, h => by
    obtain rfl := Value.alike_null.mp h
    rfl
  | .bool b, _, w, h => Value.simple_of_quantity ((Value.alike_of_quantity rfl).mp h) nofun
  | .int n, _, w, h => Value.simple_of_quantity ((Value.alike_of_quantity rfl).mp h) nofun
  | .float x, hsimple, w, h =>
    Value.simple_of_quantity ((Value.alike_of_quantity rfl).mp h)
      (Value.quantity_ne_nan hsimple)
  | .str s, _, w, h => by
    obtain rfl := Value.alike_str.mp h
    rfl
  | .seq shape items, hsimple, w, h => by
    obtain ⟨items', rfl, hitems⟩ := Value.alike_seq.mp h
    exact allSimple_of_alike items hsimple hitems
  | .dict entries, _, w, h => by
    obtain ⟨entries', rfl, -⟩ := Value.alike_dict.mp h
    rfl
  | .rest, _, w, h => by
    obtain rfl := Value.alike_rest.mp h
    rfl
  | .form f, _, w, h => by
    obtain rfl := Value.alike_form.mp h
    rfl

theorem allSimple_of_alike : (vs : List Value) → allSimple vs = true → {ws : List Value} →
    alikeItems vs ws = true → allSimple ws = true
  | [], _, ws, h => by
    obtain rfl : ws = [] := by simpa using h
    rfl
  | v :: vs, hsimple, ws, h => by
    obtain ⟨w, ws', hw, hws, rfl⟩ := List.forall₂_cons_left_iff.mp (alikeItems_iff.mp h)
    simp only [allSimple, Bool.and_eq_true] at hsimple ⊢
    exact ⟨Value.simple_of_alike v hsimple.1 hw,
      allSimple_of_alike vs hsimple.2 (alikeItems_iff.mpr hws)⟩

end

/-! ### Values that are equal -/

/-- Simple values that are alike both ways. -/
@[mk_iff]
structure Value.Twin (v w : Value) : Prop where
  forth : v.alike w = true
  back : w.alike v = true
  left : v.simple = true
  right : w.simple = true

namespace Value.Twin

variable {v w : Value} {vs ws : List Value} {shape : Shape}

lemma of_equal (hproper : v.proper = true) (hsimple : v.simple = true) (h : v.equal w = true) :
    v.Twin w :=
  have halike := alike_of_equal h
  ⟨halike, v.alike_symm hproper halike, hsimple, v.simple_of_alike hsimple halike⟩

lemma equal (h : v.Twin w) : v.equal w = true := (equal_iff_alike h.left).mpr h.forth

lemma equal_left (h : v.Twin w) (u : Value) : v.equal u = w.equal u := by
  rw [Bool.eq_iff_iff, equal_iff_alike h.left, equal_iff_alike h.right]
  exact ⟨w.alike_trans h.back, v.alike_trans h.forth⟩

lemma equal_right (h : v.Twin w) (u : Value) : u.equal v = u.equal w := by
  by_cases hu : u = .float .nan
  · subst hu
    rfl
  · have halike (w : Value) : u.equal w = true ↔ u.alike w = true :=
      ⟨alike_of_equal, equal_of_alike hu⟩
    rw [Bool.eq_iff_iff, halike, halike]
    exact ⟨fun huv => u.alike_trans huv h.forth, fun huw => u.alike_trans huw h.back⟩

lemma forall₂_iff : List.Forall₂ Twin vs ws ↔
    (alikeItems vs ws = true ∧ alikeItems ws vs = true) ∧ allSimple vs = true ∧
      allSimple ws = true := by
  induction vs generalizing ws with
  | nil => cases ws <;> simp [alikeItems, allSimple]
  | cons v vs ih =>
    cases ws with
    | nil => simp [alikeItems]
    | cons w ws =>
      simp only [List.forall₂_cons, ih, alikeItems, allSimple, Bool.and_eq_true, twin_iff]
      tauto

lemma seq (h : List.Forall₂ Twin vs ws) : (Value.seq shape vs).Twin (.seq shape ws) :=
  have ⟨⟨hforth, hback⟩, hleft, hright⟩ := forall₂_iff.mp h
  ⟨alike_seq.mpr ⟨ws, rfl, hforth⟩, alike_seq.mpr ⟨vs, rfl, hback⟩, hleft, hright⟩

lemma items_rel (h : v.Twin w) :
    (∃ shape vs ws, v = .seq shape vs ∧ w = .seq shape ws ∧ List.Forall₂ Twin vs ws) ∨
      v.items? = none ∧ w.items? = none := by
  obtain ⟨hforth, hback, hleft, hright⟩ := h
  cases v with
  | seq shape vs =>
    obtain ⟨ws, rfl, hitems⟩ := alike_seq.mp hforth
    obtain ⟨_, heq, hitems'⟩ := alike_seq.mp hback
    obtain ⟨-, rfl⟩ := Value.seq.inj heq
    exact .inl ⟨shape, vs, ws, rfl, rfl, forall₂_iff.mpr ⟨⟨hitems, hitems'⟩, hleft, hright⟩⟩
  | _ =>
    cases w with
    | seq =>
      obtain ⟨_, heq, -⟩ := alike_seq.mp hback
      cases heq
    | _ => exact .inr ⟨rfl, rfl⟩

lemma empty_iff (h : v.Twin w) : v = .tuple [] ↔ w = .tuple [] := by
  rcases h.items_rel with ⟨shape, vs, ws, rfl, rfl, hitems⟩ | ⟨hv, hw⟩
  · cases hitems <;> simp
  · constructor
    · rintro rfl
      cases hv
    · rintro rfl
      cases hw

end Value.Twin

/-! ### What equal data has in common -/

/-- Whether a matcher has a search of its own that restricts no value. -/
def Matcher.unrestricted : Matcher → Bool
  | .element _ only | .segment _ only | .segmentExact _ only => only.isNone
  | matcher => matcher.kind?.isSome

/-- Two runs on data that is equal. Of the values shown in failures no more is known than whether
they are the empty tuple, and only a lack of stack ends the runs without an answer. -/
def Pairing.twins [Predicates] : Pairing where
  runs := .agree (· = .stackExhausted)
  item := Value.Twin
  shown v w := v = .tuple [] ↔ w = .tuple []
  respects only := only = none
  equal_left := Value.Twin.equal_left
  equal_right := Value.Twin.equal_right
  allowed_eq hnone _ := by
    subst hnone
    rfl
  items_rel := Value.Twin.items_rel
  list := Value.Twin.seq
  shown_refl _ := Iff.rfl
  shown_item := Value.Twin.empty_iff
  shown_seq h := by cases h <;> simp
  shown_pair _ _ := by simp
  shown_empty := id

/-! ### Environments -/

namespace Table

variable {α : Type} {R : α → α → Prop} {t t' : Table α}

/-- Tables of the same names in the same order, whose values are related one by one. -/
def Rel (R : α → α → Prop) : Table α → Table α → Prop :=
  List.Forall₂ fun entry entry' => entry.1 = entry'.1 ∧ R entry.2 entry'.2

lemma Rel.lookup (h : Rel R t t') (name : Text) :
    Option.Rel R (t.lookup name) (t'.lookup name) := by
  induction h with
  | nil => exact .none
  | @cons entry entry' _ _ hentry _ ih =>
    obtain ⟨n, v⟩ := entry
    obtain ⟨n', v'⟩ := entry'
    obtain ⟨rfl, hvalue⟩ := hentry
    simp only [List.lookup_cons]
    cases name == n with
    | true => exact .some hvalue
    | false => exact ih

lemma Rel.insert (h : Rel R t t') (name : Text) {v v' : α} (hvalue : R v v') :
    Rel R (t.insert name v) (t'.insert name v') := by
  induction h with
  | nil => exact .cons ⟨rfl, hvalue⟩ .nil
  | @cons entry entry' _ _ hentry hentries ih =>
    obtain ⟨n, u⟩ := entry
    obtain ⟨n', u'⟩ := entry'
    obtain ⟨rfl, hvalue'⟩ := hentry
    simp only [Table.insert]
    split
    · exact .cons ⟨rfl, hvalue⟩ hentries
    · exact .cons ⟨rfl, hvalue'⟩ ih

end Table

/-- Environments that differ in the data alone, which is equal one by one, and whose rules restrict
nothing. -/
structure Environment.Twin (env env' : Environment) : Prop where
  bindings : Table.Rel Value.Twin env.bindings env'.bindings
  rules : env.rules = env'.rules
  depth : env.depth = env'.depth
  maxDepth : env.maxDepth = env'.maxDepth
  unrestricted : ∀ ⦃name target⦄, env.rules.lookup name = some target →
    ∀ part ∈ target.parts, part.unrestricted = true

namespace Environment.Twin

variable {env env' outer outer' : Environment}

lemma empty (maxDepth : Int) : (Environment.empty maxDepth).Twin (.empty maxDepth) :=
  ⟨.nil, rfl, rfl, rfl, nofun⟩

lemma define (h : env.Twin env') {rules : List (Value × Matcher)}
    (hrules : ∀ part ∈ rulesParts rules, part.unrestricted = true) :
    (env.define (namedRules rules)).Twin (env'.define (namedRules rules)) := by
  refine ⟨h.bindings, congrArg (·.insertAll (namedRules rules)) h.rules, h.depth, h.maxDepth,
    fun name target hrule => ?_⟩
  rw [Environment.define, Table.lookup_insertAll, Option.or_eq_some_iff] at hrule
  rcases hrule with hnew | ⟨-, hold⟩
  · exact fun part hpart =>
      hrules part (parts_subset_rulesParts (mem_rules_of_grammarOf hnew) hpart)
  · exact h.unrestricted hold

lemma scopedTo (h : env.Twin env') (houter : outer.Twin outer') :
    (env.scopedTo outer).Twin (env'.scopedTo outer') :=
  ⟨h.bindings, houter.rules, h.depth, h.maxDepth, houter.unrestricted⟩

lemma descend (h : env.Twin env') : env.descend.Twin env'.descend :=
  ⟨h.bindings, h.rules, congrArg (· + 1) h.depth, h.maxDepth, h.unrestricted⟩

lemma atDepth (h : env.Twin env') (depth : Int) :
    (env.atDepth depth).Twin (env'.atDepth depth) := by
  unfold Environment.atDepth
  rw [h.depth]
  split
  · exact h
  · exact ⟨h.bindings, h.rules, rfl, h.maxDepth, h.unrestricted⟩

lemma tracks : Pairing.twins.Tracks (fun _ => True) Environment.Twin where
  get? {env env' name} h _ := by
    have hvalue := h.bindings.lookup name
    unfold Environment.get?
    rw [h.rules]
    generalize env.bindings.lookup name = bound, env'.bindings.lookup name = bound' at hvalue
    cases hvalue with
    | some hvalue => exact .some (.inl hvalue)
    | none =>
      cases env'.rules.lookup name with
      | none => exact .none
      | some target => exact .some (.inr rfl)
  extend {env env' name v w} h _ hvalue :=
    ⟨h.bindings.insert name hvalue, h.rules, h.depth, h.maxDepth, h.unrestricted⟩

/-- No datum is a matcher, so a name stands for the rule of that name if for a matcher at all. -/
lemma matcher?_eq (h : env.Twin env') (name : Text) : env.matcher? name = env'.matcher? name := by
  have hvalue : Option.Rel Pairing.twins.Like (env.get? name) (env'.get? name) :=
    tracks.get? h trivial
  unfold Environment.matcher?
  generalize env.get? name = bound, env'.get? name = bound' at hvalue
  cases hvalue with
  | none => rfl
  | @some v w hvalue =>
    rcases hvalue with ⟨-, -, hleft, hright⟩ | rfl
    · cases v with
      | matcher => cases hleft
      | _ =>
        cases w with
        | matcher => cases hright
        | _ => rfl
    · rfl

lemma unrestricted_of_matcher? (h : env.Twin env') {name : Text} {target : Matcher}
    (hname : env.matcher? name = some target) :
    ∀ part ∈ target.parts, part.unrestricted = true := by
  rcases Environment.matcher?_eq_some_iff.mp hname with hdata | ⟨-, hrule⟩
  · have hvalue := h.bindings.lookup name
    rw [hdata] at hvalue
    generalize env'.bindings.lookup name = bound' at hvalue
    cases hvalue with
    | some hvalue => cases hvalue.left
  · exact h.unrestricted hrule

end Environment.Twin

/-! ### Searches of equal data -/

section Call

variable {call : Text → Searcher (Except Interrupt)}

lemma inStep_letrec {rules : List (Value × Matcher)} {body : Matcher}
    (hrules : ∀ part ∈ rulesParts rules, part.unrestricted = true)
    (hbody : Pairing.twins.InStep Environment.Twin (body.search call) (body.search call)) :
    Pairing.twins.InStep Environment.Twin ((Matcher.letrec rules body).search call)
      ((Matcher.letrec rules body).search call) := by
  constructor
  intro κ _ A input input' env env' k k' hA hinput henv hk
  simp only [Matcher.search_letrec]
  exact hbody.holds hA hinput (henv.define hrules) fun _ _ n hinner =>
    hk _ _ n (hinner.scopedTo henv)

mutual

/-- The search of a matcher that restricts nothing goes in step with itself, if references do. -/
theorem Matcher.inStep_twins [Predicates]
    (hcall : ∀ name, Pairing.twins.InStep Environment.Twin (call name) (call name)) :
    (matcher : Matcher) →
    (∀ part ∈ matcher.parts, part.unrestricted = true) →
    Pairing.twins.InStep Environment.Twin (matcher.search call) (matcher.search call)
  | .constant value, _ => Pairing.inStep_constant value
  | .element name only, hfree => by
    have honly : only = none := Option.isNone_iff_eq_none.mp (hfree _ List.mem_cons_self)
    exact Pairing.inStep_element Environment.Twin.tracks trivial honly
  | .segment name only, hfree => by
    have honly : only = none := Option.isNone_iff_eq_none.mp (hfree _ List.mem_cons_self)
    exact Pairing.inStep_segment Environment.Twin.tracks trivial honly
  | .segmentExact name only, hfree => by
    have honly : only = none := Option.isNone_iff_eq_none.mp (hfree _ List.mem_cons_self)
    exact Pairing.inStep_segmentExact Environment.Twin.tracks trivial honly
  | .rest, _ => Pairing.inStep_rest
  | .array elements, hfree =>
    Pairing.inStep_array (inStep_twins_all hcall elements (List.forall_mem_cons.mp hfree).2)
  | .choice alternatives, hfree =>
    Pairing.inStep_choice (inStep_twins_all hcall alternatives (List.forall_mem_cons.mp hfree).2)
  | .reference name, _ => hcall name
  | .letrec rules body, hfree => by
    obtain ⟨hrules, hbody⟩ := List.forall_mem_append.mp (List.forall_mem_cons.mp hfree).2
    exact inStep_letrec hrules (Matcher.inStep_twins hcall body hbody)
  | .abstract _, hfree => by cases hfree _ List.mem_cons_self

theorem inStep_twins_all [Predicates]
    (hcall : ∀ name, Pairing.twins.InStep Environment.Twin (call name) (call name)) :
    (matchers : List Matcher) →
    (∀ part ∈ allParts matchers, part.unrestricted = true) →
    List.Forall₂ (fun m m' =>
      Pairing.twins.InStep Environment.Twin (m.search call) (m'.search call)) matchers matchers
  | [], _ => .nil
  | matcher :: matchers, hfree => by
    obtain ⟨hmatcher, hmatchers⟩ := List.forall_mem_append.mp hfree
    exact .cons (Matcher.inStep_twins hcall matcher hmatcher)
      (inStep_twins_all hcall matchers hmatchers)

end

end Call

/-- A reference goes in step with itself, however many references may still be opened. -/
lemma inStep_callRule (stack : Option Nat) (room : Nat) (name : Text) :
    Pairing.twins.InStep Environment.Twin (callRule stack room name)
      (callRule stack room name) := by
  -- a rule may be any matcher, so the induction is on the references that are left to open
  induction room generalizing name with
  | zero =>
    constructor
    intro κ _ A input input' env env' k k' hA hinput henv hk
    simp only [callRule, henv.matcher?_eq name]
    cases env'.matcher? name <;> exact Pairing.holds_report _ _ Iff.rfl 0
  | succ room ih =>
    constructor
    intro κ _ A input input' env env' k k' hA hinput henv hk
    have hexhausted : env.exhausted = env'.exhausted := by
      simp only [Environment.exhausted, henv.depth, henv.maxDepth]
    simp only [callRule, henv.matcher?_eq name, hexhausted, henv.depth]
    cases h : env'.matcher? name with
    | none => exact Pairing.holds_report _ _ Iff.rfl 0
    | some target =>
      have htarget := henv.unrestricted_of_matcher? ((henv.matcher?_eq name).trans h)
      dsimp only
      split
      · exact Pairing.holds_report _ _ Iff.rfl 0
      · split
        · exact ⟨rfl, rfl⟩
        · exact (Matcher.inStep_twins ih target htarget).holds hA hinput henv.descend
            fun _ _ n hinner => hk _ _ n (hinner.atDepth _)

lemma Matcher.inStep_twins_from (stack : Option Nat) {matcher : Matcher}
    (hfree : ∀ part ∈ matcher.parts, part.unrestricted = true) :
    Pairing.twins.InStep Environment.Twin (matcher.searchFrom stack)
      (matcher.searchFrom stack) := by
  constructor
  intro κ _ A input input' env env' k k' hA hinput henv hk
  have hroom : env.room = env'.room := by
    simp only [Environment.room, henv.depth, henv.maxDepth]
  simp only [searchFrom, hroom]
  exact (Matcher.inStep_twins (inStep_callRule stack env'.room) matcher hfree).holds hA hinput
    henv hk

/-! ### Outcomes of equal data -/

/-- Entries of the same matcher with the same reason, at the same place. -/
structure Failure.Entry.Matches (e e' : Failure.Entry) : Prop where
  matcher : e.matcher = e'.matcher
  reason : e.reason = e'.reason
  offset : e.offset = e'.offset
  located : e.located = e'.located

/-- Outcomes of which both are successes that use as many items and give the same names in the same
order to equal values, or failures whose chains match entry by entry. -/
inductive Outcome.Matches : Outcome → Outcome → Prop where
  | success {result result' : Success} (hconsumed : result.consumed = result'.consumed)
    (hbindings : Table.Rel (fun v w => v.equal w = true) result.environment.bindings
      result'.environment.bindings) :
    Matches (.success result) (.success result')
  | failure {f f' : Failure} (hchain : List.Forall₂ Failure.Entry.Matches f.chain f'.chain) :
    Matches (.failure f) (.failure f')

lemma Outcome.Matches.of_twins {outcome outcome' : Outcome}
    (h : Pairing.twins.Outcomes Environment.Twin outcome outcome') : outcome.Matches outcome' := by
  cases h with
  | success henv hconsumed =>
    exact .success hconsumed (henv.bindings.imp fun _ _ ⟨hname, hvalue⟩ => ⟨hname, hvalue.equal⟩)
  | failure h =>
    exact .failure (h.imp fun _ _ he => ⟨he.matcher, he.reason, he.offset, he.located⟩)

lemma Matcher.exists_kind?_of_unrestricted {matcher : Matcher} (h : matcher.unrestricted = true) :
    ∃ kind, matcher.kind? = some kind := by
  cases matcher with
  | abstract => cases h
  | _ => exact ⟨_, rfl⟩

/-- A pattern that restricts nothing matches equal data in the same way, or fails for the same
reasons at the same positions, whatever the limits. A datum is proper if no dictionary in it has two
keys that are alike. -/
theorem Matcher.outcome_of_equal (limits : Limits) (pattern : Matcher) {datum datum' : Value}
    (hpattern : ∀ part ∈ pattern.parts, part.unrestricted = true) (hproper : datum.proper = true)
    (hsimple : datum.simple = true) (hequal : datum.equal datum' = true) :
    ∃ outcome outcome', pattern.outcome limits datum = .ok outcome ∧
      pattern.outcome limits datum' = .ok outcome' ∧ outcome.Matches outcome' := by
  have hdatum : datum.Twin datum' := .of_equal hproper hsimple hequal
  obtain ⟨kind, hkind⟩ := exists_kind?_of_unrestricted (hpattern _ pattern.mem_parts_self)
  have hstep : Pairing.twins.InStep Environment.Twin (pattern.searchFrom limits.stack)
      (pattern.searchFrom limits.stack) := Matcher.inStep_twins_from limits.stack hpattern
  have hstarts := hstep.holds_start hdatum (Environment.Twin.empty limits.maxDepth)
  obtain ⟨outcome, outcome', h, h', houtcomes⟩ :=
    Pairing.exists_outcomes hstarts fun interrupt hends => by
      cases hends
      simp only [Interrupt.failure?, hkind]
      exact ⟨_, _, rfl, rfl, Pairing.failures_report _ _ hdatum.empty_iff 0 .none⟩
  exact ⟨outcome, outcome', h, h', .of_twins houtcomes⟩

end

/-- One, two and nothing as whole numbers, as binary numbers and as truth values, where a rule asks
for one again. -/
theorem Matcher.outcome_of_equal_mixed :
    let rule : Text := [.char 'r']
    let pattern := Matcher.letrec [(.str rule, .element [.char 'x'] none)]
      (.array [.element [.char 'x'] none, .reference rule, .segmentExact [.char 's'] none])
    let datum := Value.list [.bool true, .int 1, .float (.finite false 1 1), .tuple [.bool false]]
    let datum' := Value.list
      [.int 1, .float (.finite false 2 (-1)), .int 2, .tuple [.float (.zero true)]]
    (∀ part ∈ pattern.parts, part.unrestricted = true) ∧ datum.proper = true ∧ datum.simple = true ∧
      datum.equal datum' = true ∧
      ∃ result result', pattern.outcome {} datum = .ok (.success result) ∧
        pattern.outcome {} datum' = .ok (.success result') ∧
        (Outcome.success result).Matches (.success result') := by
  intro rule pattern datum datum'
  have hpattern : ∀ part ∈ pattern.parts, part.unrestricted = true := by
    simp [pattern, parts, rulesParts, allParts, unrestricted, kind?]
  have hproper : datum.proper = true := rfl
  have hsimple : datum.simple = true := rfl
  have hequal : datum.equal datum' = true := by cbv
  obtain ⟨outcome, outcome', h, h', houtcomes⟩ :=
    Matcher.outcome_of_equal {} pattern hpattern hproper hsimple hequal
  have hmatched : Outcome.matched <$> pattern.outcome {} datum = .ok true := by
    simp only [pattern, datum, rule]
    cbv
  refine ⟨hpattern, hproper, hsimple, hequal, ?_⟩
  cases houtcomes with
  | @success result result' hconsumed hbindings =>
    exact ⟨result, result', h, h', .success hconsumed hbindings⟩
  | failure =>
    rw [h] at hmatched
    cases hmatched

end Motif
