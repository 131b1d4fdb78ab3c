import Motif.Proofs.Ceiling
import Motif.Proofs.Lockstep
import Motif.Proofs.Paths
import Mathlib

/-!
# Weaker patterns

A pattern is weakened by further alternatives in its choices and by dropping restrictions. This only
adds ways to match: those of the pattern remain, in their order and with the same data, and others
may come in between.

A search that has more to try may also come to the end of the stack where the other does not, and is
then given up altogether. So what is said here is said of searches that are not interrupted.
-/

namespace Motif

open scoped List

section

variable {H : Predicates}

/-! ### Weaker matchers -/

/-- A matcher is weakened: among the alternatives of its choices there are further ones, and some
restrictions are dropped. -/
inductive Matcher.WeakensTo : Matcher → Matcher → Prop where
  | constant {v : Value} : WeakensTo (.constant v) (.constant v)
  | element {name : Text} {only only' : Option Restriction} (h : only' = only ∨ only' = none) :
    WeakensTo (.element name only) (.element name only')
  | segment {name : Text} {only only' : Option Restriction} (h : only' = only ∨ only' = none) :
    WeakensTo (.segment name only) (.segment name only')
  | segmentExact {name : Text} {only only' : Option Restriction}
    (h : only' = only ∨ only' = none) :
    WeakensTo (.segmentExact name only) (.segmentExact name only')
  | rest : WeakensTo .rest .rest
  | array {elements elements' : List Matcher} (h : List.Forall₂ WeakensTo elements elements') :
    WeakensTo (.array elements) (.array elements')
  | choice {alternatives kept alternatives' : List Matcher}
    (h : List.Forall₂ WeakensTo alternatives kept) (hkept : kept <+ alternatives') :
    WeakensTo (.choice alternatives) (.choice alternatives')
  | reference {name : Text} : WeakensTo (.reference name) (.reference name)
  | letrec {rules rules' : List (Value × Matcher)} {body body' : Matcher}
    (hkeys : rules'.map Prod.fst = rules.map Prod.fst)
    (hrules : List.Forall₂ WeakensTo (rules.map Prod.snd) (rules'.map Prod.snd))
    (h : WeakensTo body body') : WeakensTo (.letrec rules body) (.letrec rules' body')
  | abstract {stamp : Nat} : WeakensTo (.abstract stamp) (.abstract stamp)

mutual

theorem Matcher.WeakensTo.refl : (matcher : Matcher) → matcher.WeakensTo matcher
  | .constant _ => .constant
  | .element .. => .element (.inl rfl)
  | .segment .. => .segment (.inl rfl)
  | .segmentExact .. => .segmentExact (.inl rfl)
  | .rest => .rest
  | .array elements => .array (Matcher.WeakensTo.refl_all elements)
  | .choice alternatives =>
    .choice (Matcher.WeakensTo.refl_all alternatives) (List.Sublist.refl alternatives)
  | .reference _ => .reference
  | .letrec rules body =>
    .letrec rfl (Matcher.WeakensTo.refl_rules rules) (Matcher.WeakensTo.refl body)
  | .abstract _ => .abstract

theorem Matcher.WeakensTo.refl_all : (matchers : List Matcher) →
    List.Forall₂ Matcher.WeakensTo matchers matchers
  | [] => .nil
  | matcher :: matchers =>
    .cons (Matcher.WeakensTo.refl matcher) (Matcher.WeakensTo.refl_all matchers)

theorem Matcher.WeakensTo.refl_rules : (rules : List (Value × Matcher)) →
    List.Forall₂ Matcher.WeakensTo (rules.map Prod.snd) (rules.map Prod.snd)
  | [] => .nil
  | (_, matcher) :: rules =>
    .cons (Matcher.WeakensTo.refl matcher) (Matcher.WeakensTo.refl_rules rules)

end

/-- Under every name there are rules of which the second is the first one weakened. -/
def Table.WeakensTo (rules rules' : Table Matcher) : Prop :=
  ∀ name, Option.Rel Matcher.WeakensTo (rules.lookup name) (rules'.lookup name)

lemma Table.WeakensTo.refl (rules : Table Matcher) : rules.WeakensTo rules := by
  intro name
  cases rules.lookup name with
  | none => exact .none
  | some matcher => exact .some (.refl matcher)

/-- The same data, and rules that are weakened. -/
abbrev Environment.WeakensTo : Environment → Environment → Prop :=
  Environment.Matched Table.WeakensTo

namespace Environment.WeakensTo

variable {env env' : Environment} {name : Text}

lemma refl (env : Environment) : env.WeakensTo env := ⟨rfl, rfl, rfl, .refl env.rules⟩

lemma define (h : env.WeakensTo env') {rules rules' : List (Value × Matcher)}
    (hkeys : rules'.map Prod.fst = rules.map Prod.fst)
    (hrules : List.Forall₂ Matcher.WeakensTo (rules.map Prod.snd) (rules'.map Prod.snd)) :
    (env.define (namedRules rules)).WeakensTo (env'.define (namedRules rules')) := by
  have hnamed : List.Forall₂ (fun rule rule' => rule'.1 = id rule.1 ∧ rule.2.WeakensTo rule'.2)
      (namedRules rules) (namedRules rules') := namedRules_forall₂ (by simpa using hkeys) hrules
  exact ⟨h.bindings, h.depth, h.maxDepth, fun name =>
    Table.lookup_insertAll_rel hnamed (fun _ _ heq => heq) fun _ => h.rules name⟩

lemma matcher?_rel (h : env.WeakensTo env') (name : Text) :
    Option.Rel Matcher.WeakensTo (env.matcher? name) (env'.matcher? name) :=
  matcher?_rel_of_lookup h.bindings (fun m _ => .refl m) fun _ => h.rules name

/-- A variable that stands for a rule equals no item without matchers. -/
lemma agreeOn (h : env.WeakensTo env') {items : List Value} (hitems : ∀ v ∈ items, v.Inert)
    (name : Text) : env.AgreeOn name items env' := by
  refine .of_lookup h.bindings (fun _ => h.rules name) fun _ _ _ _ _ => .inr ?_
  rintro m others rfl
  exact Value.not_inert_matcher m (hitems _ List.mem_cons_self)

end Environment.WeakensTo

/-! ### Ways among others -/

/-- Of some ways each stands among others, in the same order: with the same number of items used and
related environments afterwards, or as the same interrupt. -/
abbrev Embedded (E : Environment → Environment → Prop) : List Way → List Way → Prop :=
  List.SublistForall₂ (Ends fun way way' => way.2 = way'.2 ∧ E way.1 way'.1)

namespace Embedded

variable {E F : Environment → Environment → Prop} {ways kept ways' : List Way}

lemma of_sublist (h : Lockstep E ways kept) (hkept : kept <+ ways') : Embedded E ways ways' :=
  List.sublistForall₂_iff.mpr ⟨kept, h, hkept⟩

lemma of_ok {ways kept ways' : List (Environment × Nat)}
    (h : List.Forall₂ (fun way way' => way.2 = way'.2 ∧ E way.1 way'.1) ways kept)
    (hkept : kept <+ ways') : Embedded E (ways.map .ok) (ways'.map .ok) :=
  of_sublist (.of_ok h) (hkept.map _)

lemma trans_sublist (h : Embedded E ways kept) (hkept : kept <+ ways') : Embedded E ways ways' := by
  obtain ⟨kept', hlockstep, hsub⟩ := List.sublistForall₂_iff.mp h
  exact of_sublist hlockstep (hsub.trans hkept)

lemma leave {restore restore' : Environment → Environment} (h : Embedded E ways ways')
    (hleave : ∀ {env env'}, E env env' → F (restore env) (restore' env')) :
    Embedded F (ways.map (Way.leave restore)) (ways'.map (Way.leave restore')) := by
  obtain ⟨kept, hlockstep, hsub⟩ := List.sublistForall₂_iff.mp h
  exact of_sublist (Lockstep.leave hlockstep hleave) (hsub.map _)

end Embedded

section

variable {α β : Type} {R : α → β → Prop} {as as' : List α} {bs bs' : List β}

lemma sublistForall₂_append (h : List.SublistForall₂ R as bs)
    (h' : List.SublistForall₂ R as' bs') : List.SublistForall₂ R (as ++ as') (bs ++ bs') := by
  obtain ⟨kept, hrel, hsub⟩ := List.sublistForall₂_iff.mp h
  obtain ⟨kept', hrel', hsub'⟩ := List.sublistForall₂_iff.mp h'
  exact List.sublistForall₂_iff.mpr ⟨kept ++ kept', List.rel_append hrel hrel', hsub.append hsub'⟩

end

/-- What follows on ways that stand among others stands among what follows on those. -/
lemma Embedded.followed {α : Type} {E : Environment → Environment → Prop} {G : α → α → Prop}
    {ways ways' : List Way} {next next' : Environment → Nat → List (Except Interrupt α)}
    (h : Embedded E ways ways')
    (hnext : ∀ {env env' n}, E env env' →
      List.SublistForall₂ (Ends G) (next env n) (next' env' n)) :
    List.SublistForall₂ (Ends G) (followed ways next) (followed ways' next') := by
  induction h with
  | nil => exact .nil
  | cons hway _ ih =>
    refine sublistForall₂_append ?_ ih
    cases hway with
    | interrupt interrupt => exact .cons (.interrupt interrupt) .nil
    | @ok way way' hway =>
      obtain ⟨env, n⟩ := way
      obtain ⟨env', n'⟩ := way'
      obtain ⟨rfl, hE⟩ : n = n' ∧ E env env' := hway
      exact hnext hE
  | cons_right _ ih => exact sublistForall₂_append .nil ih

lemma Embedded.error_notMem {E : Environment → Environment → Prop} {ways ways' : List Way}
    {interrupt : Interrupt} (h : Embedded E ways ways') (hways' : .error interrupt ∉ ways') :
    .error interrupt ∉ ways := by
  induction h with
  | nil => exact List.not_mem_nil
  | cons hway _ ih =>
    obtain ⟨hfirst, hothers⟩ := not_or.mp (mt List.mem_cons.mpr hways')
    intro hmem
    rcases List.mem_cons.mp hmem with rfl | hmem
    · cases hway with
      | interrupt => exact hfirst rfl
    · exact ih hothers hmem
  | cons_right _ ih => exact ih fun hmem => hways' (List.mem_cons_of_mem _ hmem)

/-- What the ways bind, and how many items they use, stays. -/
lemma Embedded.sublist {E : Environment → Environment → Prop} {ways ways' : List Way}
    (h : Embedded E ways ways') (hE : ∀ {env env'}, E env env' → env'.bindings = env.bindings) :
    (ways.filterMap Except.toOption).map (fun (env, n) => (env.bindings, n)) <+
      (ways'.filterMap Except.toOption).map fun (env, n) => (env.bindings, n) := by
  induction h with
  | nil => exact List.nil_sublist _
  | cons hway _ ih =>
    cases hway with
    | interrupt interrupt => exact ih
    | @ok way way' hway =>
      obtain ⟨env, n⟩ := way
      obtain ⟨env', n'⟩ := way'
      obtain ⟨rfl, henv⟩ : n = n' ∧ E env env' := hway
      have hbindings := hE henv
      change (env.bindings, n) :: _ <+ (env'.bindings, n) :: _
      rw [hbindings]
      exact ih.cons_cons _
  | @cons_right way _ _ _ ih =>
    cases way with
    | error interrupt => exact ih
    | ok way => exact ih.cons _

/-! ### Runs and single items without their restrictions -/

section

variable {name : Text} {only only' : Option Restriction} (hdrop : only' = only ∨ only' = none)
  (items : List Value) (env : Environment)
include hdrop

lemma elementWays_sublist :
    elementWays name only items env <+ elementWays name only' items env := by
  rcases hdrop with rfl | rfl
  · exact List.Sublist.refl _
  · cases items with
    | nil => exact List.Sublist.refl _
    | cons item others =>
      rw [elementWays, elementWays, if_pos (show allowed none item = true from rfl)]
      split
      · exact List.Sublist.refl _
      · exact List.nil_sublist _

omit hdrop in
lemma takeWhile_allowed_none : items.takeWhile (allowed none) = items :=
  List.takeWhile_eq_self_iff.mpr fun _ _ => rfl

lemma segmentLengths_sublist : segmentLengths only items <+ segmentLengths only' items := by
  rcases hdrop with rfl | rfl
  · exact List.Sublist.refl _
  · rw [segmentLengths, segmentLengths, takeWhile_allowed_none]
    refine List.Sublist.map _ (List.range_sublist.mpr ?_)
    exact (List.takeWhile_prefix _).length_le

omit hdrop in
lemma replays_none {vs items : List Value} (h : replays only vs items = true) :
    replays none vs items = true := by
  induction vs generalizing items with
  | nil => rfl
  | cons v vs ih =>
    cases items with
    | nil => cases h
    | cons item items =>
      simp only [replays, Bool.and_eq_true] at h ⊢
      exact ⟨⟨h.1.1, rfl⟩, ih h.2⟩

lemma segmentWays_sublist :
    segmentWays name only items env <+ segmentWays name only' items env := by
  unfold segmentWays
  split
  · exact (segmentLengths_sublist hdrop items).map _
  · rcases hdrop with rfl | rfl
    · exact List.Sublist.refl _
    · split
      · rename_i hreplays
        rw [if_pos (replays_none hreplays)]
      · exact List.nil_sublist _
  · exact List.Sublist.refl _

end

/-! ### All matchers -/

/-- Where no matchers are among the data, all ways stay when the rules in scope are weakened. -/
def Embeds (ways ways' : List Value → Environment → List Way) : Prop :=
  ∀ ⦃items env env'⦄, (∀ v ∈ items, v.Inert) → env.WeakensTo env' →
    Embedded Environment.WeakensTo (ways items env) (ways' items env')

section Call

variable {call : Text → List Value → Environment → List Way}

lemma embeds_element (name : Text) {only only' : Option Restriction}
    (hdrop : only' = only ∨ only' = none) :
    Embeds ((Matcher.element name only).ways call) ((Matcher.element name only').ways call) :=
  fun items _ env' hitems h =>
    .of_ok (h.elementWays_forall₂ (h.agreeOn hitems name) only)
      (elementWays_sublist hdrop items env')

lemma embeds_segment (name : Text) {only only' : Option Restriction}
    (hdrop : only' = only ∨ only' = none) :
    Embeds ((Matcher.segment name only).ways call) ((Matcher.segment name only').ways call) :=
  fun items _ env' hitems h =>
    .of_ok (h.segmentWays_forall₂ (h.agreeOn hitems name) only)
      (segmentWays_sublist hdrop items env')

lemma embeds_segmentExact (name : Text) {only only' : Option Restriction}
    (hdrop : only' = only ∨ only' = none) :
    Embeds ((Matcher.segmentExact name only).ways call)
      ((Matcher.segmentExact name only').ways call) :=
  fun items _ env' hitems h =>
    .of_ok (h.segmentExactWays_forall₂ (h.agreeOn hitems name) only)
      ((segmentWays_sublist hdrop items env').filter _)

/-- All ways of a list of matchers stay when they are weakened. -/
def EmbedsAll [Predicates] (call : Text → List Value → Environment → List Way)
    (matchers : List Matcher) : Prop :=
  ∀ m ∈ matchers, ∀ {m'}, m.WeakensTo m' → Embeds (m.ways call) (m'.ways call)

lemma embedded_sequenceWays {elements elements' : List Matcher}
    (h : List.Forall₂ Matcher.WeakensTo elements elements') (hall : EmbedsAll call elements)
    {items : List Value} {env env' : Environment} (hitems : ∀ v ∈ items, v.Inert)
    (henv : env.WeakensTo env') :
    List.SublistForall₂ (Ends Environment.WeakensTo) (sequenceWays call elements items env)
      (sequenceWays call elements' items env') := by
  induction h generalizing items env env' with
  | nil =>
    rw [sequenceWays, sequenceWays]
    split
    · exact .cons (.ok henv) .nil
    · exact .nil
  | cons hfirst _ ih =>
    obtain ⟨hembeds, hall⟩ := List.forall_mem_cons.mp hall
    rw [sequenceWays, sequenceWays]
    refine (hembeds hfirst hitems henv).followed fun henv' => ?_
    exact ih hall (fun v hv => hitems v (List.mem_of_mem_drop hv)) henv'

lemma embeds_array {elements elements' : List Matcher}
    (h : List.Forall₂ Matcher.WeakensTo elements elements') (hall : EmbedsAll call elements) :
    Embeds ((Matcher.array elements).ways call) ((Matcher.array elements').ways call) := by
  intro items env env' hitems henv
  unfold Matcher.ways
  split
  · rename_i shape inner others
    have hinner := Value.inert_seq_iff.mp (hitems _ List.mem_cons_self)
    obtain ⟨kept, hrel, hsub⟩ :=
      List.sublistForall₂_iff.mp (embedded_sequenceWays h hall hinner henv)
    refine .of_sublist ?_ (hsub.map _)
    rw [Lockstep, List.forall₂_map_left_iff, List.forall₂_map_right_iff]
    refine hrel.imp fun _ _ hend => ?_
    cases hend with
    | interrupt interrupt => exact .interrupt interrupt
    | ok henv => exact .ok ⟨rfl, henv⟩
  · exact .nil

lemma alternativeWays_sublist {alternatives alternatives' : List Matcher}
    (h : alternatives <+ alternatives') (items : List Value) (env : Environment) :
    alternativeWays call alternatives items env <+
      alternativeWays call alternatives' items env := by
  induction h with
  | slnil => exact List.Sublist.refl _
  | cons alternative _ ih => exact ih.trans (List.sublist_append_right _ _)
  | cons_cons alternative _ ih => exact ih.append_left _

lemma embeds_choice {alternatives kept alternatives' : List Matcher}
    (h : List.Forall₂ Matcher.WeakensTo alternatives kept) (hkept : kept <+ alternatives')
    (hall : EmbedsAll call alternatives) :
    Embeds ((Matcher.choice alternatives).ways call)
      ((Matcher.choice alternatives').ways call) := by
  intro items env env' hitems henv
  have hkept' : Embedded Environment.WeakensTo (alternativeWays call alternatives items env)
      (alternativeWays call kept items env') := by
    clear hkept
    induction h with
    | nil => exact .nil
    | cons hfirst _ ih =>
      obtain ⟨hembeds, hall⟩ := List.forall_mem_cons.mp hall
      exact sublistForall₂_append (hembeds hfirst hitems henv) (ih hall)
  exact hkept'.trans_sublist (alternativeWays_sublist hkept items env')

mutual

/-- All ways of a matcher stay when it is weakened, if those of every reference do. -/
theorem Matcher.WeakensTo.embeds (hcall : ∀ name, Embeds (call name) (call name)) : (m : Matcher) →
    {m' : Matcher} → m.WeakensTo m' → Embeds (m.ways call) (m'.ways call)
  | .constant v, _, h => by
    cases h
    exact fun items _ _ _ henv => .of_ok (henv.constantWays_forall₂ v items) (List.Sublist.refl _)
  | .element name only, _, h => by
    cases h with
    | element hdrop => exact embeds_element name hdrop
  | .segment name only, _, h => by
    cases h with
    | segment hdrop => exact embeds_segment name hdrop
  | .segmentExact name only, _, h => by
    cases h with
    | segmentExact hdrop => exact embeds_segmentExact name hdrop
  | .rest, _, h => by
    cases h
    exact fun _ _ _ _ henv => .of_ok (henv.unchanged_forall₂ _) (List.Sublist.refl _)
  | .array elements, _, h => by
    cases h with
    | array h => exact embeds_array h (embedsAll hcall elements)
  | .choice alternatives, _, h => by
    cases h with
    | choice h hkept => exact embeds_choice h hkept (embedsAll hcall alternatives)
  | .reference name, _, h => by
    cases h
    exact hcall name
  | .letrec rules body, _, h => by
    cases h with
    | letrec hkeys hrules h =>
      intro items env env' hitems henv
      exact (Matcher.WeakensTo.embeds hcall body h hitems (henv.define hkeys hrules)).leave
        fun hinner => hinner.scopedTo henv
  | .abstract _, _, h => by
    cases h
    exact fun _ _ _ _ _ => .cons (.interrupt _) .nil

theorem embedsAll (hcall : ∀ name, Embeds (call name) (call name)) : (matchers : List Matcher) →
    EmbedsAll call matchers
  | [] => by simp [EmbedsAll]
  | matcher :: matchers =>
    List.forall_mem_cons.mpr ⟨Matcher.WeakensTo.embeds hcall matcher, embedsAll hcall matchers⟩

end

end Call

lemma embeds_callWays (stack : Option Nat) (room : Nat) (name : Text) :
    Embeds (callWays stack room name) (callWays stack room name) := by
  induction room generalizing name with
  | zero =>
    intro items env env' _ henv
    have hnone : callWays stack 0 name items env = [] := by
      cases h : env.matcher? name <;> simp [callWays, h]
    rw [hnone]
    exact .nil
  | succ room ih =>
    intro items env env' hitems henv
    simp only [callWays, henv.exhausted, henv.depth]
    rcases rel_cases (henv.matcher?_rel name) with
      ⟨hnone, hnone'⟩ | ⟨target, target', htarget, htarget', hweaken⟩
    · rw [hnone, hnone']
      exact .nil
    · rw [htarget, htarget']
      dsimp only
      split
      · exact .nil
      · split
        · exact .cons (.interrupt _) .nil
        · exact (hweaken.embeds ih target hitems henv.descend).leave
            fun hinner => hinner.atDepth env.depth

/-- All ways of a matcher stay when it is weakened. -/
lemma Matcher.WeakensTo.embeds_waysFrom [Predicates] {m m' : Matcher} (h : m.WeakensTo m')
    (stack : Option Nat) : Embeds (m.waysFrom stack) (m'.waysFrom stack) := by
  intro items env env' hitems henv
  rw [waysFrom, waysFrom, henv.room]
  exact h.embeds (embeds_callWays stack env.room) m hitems henv

/-! ### Searches that are not interrupted -/

/-- A continuation that rejects all ways comes to every interrupt among them. -/
lemma error_notMem_of_rejects {σ κ : Type} [Answer κ] {k : Continuation (Stateful σ) κ}
    (hk : k.Rejects) {ways : List Way} {state state' : σ} {answer : Option κ}
    (h : Stateful.ending (ways.findSomeM? (attempt fun way => accepted? <$> k way.1 way.2)) state =
      (.ok answer, state')) (interrupt : Interrupt) : .error interrupt ∉ ways := by
  induction ways generalizing state with
  | nil => exact List.not_mem_nil
  | cons way ways ih =>
    cases way with
    | error interrupt' =>
      rw [findSomeM?_error, Stateful.ending_throw] at h
      cases h
    | ok way =>
      obtain ⟨x, state₁, hending, hx⟩ := hk way.1 way.2 state
      rw [List.findSomeM?_cons, attempt_ok, Stateful.ending_bind, Stateful.ending_map, hending] at h
      simp only [Except.map, hx] at h
      simpa using ih h

variable {m m' : Matcher}

/-- A continuation that rejects all ways is called for more of them when a matcher is weakened. -/
lemma Matcher.WeakensTo.calls_sublist (h : m.WeakensTo m') {σ κ : Type} [Answer κ]
    {stack : Option Nat} {input : Input} {env : Environment} {k : Continuation (Stateful σ) κ}
    {state state' : σ} {verdict : Verdict κ} (hitems : ∀ v ∈ input.items, v.Inert)
    (hk : k.Rejects)
    (hending : Stateful.ending (m'.searchFrom stack input env k) state = (.ok verdict, state')) :
    (m.calls stack input env k state).map (fun (env', n) => (env'.bindings, n)) <+
      (m'.calls stack input env k state).map fun (env', n) => (env'.bindings, n) := by
  have htries := congrArg (fun ending => (Except.map Verdict.accepted? ending.1, ending.2)) hending
  rw [← Stateful.ending_map, m'.tries_searchFrom stack input env k] at htries
  have hways' := error_notMem_of_rejects hk htries
  have hembedded := h.embeds_waysFrom stack hitems (.refl env)
  rw [calls_of_rejects hk fun interrupt => hembedded.error_notMem (hways' interrupt),
    calls_of_rejects hk hways']
  exact hembedded.sublist fun henv => henv.bindings

/-- What matches stays a match when the pattern is weakened. -/
lemma Matcher.WeakensTo.exists_outcome (h : m.WeakensTo m') {limits : Limits} {datum : Value}
    {result : Success} (hdatum : datum.Inert)
    (hstart : ∀ interrupt,
      m'.start limits datum Success.keep ≠ (.error interrupt : Except Interrupt _))
    (houtcome : m.outcome limits datum = .ok (.success result)) :
    ∃ result', m'.outcome limits datum = .ok (.success result') := by
  obtain ⟨env, n, others, hways⟩ := exists_waysOf_eq_cons houtcome
  have hembedded : Embedded Environment.WeakensTo (m.waysOf limits datum)
      (m'.waysOf limits datum) :=
    h.embeds_waysFrom limits.stack (by simpa using hdatum) (.refl _)
  rw [hways] at hembedded
  cases hways' : m'.waysOf limits datum with
  | nil =>
    rw [hways'] at hembedded
    cases hembedded
  | cons way others' =>
    cases way with
    | ok way => exact ⟨⟨way.1, way.2⟩, outcome_of_cons hways'⟩
    | error interrupt => exact absurd (start_eq_error_iff.mpr ⟨others', hways'⟩) (hstart interrupt)

/-- Weakening a pattern never loses a match, if it is not for the stack. A continuation that rejects
all ways is called for those that the pattern has, and for others in between, with the same data and
as many items, and what matched before matches. Without a limit on the stack no search of a
pattern is interrupted. -/
theorem Matcher.weaker_adds (h : m.WeakensTo m') :
    (∀ {σ κ : Type} [Answer κ] (stack : Option Nat) (input : Input) (env : Environment)
      (k : Continuation (Stateful σ) κ) (state state' : σ) (verdict : Verdict κ),
      (∀ v ∈ input.items, v.Inert) → k.Rejects →
      Stateful.ending (m'.searchFrom stack input env k) state = (.ok verdict, state') →
        (m.calls stack input env k state).map (fun (env', n) => (env'.bindings, n)) <+
          (m'.calls stack input env k state).map fun (env', n) => (env'.bindings, n)) ∧
      (∀ (limits : Limits) (datum : Value) (result : Success), datum.Inert →
        (∀ interrupt,
          m'.start limits datum Success.keep ≠ (.error interrupt : Except Interrupt _)) →
        m.outcome limits datum = .ok (.success result) →
          ∃ result', m'.outcome limits datum = .ok (.success result')) ∧
      (m'.builtFrom MatcherKind.all = true →
        (∀ {σ κ : Type} [Answer κ] (input : Input) (env : Environment)
          (k : Continuation (Stateful σ) κ) (state : σ), Concrete input.items env → k.Rejects →
          ∃ verdict state',
            Stateful.ending (m'.searchFrom none input env k) state = (.ok verdict, state')) ∧
        ∀ (maxDepth : Int) (datum : Value), Concrete [datum] (.empty maxDepth) → ∀ interrupt,
          m'.start ⟨maxDepth, none⟩ datum Success.keep ≠
            (.error interrupt : Except Interrupt _)) := by
  refine ⟨?_, ?_, fun hbuilt => ⟨?_, ?_⟩⟩
  · intro σ κ _ stack input env k state state' verdict hitems hk hending
    exact h.calls_sublist hitems hk hending
  · intro limits datum result hdatum hstart houtcome
    exact h.exists_outcome hdatum hstart houtcome
  · intro σ κ _ input env k state hconcrete hk
    refine Matcher.exists_ending_searchFrom hbuilt hconcrete (fun env' n state => ?_) state
    obtain ⟨x, state', hx, -⟩ := hk env' n state
    exact ⟨x, state', hx⟩
  · intro maxDepth datum hconcrete interrupt hstart
    obtain ⟨others, hways⟩ := start_eq_error_iff.mp hstart
    exact Matcher.uninterrupted_waysFrom hbuilt hconcrete (hways ▸ List.mem_cons_self)

end

/-- A rule that calls itself on the last item of a list, weakened by filler as its first alternative
and by dropping the restriction of its variable. -/
theorem Matcher.weaker_adds_nested :
    let e : Text := [.char 'e']
    let x : Text := [.char 'x']
    let rule (only : Option Restriction) (more : List Matcher) : Matcher :=
      .letrec [(.str e, .choice (more ++ [.array [.rest, .reference e], .element x only]))]
        (.reference e)
    let m := rule (some .integer) []
    let m' := rule none [.rest]
    let datum : Value := .list [.null, .list [.int 7]]
    let refuse : Continuation (Stateful Unit) (Verdict Success) := fun _ _ => pure (.own default)
    let calls (matcher : Matcher) :=
      (matcher.calls none (.single datum) (.empty 3) refuse ()).map
        fun (env, n) => (env.bindings, n)
    calls m <+ calls m' ∧
      (∃ result, m.outcome ⟨3, none⟩ datum = .ok (.success result)) ∧
      ∃ result, m'.outcome ⟨3, none⟩ datum = .ok (.success result) := by
  intro e x rule m m' datum refuse calls
  have hweakens : m.WeakensTo m' := by
    refine .letrec rfl (.cons ?_ .nil) .reference
    exact .choice (.cons (.refl _) (.cons (.element (.inr rfl)) .nil))
      (List.sublist_append_right _ _)
  have hdatum : datum.Inert := by
    intro matcher
    simp [datum, Value.within_cons_iff]
  have hrefuse : refuse.Rejects := fun _ _ _ => ⟨_, _, rfl, rfl⟩
  have hbuilt : m'.builtFrom MatcherKind.all = true := rfl
  have hconcrete (maxDepth : Int) : Concrete [datum] (.empty maxDepth) :=
    ⟨fun matcher hm => absurd hm (hdatum matcher), fun name matcher hm => nomatch hm⟩
  have houtcome : m.outcome ⟨3, none⟩ datum =
      .ok (.success ⟨⟨[(x, .int 7)], [], 0, 3, 9⟩, 1⟩) := by
    dsimp only [m, rule, datum, e, x]
    cbv
  obtain ⟨hcalls, hmatch, hends⟩ := Matcher.weaker_adds hweakens
  obtain ⟨hending, hstart⟩ := hends hbuilt
  obtain ⟨verdict, state, hverdict⟩ :=
    hending (.single datum) (.empty 3) refuse () (hconcrete 3) hrefuse
  exact ⟨hcalls none (.single datum) (.empty 3) refuse () state verdict
      (fun v hv => List.mem_singleton.mp hv ▸ hdatum) hrefuse hverdict,
    ⟨_, houtcome⟩, hmatch ⟨3, none⟩ datum _ hdatum (hstart 3 datum (hconcrete 3)) houtcome⟩

/-! ### Left recursion -/

/-- A rule with a reference to itself as a further alternative loses a match, if the ceiling is
above the stack. -/
theorem Matcher.weaker_loses_leftRecursive :
    let e : Text := [.char 'e']
    let rule (more : List Matcher) : Matcher :=
      .letrec [(.str e, .choice (more ++ [.constant (.str [.char 'n'])]))] (.reference e)
    let datum : Value := .str [.char 'n']
    let limits : Limits := ⟨1000000000, some 1000⟩
    (rule []).WeakensTo (rule [.reference e]) ∧ datum.Inert ∧
      (∃ result, (rule []).outcome limits datum = .ok (.success result)) ∧
      ∃ f, (rule [.reference e]).outcome limits datum = .ok (.failure f) := by
  intro e rule datum limits
  refine ⟨?_, ?_, ?_, ?_⟩
  · refine .letrec rfl (.cons ?_ .nil) .reference
    exact .choice (WeakensTo.refl_all _) (List.sublist_append_right _ _)
  · intro matcher
    simp [datum, Value.within_cons_iff]
  · refine ⟨⟨⟨[], [], 0, 1000000000, 4⟩, 1⟩, ?_⟩
    dsimp only [rule, datum, limits, e]
    cbv
  · obtain ⟨others, hothers⟩ := Matcher.exists_waysFrom_letrec_cut_off (fun _ => e) 1000 [datum]
      [(.str e, .choice [.reference e, .constant (.str [.char 'n'])])] (fun _ _ => ⟨_, rfl⟩)
      (show (1000 : Int) < 1000000000 by decide)
    have hways : (rule [.reference e]).waysOf limits datum = .error .stackExhausted :: others := by
      rw [waysOf]
      exact hothers
    exact ⟨_, outcome_of_error hways⟩

end Motif
