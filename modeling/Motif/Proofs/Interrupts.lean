import Motif.Proofs.Derivation
import Motif.Proofs.Scope

/-!
# Searches that are not interrupted

Where every matcher that a search can come to has a search of its own, only a lack of stack can
interrupt it: without a limit on the stack it ends with a verdict for every continuation that always
answers, and under any limit a datum comes to an outcome.
-/

namespace Motif

variable {H : Predicates}

/-! ### Matchers in reach -/

namespace Environment

variable {env : Environment} {name : Text}

lemma get?_of_bound {v : Value} (h : env.bindings.lookup name = some v) :
    env.get? name = some v := by
  rw [get?, h]

lemma get?_of_unbound (h : env.bindings.lookup name = none) :
    env.get? name = (env.rules.lookup name).map .matcher := by
  rw [get?, h]

lemma matcher?_of_unbound (h : env.bindings.lookup name = none) :
    env.matcher? name = env.rules.lookup name := by
  rw [matcher?, get?_of_unbound h]
  cases env.rules.lookup name <;> rfl

lemma matcher?_eq_some_iff {m : Matcher} :
    env.matcher? name = some m ↔ env.bindings.lookup name = some (.matcher m) ∨
      env.bindings.lookup name = none ∧ env.rules.lookup name = some m := by
  unfold matcher? get?
  cases env.bindings.lookup name with
  | none => cases env.rules.lookup name <;> simp
  | some v => cases v <;> simp

end Environment

/-- Every matcher that a search of `items` from `env` can come to by a name has a search of its own:
those that have a name already and those among the items, which may be given one. -/
structure Concrete (items : List Value) (env : Environment) : Prop where
  item : ∀ m : Matcher, (Value.matcher m).Within items → m.builtFrom MatcherKind.all = true
  named : ∀ name m, env.matcher? name = some m → m.builtFrom MatcherKind.all = true

namespace Concrete

variable {items : List Value} {env env' : Environment}

lemma grows (h : Concrete items env) (hgrows : env.Grows items env') : Concrete items env' := by
  refine ⟨h.item, fun name m hm => ?_⟩
  rcases Environment.matcher?_eq_some_iff.mp hm with hdata | ⟨hnone, hrule⟩
  · rcases hgrows.lookup_or_takenFrom hdata with hold | hnew
    · exact h.named name m (Environment.matcher?_eq_some_iff.mpr (.inl hold))
    · cases hnew with
      | within hwithin => exact h.item m hwithin
  · rw [hgrows.rules] at hrule
    have hold : env.bindings.lookup name = none := by
      cases hlookup : env.bindings.lookup name with
      | none => rfl
      | some v =>
        rw [hgrows.lookup_eq_some hlookup] at hnone
        cases hnone
    exact h.named name m (Environment.matcher?_eq_some_iff.mpr (.inr ⟨hold, hrule⟩))

lemma drop (h : Concrete items env) (n : Nat) : Concrete (items.drop n) env :=
  ⟨fun m hm => h.item m (hm.mono (List.drop_subset n items)), h.named⟩

lemma inside {shape : Shape} {inner others : List Value}
    (h : Concrete (.seq shape inner :: others) env) : Concrete inner env :=
  ⟨fun m hm => h.item m (.inside List.mem_cons_self hm), h.named⟩

lemma descend (h : Concrete items env) : Concrete items env.descend := ⟨h.item, h.named⟩

lemma define {rules : List (Value × Matcher)} (h : Concrete items env)
    (hrules : rulesBuiltFrom MatcherKind.all rules = true) :
    Concrete items (env.define (namedRules rules)) := by
  refine ⟨h.item, fun name m hm => ?_⟩
  rcases Environment.matcher?_eq_some_iff.mp hm with hdata | ⟨hnone, hrule⟩
  · exact h.named name m (Environment.matcher?_eq_some_iff.mpr (.inl hdata))
  · rw [Environment.define, Table.lookup_insertAll, Option.or_eq_some_iff] at hrule
    rcases hrule with hnew | ⟨-, hold⟩
    · exact builtFrom_of_grammarOf hrules hnew
    · exact h.named name m (Environment.matcher?_eq_some_iff.mpr (.inr ⟨hnone, hold⟩))

end Concrete

/-! ### Ways without interrupts -/

section

variable {interrupt : Interrupt}

variable (interrupt) in
/-- The interrupt is not among the ways, if all matchers in reach have searches of their own. -/
def Uninterrupted (ways : List Value → Environment → List Way) : Prop :=
  ∀ ⦃items : List Value⦄ ⦃env : Environment⦄, Concrete items env → .error interrupt ∉ ways items env

lemma error_notMem_map_ok {ways : List (Environment × Nat)} :
    (.error interrupt : Way) ∉ ways.map .ok := by
  intro hway
  obtain ⟨way, -, heq⟩ := List.mem_map.mp hway
  cases heq

lemma error_mem_map_leave {restore : Environment → Environment} {ways : List Way}
    (hway : .error interrupt ∈ ways.map (Way.leave restore)) :
    .error interrupt ∈ ways := by
  obtain ⟨interrupt' | way, hmem, heq⟩ := List.mem_map.mp hway
  · cases heq
    exact hmem
  · cases heq

section Call

variable {call : Text → List Value → Environment → List Way}

lemma uninterrupted_array {elements : List Matcher}
    (h : ∀ {items env}, Concrete items env →
      .error interrupt ∉ sequenceWays call elements items env) :
    Uninterrupted interrupt ((Matcher.array elements).ways call) := by
  intro items env hconcrete hway
  unfold Matcher.ways at hway
  split at hway
  · obtain ⟨interrupt' | env', hinner, heq⟩ := List.mem_map.mp hway
    · cases heq
      exact h hconcrete.inside hinner
    · cases heq
  · cases hway

mutual

/-- A matcher is not interrupted, if no reference is. -/
theorem uninterrupted_ways [Predicates]
    (hcall : ∀ name, Uninterrupted interrupt (call name)) (hgrow : ∀ name, Grow (call name)) :
    (matcher : Matcher) →
    matcher.builtFrom MatcherKind.all = true → Uninterrupted interrupt (matcher.ways call)
  | .constant _, _, _, _, _ => error_notMem_map_ok
  | .element .., _, _, _, _ => error_notMem_map_ok
  | .segment .., _, _, _, _ => error_notMem_map_ok
  | .segmentExact .., _, _, _, _ => error_notMem_map_ok
  | .rest, _, _, _, _ => error_notMem_map_ok
  | .array elements, hbuilt, _, _, hconcrete => by
    simp only [Matcher.builtFrom, Bool.and_eq_true] at hbuilt
    exact uninterrupted_array (error_notMem_sequenceWays hcall hgrow elements hbuilt.2) hconcrete
  | .choice alternatives, hbuilt, _, _, hconcrete => by
    simp only [Matcher.builtFrom, Bool.and_eq_true] at hbuilt
    exact uninterrupted_alternativeWays hcall hgrow alternatives hbuilt.2 hconcrete
  | .reference name, _, _, _, hconcrete => hcall name hconcrete
  | .letrec rules body, hbuilt, _, _, hconcrete => by
    simp only [Matcher.builtFrom, Bool.and_eq_true] at hbuilt
    intro hway
    exact uninterrupted_ways hcall hgrow body hbuilt.2 (hconcrete.define hbuilt.1.2)
      (error_mem_map_leave hway)
  | .abstract _, hbuilt, _, _, _ => by cases hbuilt

theorem error_notMem_sequenceWays [Predicates]
    (hcall : ∀ name, Uninterrupted interrupt (call name)) (hgrow : ∀ name, Grow (call name)) :
    (elements : List Matcher) →
    allBuiltFrom MatcherKind.all elements = true → {items : List Value} → {env : Environment} →
    Concrete items env → .error interrupt ∉ sequenceWays call elements items env
  | [], _, items, env, _ => by
    simp only [sequenceWays]
    split <;> simp
  | element :: elements, hbuilt, items, env, hconcrete => by
    simp only [allBuiltFrom, Bool.and_eq_true] at hbuilt
    intro hway
    obtain ⟨interrupt' | ⟨env', n⟩, hfirst, hrest⟩ := List.mem_flatMap.mp hway
    · cases List.mem_singleton.mp hrest
      exact uninterrupted_ways hcall hgrow element hbuilt.1 hconcrete hfirst
    · have hgrown := (Matcher.grow_ways hgrow element hfirst).2
      exact error_notMem_sequenceWays hcall hgrow elements hbuilt.2
        ((hconcrete.grows hgrown).drop n) hrest

theorem uninterrupted_alternativeWays [Predicates]
    (hcall : ∀ name, Uninterrupted interrupt (call name)) (hgrow : ∀ name, Grow (call name)) :
    (alternatives : List Matcher) →
    allBuiltFrom MatcherKind.all alternatives = true →
    Uninterrupted interrupt (alternativeWays call alternatives)
  | [], _, _, _, _ => List.not_mem_nil
  | alternative :: alternatives, hbuilt, items, env, hconcrete => by
    simp only [allBuiltFrom, Bool.and_eq_true] at hbuilt
    intro hway
    rcases List.mem_append.mp hway with hway | hway
    · exact uninterrupted_ways hcall hgrow alternative hbuilt.1 hconcrete hway
    · exact uninterrupted_alternativeWays hcall hgrow alternatives hbuilt.2 hconcrete hway

end

end Call

/-- Only a limit on the stack interrupts references. -/
lemma uninterrupted_callWays {stack : Option Nat}
    (hstack : stack = none ∨ interrupt ≠ .stackExhausted) (room : Nat) (name : Text) :
    Uninterrupted interrupt (callWays stack room name) := by
  induction room generalizing name with
  | zero =>
    intro items env hconcrete hway
    cases h : env.matcher? name <;> simp [callWays, h] at hway
  | succ room ih =>
    intro items env hconcrete hway
    cases h : env.matcher? name with
    | none => simp [callWays, h] at hway
    | some target =>
      simp only [callWays, h] at hway
      split at hway
      · cases hway
      split at hway
      · rename_i hany
        cases List.mem_singleton.mp hway
        rcases hstack with rfl | hother
        · cases hany
        · exact hother rfl
      · have hbuilt := hconcrete.named name target h
        exact uninterrupted_ways ih (grow_callWays stack room) target hbuilt hconcrete.descend
          (error_mem_map_leave hway)

variable {matcher : Matcher} (hbuilt : matcher.builtFrom MatcherKind.all = true)
  {items : List Value} {env : Environment} (hconcrete : Concrete items env)
include hbuilt hconcrete

lemma Matcher.error_notMem_waysFrom {stack : Option Nat}
    (hstack : stack = none ∨ interrupt ≠ .stackExhausted) :
    .error interrupt ∉ matcher.waysFrom stack items env :=
  uninterrupted_ways (uninterrupted_callWays hstack env.room) (grow_callWays stack env.room)
    matcher hbuilt hconcrete

lemma Matcher.uninterrupted_waysFrom : .error interrupt ∉ matcher.waysFrom none items env :=
  error_notMem_waysFrom hbuilt hconcrete (.inl rfl)

end

/-! ### Searches that end -/

/-- A continuation that answers every call. -/
def Continuation.Answers {σ κ : Type} (k : Continuation (Stateful σ) κ) : Prop :=
  ∀ env n state, ∃ x state', Stateful.ending (k env n) state = (.ok x, state')

/-- Only an interrupt among the ways keeps a search over them from its end, if every way is
answered. -/
lemma ending_findSomeM? {σ α β : Type} {f : α → Stateful σ (Option β)}
    (hf : ∀ a state, ∃ b state', (f a).ending state = (.ok b, state'))
    (ways : List (Except Interrupt α)) (state : σ) :
    (∃ b state', Stateful.ending (ways.findSomeM? (attempt f)) state = (.ok b, state')) ∨
      ∃ interrupt state', .error interrupt ∈ ways ∧
        Stateful.ending (ways.findSomeM? (attempt f)) state = (.error interrupt, state') := by
  induction ways generalizing state with
  | nil => exact .inl ⟨none, state, rfl⟩
  | cons way ways ih =>
    cases way with
    | error interrupt =>
      rw [findSomeM?_error]
      exact .inr ⟨interrupt, state, List.mem_cons_self, rfl⟩
    | ok a =>
      obtain ⟨b, state', hb⟩ := hf a state
      rw [List.findSomeM?_cons, Stateful.ending_bind, attempt_ok, hb]
      cases b with
      | some b => exact .inl ⟨some b, state', rfl⟩
      | none =>
        refine (ih state').imp_right ?_
        rintro ⟨interrupt, state₂, hmem, hending⟩
        exact ⟨interrupt, state₂, List.mem_cons_of_mem _ hmem, hending⟩

section

variable {σ κ : Type} [Answer κ] {matcher : Matcher}
  (hbuilt : matcher.builtFrom MatcherKind.all = true) {input : Input} {env : Environment}
  (hconcrete : Concrete input.items env) {k : Continuation (Stateful σ) κ} (hk : k.Answers)
  (state : σ)
include hbuilt hconcrete hk

/-- A search ends with a verdict for every continuation that always answers, or is cut off at a
limit of the stack. -/
theorem Matcher.ending_or_cut_off {stack : Option Nat} :
    (∃ verdict state',
      Stateful.ending (matcher.searchFrom stack input env k) state = (.ok verdict, state')) ∨
      ∃ limit state', stack = some limit ∧
        Stateful.ending (matcher.searchFrom stack input env k) state =
          (.error .stackExhausted, state') := by
  have haccepted : ∀ way state, ∃ b state',
      Stateful.ending ((fun way : Environment × Nat => accepted? <$> k way.1 way.2) way) state =
        (.ok b, state') := by
    intro way state
    obtain ⟨x, state', hx⟩ := hk way.1 way.2 state
    refine ⟨accepted? x, state', ?_⟩
    rw [Stateful.ending_map, hx]
    rfl
  have hends := ending_findSomeM? haccepted (matcher.waysFrom stack input.items env) state
  rw [← Matcher.tries_searchFrom stack matcher input env k, Stateful.ending_map] at hends
  rcases hsearch : Stateful.ending (matcher.searchFrom stack input env k) state with
    ⟨interrupt | verdict, state'⟩
  · rw [hsearch] at hends
    rcases hends with ⟨b, state₂, heq⟩ | ⟨interrupt', state₂, hmem, heq⟩
    · cases heq
    · cases heq
      cases stack with
      | none => exact absurd hmem (Matcher.uninterrupted_waysFrom hbuilt hconcrete)
      | some limit =>
        have hexhausted : interrupt = .stackExhausted := by
          by_contra hother
          exact Matcher.error_notMem_waysFrom hbuilt hconcrete (.inr hother) hmem
        exact .inr ⟨limit, state', rfl, by rw [hexhausted]⟩
  · exact .inl ⟨verdict, state', rfl⟩

/-- Without a limit on the stack no search is cut off. -/
theorem Matcher.exists_ending_searchFrom : ∃ verdict state',
    Stateful.ending (matcher.searchFrom none input env k) state = (.ok verdict, state') := by
  rcases Matcher.ending_or_cut_off hbuilt hconcrete hk state with hends | ⟨limit, -, hstack, -⟩
  · exact hends
  · cases hstack

end

/-! ### Data that come to an outcome -/

lemma Matcher.exists_kind?_of_builtFrom {kinds : List MatcherKind} {matcher : Matcher}
    (h : matcher.builtFrom kinds = true) : ∃ kind, matcher.kind? = some kind := by
  cases matcher with
  | abstract => cases h
  | _ => exact ⟨_, rfl⟩

/-- Whatever the limit on the stack, a datum comes to an outcome. -/
theorem Matcher.exists_outcome_of_builtFrom {matcher : Matcher}
    (hbuilt : matcher.builtFrom MatcherKind.all = true) {limits : Limits} {datum : Value}
    (hconcrete : Concrete [datum] (.empty limits.maxDepth)) :
    ∃ outcome, matcher.outcome limits datum = .ok outcome := by
  cases hstart : matcher.start (m := Except Interrupt) limits datum Success.keep with
  | ok verdict => exact ⟨_, outcome_of_start hstart⟩
  | error interrupt =>
    obtain ⟨others, hways⟩ := start_eq_error_iff.mp hstart
    cases interrupt with
    | stackExhausted =>
      obtain ⟨kind, hkind⟩ := exists_kind?_of_builtFrom hbuilt
      refine ⟨.failure (.report kind .depthExceeded datum 0 none), ?_⟩
      rw [outcome_of_interrupt hstart, Interrupt.failure?, hkind]
      rfl
    | unimplemented =>
      have hnot : .error .unimplemented ∉ matcher.waysOf limits datum :=
        error_notMem_waysFrom hbuilt hconcrete (.inr nofun)
      exact absurd (hways ▸ List.mem_cons_self) hnot

/-! ### Rules that the stack has no room for -/

section

variable (names : Nat → Text) (limit : Nat) (items : List Value)

/-- Rules that begin with references to the next ones fill the stack, if the ceiling is above
that. -/
lemma exists_waysFrom_cut_off {env : Environment}
    (hrules : ∀ i ≤ limit, ∃ alternatives,
      env.matcher? (names i) = some (.choice (.reference (names (i + 1)) :: alternatives)))
    (hceiling : limit < env.maxDepth) {i : Nat} (hdepth : env.depth = i) (hi : i ≤ limit) :
    ∃ others, (Matcher.reference (names i)).waysFrom (some limit) items env =
      .error .stackExhausted :: others := by
  obtain ⟨left, hleft⟩ := Nat.le.dest hi
  have hexhausted : env.exhausted = false := decide_eq_false (by omega)
  obtain ⟨alternatives, hrule⟩ := hrules i hi
  induction left generalizing env i alternatives with
  | zero =>
    have hstack : (limit : Int) ≤ env.depth := by omega
    rw [Matcher.waysFrom_reference, hrule, hexhausted]
    simp [hstack]
  | succ left ih =>
    have hstack : ∀ limit' ∈ some limit, env.depth < (limit' : Int) := by
      rintro _ ⟨⟩
      omega
    have hdeeper : env.descend.depth = (i + 1 : Nat) := by
      simp only [Environment.descend]
      omega
    have hexhausted' : env.descend.exhausted = false :=
      decide_eq_false (by simp only [Environment.descend]; omega)
    obtain ⟨alternatives', hrule'⟩ := hrules (i + 1) (by omega)
    have hrules' : ∀ i ≤ limit, ∃ alternatives, env.descend.matcher? (names i) =
        some (.choice (.reference (names (i + 1)) :: alternatives)) := hrules
    obtain ⟨others, hothers⟩ :=
      ih hrules' hceiling hdeeper (by omega) (by omega) hexhausted' alternatives' hrule'
    rw [Matcher.waysFrom_reference, hrule, hexhausted]
    dsimp only
    rw [any_stack_eq_false_iff.mpr hstack, Matcher.waysFrom_choice, List.flatMap_cons, hothers]
    exact ⟨_, rfl⟩

/-- The same for the rules of a letrec whose body begins with the first one. -/
lemma Matcher.exists_waysFrom_letrec_cut_off (rules : List (Value × Matcher))
    (hrules : ∀ i ≤ limit, ∃ alternatives,
      grammarOf rules (names i) = some (.choice (.reference (names (i + 1)) :: alternatives)))
    {maxDepth : Int} (hceiling : limit < maxDepth) :
    ∃ others, (Matcher.letrec rules (.reference (names 0))).waysFrom (some limit) items
      (.empty maxDepth) = .error .stackExhausted :: others := by
  have hmatcher (name : Text) :
      ((Environment.empty maxDepth).define (namedRules rules)).matcher? name =
        grammarOf rules name := by
    rw [Environment.matcher?_of_unbound rfl]
    exact (Environment.ready_define rules maxDepth).rules name
  have hrules' : ∀ i ≤ limit, ∃ alternatives,
      ((Environment.empty maxDepth).define (namedRules rules)).matcher? (names i) =
        some (.choice (.reference (names (i + 1)) :: alternatives)) := by
    intro i hi
    rw [hmatcher]
    exact hrules i hi
  obtain ⟨others, hothers⟩ :=
    exists_waysFrom_cut_off names limit items hrules' hceiling rfl (Nat.zero_le limit)
  rw [waysFrom_letrec, hothers]
  exact ⟨_, rfl⟩

end

/-- A search ends with an interrupt that comes first among the ways, whatever the continuation. -/
lemma Matcher.ending_of_error {σ κ : Type} [Answer κ] {stack : Option Nat} {matcher : Matcher}
    {input : Input} {env : Environment} {interrupt : Interrupt} {others : List Way}
    (h : matcher.waysFrom stack input.items env = .error interrupt :: others)
    (k : Continuation (Stateful σ) κ) (state : σ) :
    Stateful.ending (matcher.searchFrom stack input env k) state = (.error interrupt, state) := by
  have htries := Matcher.tries_searchFrom stack matcher input env k
  rw [h, findSomeM?_error] at htries
  have hending := congrArg (fun x => Stateful.ending x state) htries
  rw [Stateful.ending_map] at hending
  obtain ⟨hanswer, hstate⟩ := Prod.mk.inj hending
  refine Prod.ext ?_ hstate
  cases hverdict : (Stateful.ending (matcher.searchFrom stack input env k) state).1 with
  | error interrupt' =>
    rw [hverdict] at hanswer
    cases hanswer
    rfl
  | ok verdict => rw [hverdict] at hanswer; cases hanswer

end Motif
