import Motif.Search
import Mathlib.Tactic.Common

/-!
# Ways to match

The ways in which a matcher can match at the head of a list, in the order in which a search tries
them. A way is the environment after the match and the number of items used; no continuation plays
a part in it.

Some searches are interrupted from within: a matcher without a search of its own was run, or too
many references are open for the stack. The interrupt then stands among the ways, where the search
meets it. Other matchers have no interrupts among their ways.
-/

namespace Motif

variable {H : Predicates}

/-- A way to match, given by the environment afterwards and the number of items used, or what
interrupts the search in its place. -/
abbrev Way := Except Interrupt (Environment × Nat)

/-- A way after which the environment is put in order by `restore`. -/
def Way.leave (restore : Environment → Environment) : Way → Way :=
  Except.map fun (env, n) => (restore env, n)

/-- Every one of some ways followed by what comes `next`. After an interrupt nothing comes. -/
def followed {α : Type} (ways : List Way) (next : Environment → Nat → List (Except Interrupt α)) :
    List (Except Interrupt α) :=
  ways.flatMap fun
    | .error interrupt => [.error interrupt]
    | .ok (env, n) => next env n

lemma Way.ok_mem_map_ok {ways : List (Environment × Nat)} {way : Environment × Nat} :
    (.ok way : Way) ∈ ways.map .ok ↔ way ∈ ways := by
  simp only [List.mem_map, Except.ok.injEq, exists_eq_right]

lemma Way.ok_mem_map_leave {restore : Environment → Environment} {ways : List Way}
    {env : Environment} {n : Nat} : .ok (env, n) ∈ ways.map (leave restore) ↔
      ∃ env', .ok (env', n) ∈ ways ∧ restore env' = env := by
  simp only [List.mem_map]
  constructor
  · rintro ⟨interrupt | ⟨env', n'⟩, hway, heq⟩
    · cases heq
    · cases heq
      exact ⟨env', hway, rfl⟩
  · rintro ⟨env', hway, rfl⟩
    exact ⟨_, hway, rfl⟩

lemma ok_mem_followed {α : Type} {ways : List Way}
    {next : Environment → Nat → List (Except Interrupt α)} {a : α} :
    .ok a ∈ followed ways next ↔ ∃ env n, .ok (env, n) ∈ ways ∧ .ok a ∈ next env n := by
  simp only [followed, List.mem_flatMap]
  constructor
  · rintro ⟨interrupt | ⟨env, n⟩, hway, ha⟩
    · simp at ha
    · exact ⟨env, n, hway, ha⟩
  · rintro ⟨env, n, hway, ha⟩
    exact ⟨_, hway, ha⟩

/-! ### Runs of items and single items -/

/-- One item that equals `value`. -/
def constantWays (value : Value) : List Value → Environment → List (Environment × Nat)
  | [], _ => []
  | item :: _, env => if item.equal value then [(env, 1)] else []

/-- One item that a variable is bound to, or that equals what it is bound to already. -/
def elementWays [Predicates] (name : Text) (only : Option Restriction) :
    List Value → Environment → List (Environment × Nat)
  | [], _ => []
  | item :: _, env =>
    if allowed only item then
      match env.get? name with
      | none => [(env.extend name item, 1)]
      | some bound => if bound.equal item then [(env, 1)] else []
    else []

/-- Whether the items of a bound segment stand at the head of a list again, each allowed. -/
def replays [Predicates] (only : Option Restriction) : (expected items : List Value) → Bool
  | [], _ => true
  | _ :: _, [] => false
  | v :: expected, item :: items => item.equal v && allowed only item && replays only expected items

/-- Runs of every length up to the first item that is not allowed, or the run that a bound segment
must see again. -/
def segmentWays [Predicates] (name : Text) (only : Option Restriction) (items : List Value)
    (env : Environment) : List (Environment × Nat) :=
  match env.get? name with
  | none => (segmentLengths only items).map fun n => (env.extend name (.list (items.take n)), n)
  | some (.seq _ (first :: others)) =>
    if replays only (first :: others) items then [(env, others.length + 1)] else []
  | some _ => []

/-- Runs of every length. -/
def restWays (items : List Value) (env : Environment) : List (Environment × Nat) :=
  (List.range (items.length + 1)).map fun n => (env, n)

/-! ### What a way says -/

section

variable {name : Text} {only : Option Restriction} {items : List Value} {env env' : Environment}
  {n : Nat}

lemma mem_constantWays {value : Value} : (env', n) ∈ constantWays value items env ↔
    ∃ item others, items = item :: others ∧ item.equal value = true ∧ env' = env ∧ n = 1 := by
  cases items with
  | nil => simp [constantWays]
  | cons item others => cases h : item.equal value <;> simp [constantWays, h]

/-- A variable is bound to the item, or was bound to what equals it. -/
lemma mem_elementWays : (env', n) ∈ elementWays name only items env ↔
    ∃ item others, items = item :: others ∧ allowed only item = true ∧ n = 1 ∧
      (env.get? name = none ∧ env' = env.extend name item ∨
        ∃ bound, env.get? name = some bound ∧ bound.equal item = true ∧ env' = env) := by
  cases items with
  | nil => simp [elementWays]
  | cons item others =>
    cases hallowed : allowed only item with
    | false => simp [elementWays, hallowed]
    | true =>
      cases hname : env.get? name with
      | none => simp [elementWays, hallowed, hname, and_comm]
      | some bound =>
        cases h : bound.equal item <;> simp [elementWays, hallowed, hname, h, and_comm]

/-- An unbound segment takes items as long as they are allowed, and at least one. -/
lemma mem_segmentLengths : n ∈ segmentLengths only items ↔
    0 < n ∧ n ≤ items.length ∧ ∀ item ∈ items.take n, allowed only item = true := by
  have hmem : n ∈ segmentLengths only items ↔
      0 < n ∧ n ≤ (items.takeWhile (allowed only)).length := by
    simp only [segmentLengths, List.mem_map, List.mem_range]
    constructor
    · rintro ⟨m, hm, rfl⟩
      omega
    · rintro ⟨hpos, hle⟩
      exact ⟨n - 1, by omega, by omega⟩
  rw [hmem]
  have hwhole := List.takeWhile_prefix (l := items) (allowed only)
  constructor
  · rintro ⟨hpos, hle⟩
    have htake : items.take n <+: items.takeWhile (allowed only) :=
      List.prefix_of_prefix_length_le (List.take_prefix n items) hwhole
        (Nat.le_trans (List.length_take_le n items) hle)
    exact ⟨hpos, Nat.le_trans hle hwhole.length_le, fun item hitem =>
      List.all_eq_true.mp List.all_takeWhile item (htake.subset hitem)⟩
  · rintro ⟨hpos, hle, hall⟩
    refine ⟨hpos, ?_⟩
    rw [← List.take_append_drop n items, List.takeWhile_append_of_pos hall, List.length_append,
      List.length_take_of_le hle]
    exact Nat.le_add_right _ _

lemma take_ne_nil_of_mem_segmentLengths (h : n ∈ segmentLengths only items) :
    items.take n ≠ [] := by
  obtain ⟨hpos, hlength, -⟩ := mem_segmentLengths.mp h
  rw [← List.length_pos_iff, List.length_take_of_le hlength]
  exact hpos

/-- A segment is bound to a run of its own, or sees the list that it was bound to again. -/
lemma mem_segmentWays : (env', n) ∈ segmentWays name only items env ↔
    (env.get? name = none ∧ n ∈ segmentLengths only items ∧
        env' = env.extend name (.list (items.take n))) ∨
      ∃ shape vs, env.get? name = some (.seq shape vs) ∧ vs ≠ [] ∧ replays only vs items = true ∧
        env' = env ∧ n = vs.length := by
  unfold segmentWays
  cases hname : env.get? name with
  | none =>
    simp only [List.mem_map, Prod.mk.injEq, true_and, reduceCtorEq, false_and, exists_false,
      or_false]
    constructor
    · rintro ⟨k, hk, rfl, rfl⟩
      exact ⟨hk, rfl⟩
    · rintro ⟨hn, rfl⟩
      exact ⟨n, hn, rfl, rfl⟩
  | some bound =>
    cases bound with
    | seq shape vs =>
      cases vs with
      | nil => simp
      | cons first others => cases h : replays only (first :: others) items <;> simp [h]
    | _ => simp

/-- A segment is never empty. -/
lemma segmentWays_nil (name : Text) (only : Option Restriction) (env : Environment) :
    segmentWays name only [] env = [] := by
  unfold segmentWays
  split <;> simp [segmentLengths, replays]

lemma mem_restWays : (env', n) ∈ restWays items env ↔ env' = env ∧ n ≤ items.length := by
  simp only [restWays, List.mem_map, List.mem_range, Prod.mk.injEq, Nat.lt_succ_iff]
  constructor
  · rintro ⟨k, hk, rfl, rfl⟩
    exact ⟨rfl, hk⟩
  · rintro ⟨rfl, hn⟩
    exact ⟨n, hn, rfl, rfl⟩

end

/-! ### All matchers -/

mutual

/-- The ways of a matcher, where a reference to a rule has the ways that `call` says. -/
def Matcher.ways [Predicates] (call : Text → List Value → Environment → List Way) :
    Matcher → List Value → Environment → List Way
  | .constant value, items, env => (constantWays value items env).map .ok
  | .element name only, items, env => (elementWays name only items env).map .ok
  | .segment name only, items, env => (segmentWays name only items env).map .ok
  | .segmentExact name only, items, env =>
    ((segmentWays name only items env).filter fun way => way.2 = items.length).map .ok
  | .rest, items, env => (restWays items env).map .ok
  | .array elements, items, env =>
    match items with
    | .seq _ inner :: _ =>
      (sequenceWays call elements inner env).map (Except.map fun env' => (env', 1))
    | _ => []
  | .choice alternatives, items, env => alternativeWays call alternatives items env
  | .reference name, items, env => call name items env
  | .letrec rules body, items, env =>
    (body.ways call items (env.define (namedRules rules))).map (Way.leave (·.scopedTo env))
  | .abstract _, _, _ => [.error .unimplemented]

/-- The environments after matchers that use up a list one after the other. -/
def sequenceWays [Predicates] (call : Text → List Value → Environment → List Way) :
    List Matcher → List Value → Environment → List (Except Interrupt Environment)
  | [], items, env => if items.isEmpty then [.ok env] else []
  | element :: elements, items, env =>
    followed (element.ways call items env) fun env' n =>
      sequenceWays call elements (items.drop n) env'

/-- The ways of all alternatives in order. -/
def alternativeWays [Predicates] (call : Text → List Value → Environment → List Way) :
    List Matcher → List Value → Environment → List Way
  | [], _, _ => []
  | alternative :: alternatives, items, env =>
    alternative.ways call items env ++ alternativeWays call alternatives items env

end

section Call

variable {call : Text → List Value → Environment → List Way} {items : List Value}
  {env env' : Environment} {n : Nat}

/-- An array matches one item, whose contents its elements use up. -/
lemma Matcher.ok_mem_ways_array {elements : List Matcher} :
    .ok (env', n) ∈ (Matcher.array elements).ways call items env ↔
      ∃ shape inner others, items = .seq shape inner :: others ∧ n = 1 ∧
        .ok env' ∈ sequenceWays call elements inner env := by
  constructor
  · intro hway
    unfold Matcher.ways at hway
    split at hway
    · rename_i shape inner others
      obtain ⟨interrupt | env'', hinner, heq⟩ := List.mem_map.mp hway
      · cases heq
      · cases heq
        exact ⟨shape, inner, others, rfl, rfl, hinner⟩
    · simp at hway
  · rintro ⟨shape, inner, others, rfl, rfl, hinner⟩
    exact List.mem_map.mpr ⟨_, hinner, rfl⟩

lemma mem_alternativeWays {alternatives : List Matcher} {way : Way} :
    way ∈ alternativeWays call alternatives items env ↔
      ∃ alternative ∈ alternatives, way ∈ alternative.ways call items env := by
  induction alternatives with
  | nil => simp [alternativeWays]
  | cons alternative alternatives ih => simp [alternativeWays, ih]

end Call

/-- The ways of a reference with at most `room` references left to open: those of the rule one level
deeper, with the depth put back. -/
def callWays [Predicates] (stack : Option Nat) : (room : Nat) → Text → List Value → Environment →
    List Way
  | room, name, items, env =>
    match env.matcher? name with
    | none => []
    | some target =>
      match room with
      | 0 => []
      | room + 1 =>
        if env.exhausted then []
        else if stack.any fun limit => (limit : Int) ≤ env.depth then [.error .stackExhausted]
        else
          (target.ways (callWays stack room) items env.descend).map
            (Way.leave (·.atDepth env.depth))

/-- The ways of a matcher from an environment. -/
def Matcher.waysFrom [Predicates] (stack : Option Nat) (matcher : Matcher) (items : List Value)
    (env : Environment) : List Way :=
  matcher.ways (callWays stack env.room) items env

lemma Environment.room_descend (env : Environment) : env.descend.room = env.room - 1 := by
  simp only [Environment.room, Environment.descend]
  omega

/-- The room that is counted down is that of the environment: a reference has the ways of its target
from one level deeper. -/
lemma Matcher.waysFrom_reference (stack : Option Nat) (name : Text) (items : List Value)
    (env : Environment) :
    (Matcher.reference name).waysFrom stack items env =
      match env.matcher? name with
      | none => []
      | some target =>
        if env.exhausted then []
        else if stack.any fun limit => (limit : Int) ≤ env.depth then [.error .stackExhausted]
        else (target.waysFrom stack items env.descend).map (Way.leave (·.atDepth env.depth)) := by
  simp only [Matcher.waysFrom, Matcher.ways, Environment.room_descend]
  cases hroom : env.room with
  | zero =>
    have hexhausted := env.exhausted_iff_room.mpr hroom
    cases h : env.matcher? name <;> simp [callWays, h, hexhausted]
  | succ room => cases h : env.matcher? name <;> simp [callWays, h]

section

variable {stack : Option Nat}

lemma any_stack_eq_false_iff {depth : Int} :
    (stack.any fun limit => (limit : Int) ≤ depth) = false ↔
      ∀ limit ∈ stack, depth < (limit : Int) := by
  cases stack <;> simp

namespace Matcher

lemma waysFrom_choice (alternatives : List Matcher) (items : List Value) (env : Environment) :
    (Matcher.choice alternatives).waysFrom stack items env =
      alternatives.flatMap fun alternative => alternative.waysFrom stack items env := by
  rw [waysFrom, ways]
  induction alternatives with
  | nil => rfl
  | cons alternative alternatives ih => rw [alternativeWays, ih, List.flatMap_cons, waysFrom]

lemma waysFrom_letrec (rules : List (Value × Matcher)) (body : Matcher) (items : List Value)
    (env : Environment) : (Matcher.letrec rules body).waysFrom stack items env =
      (body.waysFrom stack items (env.define (namedRules rules))).map
        (Way.leave (·.scopedTo env)) := rfl

end Matcher

end

end Motif
