import Motif.Proofs.Instance
import Mathlib

/-!
# The shortest attempt

A pattern without choices and rules leaves open how many items its segments and its filler take, and
nothing else. An attempt is described by these lengths, in the order of the pattern. No search plays
a part in it: given the lengths, every element of the pattern is where it is, and matches there or
does not.

The search goes through the attempts that match in lexicographic order of their lengths. So what it
comes back with belongs to the least of them.
-/

namespace Motif

section

variable {H : Predicates}

/-! ### Attempts -/

mutual

/-- A pattern matches at the head of `items` with segments and filler of the given lengths, and uses
the given number of items. Only what is not bound yet has a length to be chosen. -/
inductive Attempt [Predicates] : Matcher → (lengths : List Nat) → (items : List Value) →
    (env env' : Environment) → (used : Nat) → Prop where
  | constant {value item : Value} {others : List Value} {env : Environment}
    (h : item.equal value = true) : Attempt (.constant value) [] (item :: others) env env 1
  | element {name : Text} {only : Option Restriction} {item : Value} {others : List Value}
    {env : Environment} (hname : env.get? name = none) (hallowed : allowed only item = true) :
    Attempt (.element name only) [] (item :: others) env (env.extend name item) 1
  | elementAgain {name : Text} {only : Option Restriction} {item bound : Value}
    {others : List Value} {env : Environment} (hname : env.get? name = some bound)
    (h : bound.equal item = true) (hallowed : allowed only item = true) :
    Attempt (.element name only) [] (item :: others) env env 1
  | segment {name : Text} {only : Option Restriction} {items : List Value} {env : Environment}
    {n : Nat} (hname : env.get? name = none) (hpos : 0 < n) (hn : n ≤ items.length)
    (hallowed : ∀ item ∈ items.take n, allowed only item = true) :
    Attempt (.segment name only) [n] items env (env.extend name (.list (items.take n))) n
  | segmentAgain {name : Text} {only : Option Restriction} {items vs : List Value} {shape : Shape}
    {env : Environment} (hname : env.get? name = some (.seq shape vs)) (hvs : vs ≠ [])
    (h : Repeats only (items.take vs.length) vs) :
    Attempt (.segment name only) [] items env env vs.length
  | segmentExact {name : Text} {only : Option Restriction} {lengths : List Nat}
    {items : List Value} {env env' : Environment} {n : Nat}
    (h : Attempt (.segment name only) lengths items env env' n) (hn : n = items.length) :
    Attempt (.segmentExact name only) lengths items env env' n
  | rest {items : List Value} {env : Environment} {n : Nat} (hn : n ≤ items.length) :
    Attempt .rest [n] items env env n
  | array {elements : List Matcher} {lengths : List Nat} {shape : Shape}
    {inner others : List Value} {env env' : Environment}
    (h : Attempts elements lengths inner env env') :
    Attempt (.array elements) lengths (.seq shape inner :: others) env env' 1

/-- Patterns one after the other match all of `items`, with segments and filler of the given
lengths. -/
inductive Attempts [Predicates] : List Matcher → (lengths : List Nat) → (items : List Value) →
    (env env' : Environment) → Prop where
  | nil {env : Environment} : Attempts [] [] [] env env
  | cons {element : Matcher} {elements : List Matcher} {lengths lengths' : List Nat}
    {items : List Value} {env env' env'' : Environment} {n : Nat}
    (h : Attempt element lengths items env env' n)
    (hrest : Attempts elements lengths' (items.drop n) env' env'') :
    Attempts (element :: elements) (lengths ++ lengths') items env env''

end

/-! ### The order of attempts -/

/-- The first difference between two attempts is a length that is less in the one than in the
other. -/
inductive Before : List Nat → List Nat → Prop where
  | head {m n : Nat} {v w : List Nat} (h : m < n) : Before (m :: v) (n :: w)
  | tail {n : Nat} {v w : List Nat} (h : Before v w) : Before (n :: v) (n :: w)

namespace Before

variable {v w : List Nat}

/-- Whatever comes after the first difference plays no part. -/
lemma append (h : Before v w) (v' w' : List Nat) : Before (v ++ v') (w ++ w') := by
  induction h with
  | head h => exact .head h
  | tail _ ih => exact .tail ih

lemma append_left (u : List Nat) (h : Before v w) : Before (u ++ v) (u ++ w) := by
  induction u with
  | nil => exact h
  | cons n u ih => exact .tail ih

lemma lt (h : Before v w) : v < w := by
  induction h with
  | head h => exact .rel h
  | tail _ ih => exact .cons ih

lemma ne (h : Before v w) : v ≠ w := by
  induction h with
  | head h => exact fun heq => Nat.ne_of_lt h (List.cons.inj heq).1
  | tail _ ih => exact fun heq => ih (List.cons.inj heq).2

end Before

/-! ### Ways in order -/

/-- Ways are in the order of the lengths for which they stand, and are all that there are. -/
def Listed {α : Type} (ways : List (Except Interrupt α)) (stands : List Nat → α → Prop) : Prop :=
  ∃ attempts : List (List Nat × α), ways = attempts.map (fun a => .ok a.2) ∧
    attempts.Pairwise (fun a b => Before a.1 b.1) ∧
    ∀ lengths a, (lengths, a) ∈ attempts ↔ stands lengths a

section Listed

variable {α β : Type} {ways : List (Except Interrupt α)} {stands : List Nat → α → Prop}

lemma listed_nil (h : ∀ lengths a, ¬ stands lengths a) : Listed [] stands :=
  ⟨[], rfl, .nil, fun lengths a => ⟨nofun, fun ha => absurd ha (h lengths a)⟩⟩

/-- At most one way, without a length to be chosen. -/
lemma listed_of_length_le {ways : List α} (hlength : ways.length ≤ 1)
    (h : ∀ lengths a, stands lengths a ↔ lengths = [] ∧ a ∈ ways) :
    Listed (ways.map .ok) stands := by
  refine ⟨ways.map fun a => ([], a), by simp, ?_, fun lengths a => ?_⟩
  · cases ways with
    | nil => exact .nil
    | cons a others =>
      obtain rfl : others = [] := List.length_eq_zero_iff.mp (by simpa using hlength)
      exact List.pairwise_singleton _ _
  · rw [h, List.mem_map]
    constructor
    · rintro ⟨b, hb, ⟨⟩⟩
      exact ⟨rfl, hb⟩
    · rintro ⟨rfl, ha⟩
      exact ⟨a, ha, rfl⟩

/-- Of lengths in increasing order each stands for one way. -/
lemma listed_map {ns : List Nat} (hns : ns.Pairwise (· < ·)) (way : Nat → α)
    (h : ∀ lengths b, stands lengths b ↔ ∃ n ∈ ns, lengths = [n] ∧ b = way n) :
    Listed (ns.map fun n => .ok (way n)) stands := by
  refine ⟨ns.map fun n => ([n], way n), by simp, ?_, fun lengths b => ?_⟩
  · exact List.pairwise_map.mpr (hns.imp .head)
  · rw [h, List.mem_map]
    simp only [Prod.mk.injEq, eq_comm]

lemma Listed.map {stands' : List Nat → β → Prop} (h : Listed ways stands) (g : α → β)
    (hg : ∀ lengths b, stands' lengths b ↔ ∃ a, stands lengths a ∧ b = g a) :
    Listed (ways.map (Except.map g)) stands' := by
  obtain ⟨attempts, rfl, hordered, hmem⟩ := h
  refine ⟨attempts.map fun a => (a.1, g a.2), by simp [Except.map], ?_, fun lengths b => ?_⟩
  · exact List.pairwise_map.mpr hordered
  · rw [hg, List.mem_map]
    constructor
    · rintro ⟨a, ha, ⟨⟩⟩
      exact ⟨a.2, (hmem _ _).mp ha, rfl⟩
    · rintro ⟨a, ha, rfl⟩
      exact ⟨_, (hmem _ _).mpr ha, rfl⟩

lemma Listed.filter {ways : List α} {stands' : List Nat → α → Prop}
    (h : Listed (ways.map .ok) stands) (p : α → Bool)
    (hp : ∀ lengths a, stands' lengths a ↔ stands lengths a ∧ p a = true) :
    Listed ((ways.filter p).map .ok) stands' := by
  obtain ⟨attempts, hways, hordered, hmem⟩ := h
  refine ⟨attempts.filter fun a => p a.2, ?_, hordered.filter _, fun lengths a => ?_⟩
  · have hways' : ways = attempts.map Prod.snd := by
      have hinj := congrArg (List.filterMap Except.toOption) hways
      simpa [List.filterMap_map, Function.comp_def, Except.toOption] using hinj
    rw [hways', List.filter_map, List.map_map]
    rfl
  · rw [hp, ← hmem, List.mem_filter]

/-- What follows on each way in order is in order as well. -/
lemma Listed.followed {ways : List Way} {stands : List Nat → Environment × Nat → Prop}
    {next : Environment → Nat → List (Except Interrupt α)}
    {next' : Environment → Nat → List Nat → α → Prop} {stands' : List Nat → α → Prop}
    (h : Listed ways stands) (hnext : ∀ env n, Listed (next env n) (next' env n))
    (hstands : ∀ lengths a, stands' lengths a ↔ ∃ v w env n, lengths = v ++ w ∧
      stands v (env, n) ∧ next' env n w a) :
    Listed (followed ways next) stands' := by
  obtain ⟨attempts, rfl, hordered, hmem⟩ := h
  choose others hothers hordered' hmem' using hnext
  refine ⟨attempts.flatMap fun a =>
    (others a.2.1 a.2.2).map fun b => (a.1 ++ b.1, b.2), ?_, ?_, fun lengths b => ?_⟩
  · rw [Motif.followed, List.flatMap_map, List.map_flatMap]
    congr 1
    funext a
    change next a.2.1 a.2.2 = _
    rw [hothers, List.map_map]
    rfl
  · refine List.pairwise_flatMap.mpr ⟨fun a _ => ?_, hordered.imp fun {a a'} hbefore => ?_⟩
    · exact List.pairwise_map.mpr ((hordered' _ _).imp (Before.append_left a.1))
    · simp only [List.mem_map]
      rintro _ ⟨b, -, rfl⟩ _ ⟨b', -, rfl⟩
      exact hbefore.append _ _
  · rw [hstands, List.mem_flatMap]
    constructor
    · rintro ⟨⟨v, env, n⟩, ha, hb⟩
      obtain ⟨⟨w, b'⟩, hb', ⟨⟩⟩ := List.mem_map.mp hb
      exact ⟨v, w, env, n, rfl, (hmem _ _).mp ha, (hmem' _ _ _ _).mp hb'⟩
    · rintro ⟨v, w, env, n, rfl, hv, hw⟩
      exact ⟨(v, env, n), (hmem _ _).mpr hv,
        List.mem_map.mpr ⟨(w, b), (hmem' _ _ _ _).mpr hw, rfl⟩⟩

/-- Lengths stand for one way at most. -/
lemma Listed.eq_of_stands (h : Listed ways stands) {lengths : List Nat} {a b : α}
    (ha : stands lengths a) (hb : stands lengths b) : a = b := by
  obtain ⟨attempts, -, hordered, hmem⟩ := h
  have hsame : attempts.Pairwise fun a b => a.1 = b.1 → a = b :=
    hordered.imp fun hbefore heq => absurd heq hbefore.ne
  have hsymm : Std.Symm fun a b : List Nat × α => a.1 = b.1 → a = b :=
    ⟨fun _ _ h heq => (h heq.symm).symm⟩
  have heq : (lengths, a) = (lengths, b) :=
    hsame.forall_of_forall (fun _ _ _ => rfl) ((hmem _ _).mpr ha) ((hmem _ _).mpr hb) rfl
  exact (Prod.mk.inj heq).2

/-- The first way stands for the least lengths, and there is none only if no lengths stand for
any. -/
lemma Listed.first (h : Listed ways stands) :
    ways = [] ∧ (∀ lengths a, ¬ stands lengths a) ∨
      ∃ a others lengths, ways = .ok a :: others ∧ stands lengths a ∧
        ∀ lengths' b, stands lengths' b → lengths ≤ lengths' := by
  obtain ⟨attempts, rfl, hordered, hmem⟩ := h
  cases attempts with
  | nil => exact .inl ⟨rfl, fun lengths a ha => nomatch (hmem _ _).mpr ha⟩
  | cons attempt attempts =>
    obtain ⟨lengths, a⟩ := attempt
    refine .inr ⟨a, _, lengths, rfl, (hmem _ _).mp List.mem_cons_self, fun lengths' b hb => ?_⟩
    rcases List.mem_cons.mp ((hmem _ _).mpr hb) with heq | hb
    · exact le_of_eq (Prod.mk.inj heq).1.symm
    · exact le_of_lt ((List.pairwise_cons.mp hordered).1 _ hb).lt

end Listed

/-! ### Single items and runs -/

lemma replays_iff {only : Option Restriction} {vs items : List Value} :
    replays only vs items = true ↔ Repeats only (items.take vs.length) vs := by
  refine ⟨repeats_of_replays, fun h => ?_⟩
  induction vs generalizing items with
  | nil => rfl
  | cons v vs ih =>
    cases items with
    | nil => cases h
    | cons item items =>
      obtain ⟨hitem, hitems⟩ := List.forall₂_cons.mp h
      simp only [replays, hitem.1, hitem.2, Bool.true_and]
      exact ih hitems

section

variable (name : Text) (only : Option Restriction) (items : List Value) (env : Environment)

lemma listed_constant (value : Value) : Listed ((constantWays value items env).map .ok)
    fun lengths way => Attempt (.constant value) lengths items env way.1 way.2 := by
  refine listed_of_length_le ?_ fun lengths way => ?_
  · unfold constantWays
    split
    · exact Nat.zero_le 1
    · split <;> simp
  · obtain ⟨env', n⟩ := way
    rw [mem_constantWays]
    constructor
    · rintro ⟨h⟩
      exact ⟨rfl, _, _, rfl, h, rfl, rfl⟩
    · rintro ⟨rfl, item, others, rfl, h, rfl, rfl⟩
      exact .constant h

lemma listed_element : Listed ((elementWays name only items env).map .ok)
    fun lengths way => Attempt (.element name only) lengths items env way.1 way.2 := by
  refine listed_of_length_le ?_ fun lengths way => ?_
  · unfold elementWays
    split
    · exact Nat.zero_le 1
    · split
      · split
        · simp
        · split <;> simp
      · simp
  · obtain ⟨env', n⟩ := way
    rw [mem_elementWays]
    constructor
    · intro h
      cases h with
      | element hname hallowed => exact ⟨rfl, _, _, rfl, hallowed, rfl, .inl ⟨hname, rfl⟩⟩
      | elementAgain hname h hallowed =>
        exact ⟨rfl, _, _, rfl, hallowed, rfl, .inr ⟨_, hname, h, rfl⟩⟩
    · rintro ⟨rfl, item, others, rfl, hallowed, rfl, ⟨hname, rfl⟩ | ⟨bound, hname, h, rfl⟩⟩
      · exact .element hname hallowed
      · exact .elementAgain hname h hallowed

lemma pairwise_segmentLengths : (segmentLengths only items).Pairwise (· < ·) :=
  List.pairwise_map.mpr (List.pairwise_lt_range.imp Nat.succ_lt_succ)

lemma listed_segment : Listed ((segmentWays name only items env).map .ok)
    fun lengths way => Attempt (.segment name only) lengths items env way.1 way.2 := by
  cases hname : env.get? name with
  | none =>
    rw [segmentWays, hname, List.map_map]
    refine listed_map (pairwise_segmentLengths only items) _ fun lengths way => ?_
    obtain ⟨env', n⟩ := way
    dsimp only
    constructor
    · intro h
      cases h with
      | segment _ hpos hn hallowed =>
        exact ⟨n, mem_segmentLengths.mpr ⟨hpos, hn, hallowed⟩, rfl, rfl⟩
      | segmentAgain hbound => cases hname.symm.trans hbound
    · rintro ⟨n, hn, rfl, ⟨⟩⟩
      obtain ⟨hpos, hn, hallowed⟩ := mem_segmentLengths.mp hn
      exact .segment hname hpos hn hallowed
  | some bound =>
    refine listed_of_length_le ?_ fun lengths way => ?_
    · rw [segmentWays, hname]
      split
      · contradiction
      · split <;> simp
      · exact Nat.zero_le 1
    · obtain ⟨env', n⟩ := way
      rw [mem_segmentWays]
      dsimp only
      constructor
      · intro h
        cases h with
        | segment hnone => cases hname.symm.trans hnone
        | segmentAgain hbound hvs h =>
          exact ⟨rfl, .inr ⟨_, _, hbound, hvs, replays_iff.mpr h, rfl, rfl⟩⟩
      · rintro ⟨rfl, ⟨hnone, -⟩ | ⟨shape, vs, hbound, hvs, hreplays, rfl, rfl⟩⟩
        · cases hname.symm.trans hnone
        · exact .segmentAgain hbound hvs (replays_iff.mp hreplays)

lemma listed_segmentExact :
    Listed (((segmentWays name only items env).filter fun way => way.2 = items.length).map .ok)
      fun lengths way => Attempt (.segmentExact name only) lengths items env way.1 way.2 := by
  refine (listed_segment name only items env).filter _ fun lengths way => ?_
  rw [decide_eq_true_iff]
  constructor
  · intro h
    cases h with
    | segmentExact h hn => exact ⟨h, hn⟩
  · rintro ⟨h, hn⟩
    exact .segmentExact h hn

lemma listed_rest : Listed ((restWays items env).map .ok)
    fun lengths way => Attempt .rest lengths items env way.1 way.2 := by
  rw [restWays, List.map_map]
  refine listed_map List.pairwise_lt_range _ fun lengths way => ?_
  obtain ⟨env', n⟩ := way
  dsimp only
  constructor
  · rintro ⟨⟩
    exact ⟨n, List.mem_range.mpr (by omega), rfl, rfl⟩
  · rintro ⟨n, hn, rfl, ⟨⟩⟩
    exact .rest (Nat.le_of_lt_succ (List.mem_range.mp hn))

end

/-! ### Whole patterns -/

/-- The kinds of matchers of which patterns without choices and rules are built. -/
def MatcherKind.choiceless : List MatcherKind := [.constant, .element, .segment, .rest, .array]

section Call

variable (call : Text → List Value → Environment → List Way)

mutual

/-- A search comes to the attempts that match in the order of their lengths. -/
theorem Matcher.listed_ways : (pattern : Matcher) →
    pattern.builtFrom MatcherKind.choiceless = true → (items : List Value) →
    (env : Environment) → Listed (pattern.ways call items env)
      fun lengths way => Attempt pattern lengths items env way.1 way.2
  | .constant value, _, items, env => listed_constant items env value
  | .element name only, _, items, env => listed_element name only items env
  | .segment name only, _, items, env => listed_segment name only items env
  | .segmentExact name only, _, items, env => listed_segmentExact name only items env
  | .rest, _, items, env => listed_rest items env
  | .array elements, hbuilt, items, env => by
    simp only [Matcher.builtFrom, Bool.and_eq_true] at hbuilt
    unfold Matcher.ways
    split
    · rename_i shape inner others
      refine (listed_sequenceWays elements hbuilt.2 inner env).map _ fun lengths way => ?_
      obtain ⟨env', n⟩ := way
      dsimp only
      constructor
      · intro h
        cases h with
        | array h => exact ⟨env', h, rfl⟩
      · rintro ⟨env', h, ⟨⟩⟩
        exact .array h
    · rename_i hitems
      refine listed_nil fun lengths way => ?_
      obtain ⟨env', n⟩ := way
      rintro ⟨h⟩
      exact hitems _ _ _ rfl
  | .choice _, hbuilt, _, _ => by cases hbuilt
  | .reference _, hbuilt, _, _ => by cases hbuilt
  | .letrec .., hbuilt, _, _ => by cases hbuilt
  | .abstract _, hbuilt, _, _ => by cases hbuilt

theorem listed_sequenceWays : (elements : List Matcher) →
    allBuiltFrom MatcherKind.choiceless elements = true → (items : List Value) →
    (env : Environment) → Listed (sequenceWays call elements items env)
      fun lengths env' => Attempts elements lengths items env env'
  | [], _, items, env => by
    rw [sequenceWays]
    split
    · rename_i hempty
      obtain rfl := List.isEmpty_iff.mp hempty
      show Listed ([env].map .ok) _
      refine listed_of_length_le (Nat.le_refl 1) fun lengths env' => ?_
      rw [List.mem_singleton]
      constructor
      · rintro ⟨⟩
        exact ⟨rfl, rfl⟩
      · rintro ⟨rfl, rfl⟩
        exact .nil
    · rename_i hitems
      refine listed_nil fun lengths env' => ?_
      rintro ⟨⟩
      exact hitems rfl
  | element :: elements, hbuilt, items, env => by
    simp only [allBuiltFrom, Bool.and_eq_true] at hbuilt
    refine (Matcher.listed_ways element hbuilt.1 items env).followed
      (fun env' n => listed_sequenceWays elements hbuilt.2 (items.drop n) env')
      fun lengths env' => ?_
    constructor
    · rintro ⟨⟩
      exact ⟨_, _, _, _, rfl, ‹_›, ‹_›⟩
    · rintro ⟨v, w, between, n, rfl, h, hrest⟩
      exact .cons h hrest

end

end Call

/-! ### Matches -/

/-- A pattern matches a datum with segments and filler of the given lengths. -/
def Matcher.MatchesWith [Predicates] (limits : Limits) (pattern : Matcher) (datum : Value)
    (lengths : List Nat) (result : Success) : Prop :=
  Attempt pattern lengths [datum] (.empty limits.maxDepth) result.environment result.consumed

/-- A pattern without choices and rules takes the shortest attempt. The lengths of an attempt
determine what it leaves behind. If there is an attempt that matches, then the match succeeds with
what the least lengths leave behind, in the lexicographic order; if there is none, the match
fails. -/
theorem Matcher.outcome_least {pattern : Matcher}
    (hbuilt : pattern.builtFrom MatcherKind.choiceless = true) (limits : Limits) (datum : Value) :
    (∀ lengths a b, pattern.MatchesWith limits datum lengths a →
        pattern.MatchesWith limits datum lengths b → a = b) ∧
      ((∃ f, pattern.outcome limits datum = .ok (.failure f)) ∧
          (∀ lengths a, ¬ pattern.MatchesWith limits datum lengths a) ∨
        ∃ result lengths, pattern.outcome limits datum = .ok (.success result) ∧
          pattern.MatchesWith limits datum lengths result ∧
          ∀ lengths' a, pattern.MatchesWith limits datum lengths' a → lengths ≤ lengths') := by
  have hlisted : Listed (pattern.waysOf limits datum) fun lengths way =>
      pattern.MatchesWith limits datum lengths ⟨way.1, way.2⟩ := pattern.listed_ways _ hbuilt _ _
  refine ⟨fun lengths ⟨env, n⟩ ⟨env', n'⟩ ha hb => ?_, ?_⟩
  · cases hlisted.eq_of_stands (a := (env, n)) (b := (env', n')) ha hb
    rfl
  · rcases hlisted.first with ⟨hways, hnone⟩ | ⟨⟨env, n⟩, others, lengths, hways, h, hleast⟩
    · exact .inl ⟨Matcher.outcome_of_nil hways, fun lengths a => hnone lengths (a.1, a.2)⟩
    · exact .inr ⟨⟨env, n⟩, lengths, Matcher.outcome_of_cons hways, h,
        fun lengths' a => hleast lengths' (a.1, a.2)⟩

end

/-- The same segment on both sides of another one. It takes two items, since no run of one item
stands at both ends of the list. -/
theorem Matcher.outcome_least_around :
    let x : Text := [.char 'x']
    let y : Text := [.char 'y']
    let pattern : Matcher := .array [.segment x none, .segment y none, .segment x none]
    let datum : Value := .list [.int 1, .int 2, .int 3, .int 1, .int 2]
    pattern.builtFrom MatcherKind.choiceless = true ∧
      ∃ result lengths, pattern.outcome {} datum = .ok (.success result) ∧
        result.environment.bindings = [(x, .list [.int 1, .int 2]), (y, .list [.int 3])] ∧
        pattern.MatchesWith {} datum lengths result ∧
        ∀ lengths' a, pattern.MatchesWith {} datum lengths' a → lengths ≤ lengths' := by
  intro x y pattern datum
  have hbuilt : pattern.builtFrom MatcherKind.choiceless = true := rfl
  obtain ⟨env, houtcome, hbindings⟩ : ∃ env, pattern.outcome {} datum =
      .ok (.success ⟨env, 1⟩) ∧
        env.bindings = [(x, .list [.int 1, .int 2]), (y, .list [.int 3])] := by
    refine ⟨⟨[(x, .list [.int 1, .int 2]), (y, .list [.int 3])], [], 0,
      Environment.defaultMaxDepth, 2⟩, ?_, rfl⟩
    dsimp only [pattern, datum, x, y]
    cbv
  refine ⟨hbuilt, ⟨env, 1⟩, ?_⟩
  rcases (Matcher.outcome_least hbuilt {} datum).2 with ⟨⟨f, hf⟩, -⟩ | ⟨result, lengths, h, hleast⟩
  · cases houtcome.symm.trans hf
  · cases houtcome.symm.trans h
    exact ⟨lengths, h, hbindings, hleast⟩

end Motif
