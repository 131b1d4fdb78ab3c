import Motif.Proofs.Outcome

/-!
# Derivations in a grammar

Rules without variables are a grammar: a reference derives what its rule derives. A datum matches
under such rules if and only if it has a derivation in which no more references are nested inside
one another than the ceiling allows. References that stand side by side do not add up, since the
depth is put back before the search goes on.
-/

namespace Motif

section

variable {H : Predicates}

/-- The rules of a grammar by name. -/
abbrev Grammar := Text → Option Matcher

/-- The grammar of some rules: the last rule of a name counts. -/
def grammarOf (rules : List (Value × Matcher)) : Grammar :=
  fun name => (namedRules rules).reverse.lookup name

mutual

/-- A run of items has a derivation from a matcher in which at most `nesting` references are nested
inside one another. -/
inductive Derives (grammar : Grammar) : (nesting : Nat) → Matcher → List Value → Prop where
  | constant {n : Nat} {value item : Value} (h : item.equal value = true) :
    Derives grammar n (.constant value) [item]
  | rest {n : Nat} {run : List Value} : Derives grammar n .rest run
  | array {n : Nat} {elements : List Matcher} {shape : Shape} {items : List Value}
    (h : DerivesAll grammar n elements items) :
    Derives grammar n (.array elements) [.seq shape items]
  | choice {n : Nat} {alternatives : List Matcher} {alternative : Matcher} {run : List Value}
    (hmem : alternative ∈ alternatives) (h : Derives grammar n alternative run) :
    Derives grammar n (.choice alternatives) run
  | reference {n : Nat} {name : Text} {target : Matcher} {run : List Value}
    (hrule : grammar name = some target) (h : Derives grammar n target run) :
    Derives grammar (n + 1) (.reference name) run

/-- Items split into runs that matchers derive, one after the other. -/
inductive DerivesAll (grammar : Grammar) : (nesting : Nat) → List Matcher → List Value → Prop where
  | nil {n : Nat} : DerivesAll grammar n [] []
  | cons {n : Nat} {element : Matcher} {elements : List Matcher} {run rest : List Value}
    (h : Derives grammar n element run) (hrest : DerivesAll grammar n elements rest) :
    DerivesAll grammar n (element :: elements) (run ++ rest)

end

/-- What derives no item at all derives every run. -/
theorem Derives.of_empty {grammar : Grammar} : {n : Nat} → {matcher : Matcher} →
    {run : List Value} → Derives grammar n matcher run → run = [] → (run' : List Value) →
    Derives grammar n matcher run'
  | _, _, _, .rest, _, _ => .rest
  | _, _, _, .choice hmem h, hrun, run' => .choice hmem (h.of_empty hrun run')
  | _, _, _, .reference hrule h, hrun, run' => .reference hrule (h.of_empty hrun run')

/-- The kinds of matchers that grammars are built from. -/
def MatcherKind.grammatical : List MatcherKind := [.constant, .rest, .array, .choice, .reference]

/-! ### Rules of a grammar -/

namespace Table

variable {α : Type}

/-- Of the entries that are inserted the last one of a name counts. -/
lemma lookup_insertAll (t entries : Table α) (name : Text) :
    (t.insertAll entries).lookup name = (entries.reverse.lookup name).or (t.lookup name) := by
  induction entries generalizing t with
  | nil => rfl
  | cons entry entries ih =>
    obtain ⟨n, v⟩ := entry
    have hinsert : (t.insertAll ((n, v) :: entries)) = (t.insert n v).insertAll entries := rfl
    rw [hinsert, ih, List.reverse_cons, List.lookup_append, Option.or_assoc]
    congr 1
    by_cases hn : name = n
    · subst hn
      simp
    · simp [lookup_insert_of_ne v t hn, List.lookup_cons, beq_eq_false_iff_ne.mpr hn]

lemma mem_of_lookup_reverse {entries : Table α} {name : Text} {value : α}
    (h : entries.reverse.lookup name = some value) : (name, value) ∈ entries := by
  obtain ⟨before, after, hsplit, -⟩ := List.lookup_eq_some_iff.mp h
  rw [← List.mem_reverse, hsplit]
  simp

end Table

lemma builtFrom_of_mem_rules {kinds : List MatcherKind} {rules : List (Value × Matcher)}
    (h : rulesBuiltFrom kinds rules = true) : ∀ rule ∈ rules, rule.2.builtFrom kinds = true := by
  induction rules with
  | nil => simp
  | cons rule rules ih =>
    simp only [rulesBuiltFrom, Bool.and_eq_true] at h
    exact List.forall_mem_cons.mpr ⟨h.1, ih h.2⟩

lemma mem_of_mem_namedRules {rules : List (Value × Matcher)} {name : Text} {target : Matcher}
    (h : (name, target) ∈ namedRules rules) : (.str name, target) ∈ rules := by
  obtain ⟨rule, hmem, heq⟩ := List.mem_filterMap.mp h
  split at heq
  · cases heq
    exact hmem
  · cases heq

/-- The rule of a name is one of the rules. -/
lemma mem_rules_of_grammarOf {rules : List (Value × Matcher)} {name : Text} {target : Matcher}
    (h : grammarOf rules name = some target) : (.str name, target) ∈ rules :=
  mem_of_mem_namedRules (Table.mem_of_lookup_reverse h)

lemma builtFrom_of_grammarOf {kinds : List MatcherKind} {rules : List (Value × Matcher)}
    (h : rulesBuiltFrom kinds rules = true) {name : Text} {target : Matcher}
    (hrule : grammarOf rules name = some target) : target.builtFrom kinds = true :=
  builtFrom_of_mem_rules h _ (mem_rules_of_grammarOf hrule)

/-! ### Environments of a grammar -/

/-- `env'` knows what `env` knows; they differ at most in how they came about. -/
structure Environment.Same (env env' : Environment) : Prop where
  bindings : env'.bindings = env.bindings
  rules : env'.rules = env.rules
  depth : env'.depth = env.depth
  maxDepth : env'.maxDepth = env.maxDepth

/-- An environment that knows nothing but the rules of a grammar and has room for `n` references. -/
structure Environment.Ready (grammar : Grammar) (n : Nat) (env : Environment) : Prop where
  bindings : env.bindings = []
  rules : ∀ name, env.rules.lookup name = grammar name
  room : env.room = n

namespace Environment

variable {grammar : Grammar} {n : Nat} {env env' env'' : Environment}

lemma Same.refl (env : Environment) : env.Same env := ⟨rfl, rfl, rfl, rfl⟩

lemma Same.trans (h : env.Same env') (h' : env'.Same env'') : env.Same env'' :=
  ⟨h'.bindings.trans h.bindings, h'.rules.trans h.rules, h'.depth.trans h.depth,
    h'.maxDepth.trans h.maxDepth⟩

lemma Same.atDepth (h : env.descend.Same env') : env.Same (env'.atDepth env.depth) := by
  unfold Environment.atDepth
  split
  · rename_i hdepth
    exact ⟨h.bindings, h.rules, hdepth.symm, h.maxDepth⟩
  · exact ⟨h.bindings, h.rules, rfl, h.maxDepth⟩

lemma Ready.of_same (henv : env.Ready grammar n) (h : env.Same env') : env'.Ready grammar n := by
  have hroom : env'.room = env.room := by simp only [Environment.room, h.depth, h.maxDepth]
  exact ⟨h.bindings.trans henv.bindings, h.rules ▸ henv.rules, hroom.trans henv.room⟩

lemma Ready.matcher?_eq (henv : env.Ready grammar n) (name : Text) :
    env.matcher? name = grammar name := by
  simp only [matcher?, get?, henv.bindings, List.lookup_nil, henv.rules]
  cases grammar name <;> rfl

lemma Ready.exhausted (henv : env.Ready grammar (n + 1)) : env.exhausted = false := by
  rw [Bool.eq_false_iff, ne_eq, exhausted_iff_room, henv.room]
  exact Nat.succ_ne_zero n

lemma Ready.descend (henv : env.Ready grammar (n + 1)) : env.descend.Ready grammar n := by
  refine ⟨henv.bindings, henv.rules, ?_⟩
  rw [room_descend, henv.room, Nat.add_sub_cancel]

end Environment

/-! ### Every way is derived -/

/-- Every one of the ways leaves the environment as it is and uses a run with a derivation. -/
def Derived (grammar : Grammar) (n : Nat) (matcher : Matcher)
    (ways : List Value → Environment → List Way) : Prop :=
  ∀ ⦃items : List Value⦄ ⦃env : Environment⦄, env.Ready grammar n → ∀ way ∈ ways items env,
    ∃ env' k, way = .ok (env', k) ∧ env.Same env' ∧ Derives grammar n matcher (items.take k)

section Sound

variable {grammar : Grammar} {n : Nat}

lemma derived_constant (value : Value) : Derived grammar n (.constant value)
    fun items env => (constantWays value items env).map .ok := by
  intro items env _ way hway
  obtain ⟨⟨env', k⟩, hmem, rfl⟩ := List.mem_map.mp hway
  obtain ⟨item, others, rfl, hequal, rfl, rfl⟩ := mem_constantWays.mp hmem
  exact ⟨env', 1, rfl, .refl env', .constant hequal⟩

lemma derived_rest : Derived grammar n .rest fun items env => (restWays items env).map .ok := by
  intro items env _ way hway
  obtain ⟨⟨env', k⟩, hmem, rfl⟩ := List.mem_map.mp hway
  obtain ⟨rfl, -⟩ := mem_restWays.mp hmem
  exact ⟨env', k, rfl, .refl env', .rest⟩

section Call

variable {call : Text → List Value → Environment → List Way}

mutual

/-- All ways of a matcher are derived, if those of every reference are. -/
theorem Matcher.derived_ways (hcall : ∀ name, Derived grammar n (.reference name) (call name)) :
    (matcher : Matcher) →
    matcher.builtFrom MatcherKind.grammatical = true → Derived grammar n matcher (matcher.ways call)
  | .constant value, _ => derived_constant value
  | .rest, _ => derived_rest
  | .array elements, hbuilt => by
    simp only [Matcher.builtFrom, Bool.and_eq_true] at hbuilt
    intro items env henv way hway
    unfold Matcher.ways at hway
    split at hway
    · rename_i shape inner others
      obtain ⟨innerWay, hinner, rfl⟩ := List.mem_map.mp hway
      obtain ⟨env', rfl, hsame, h⟩ :=
        derived_sequenceWays hcall elements hbuilt.2 henv innerWay hinner
      exact ⟨env', 1, rfl, hsame, .array h⟩
    · simp at hway
  | .choice alternatives, hbuilt => by
    simp only [Matcher.builtFrom, Bool.and_eq_true] at hbuilt
    intro items env henv way hway
    obtain ⟨env', k, rfl, hsame, alternative, hmem, h⟩ :=
      derived_alternativeWays hcall alternatives hbuilt.2 henv way hway
    exact ⟨env', k, rfl, hsame, .choice hmem h⟩
  | .reference name, _ => hcall name
  | .element .., hbuilt => by cases hbuilt
  | .segment .., hbuilt => by cases hbuilt
  | .segmentExact .., hbuilt => by cases hbuilt
  | .letrec .., hbuilt => by cases hbuilt
  | .abstract _, hbuilt => by cases hbuilt

theorem derived_sequenceWays (hcall : ∀ name, Derived grammar n (.reference name) (call name)) :
    (elements : List Matcher) →
    allBuiltFrom MatcherKind.grammatical elements = true → {items : List Value} →
    {env : Environment} → env.Ready grammar n → ∀ way ∈ sequenceWays call elements items env,
    ∃ env', way = .ok env' ∧ env.Same env' ∧ DerivesAll grammar n elements items
  | [], _, items, env, _, way, hway => by
    simp only [sequenceWays] at hway
    split at hway
    · rename_i hempty
      obtain rfl : way = .ok env := by simpa using hway
      obtain rfl := List.isEmpty_iff.mp hempty
      exact ⟨env, rfl, .refl env, .nil⟩
    · simp at hway
  | element :: elements, hbuilt, items, env, henv, way, hway => by
    simp only [allBuiltFrom, Bool.and_eq_true] at hbuilt
    obtain ⟨first, hfirst, hrest⟩ := List.mem_flatMap.mp hway
    obtain ⟨between, k, rfl, hsame, helement⟩ :=
      Matcher.derived_ways hcall element hbuilt.1 henv first hfirst
    obtain ⟨env', rfl, hsame', helements⟩ :=
      derived_sequenceWays hcall elements hbuilt.2 (henv.of_same hsame) way hrest
    exact ⟨env', rfl, hsame.trans hsame', by simpa using DerivesAll.cons helement helements⟩

theorem derived_alternativeWays (hcall : ∀ name, Derived grammar n (.reference name) (call name)) :
    (alternatives : List Matcher) →
    allBuiltFrom MatcherKind.grammatical alternatives = true → {items : List Value} →
    {env : Environment} → env.Ready grammar n →
    ∀ way ∈ alternativeWays call alternatives items env, ∃ env' k, way = .ok (env', k) ∧
      env.Same env' ∧ ∃ alternative ∈ alternatives, Derives grammar n alternative (items.take k)
  | [], _, _, _, _, _, hway => by simp [alternativeWays] at hway
  | alternative :: alternatives, hbuilt, items, env, henv, way, hway => by
    simp only [allBuiltFrom, Bool.and_eq_true] at hbuilt
    rcases List.mem_append.mp hway with hway | hway
    · obtain ⟨env', k, rfl, hsame, h⟩ :=
        Matcher.derived_ways hcall alternative hbuilt.1 henv way hway
      exact ⟨env', k, rfl, hsame, alternative, List.mem_cons_self, h⟩
    · obtain ⟨env', k, rfl, hsame, other, hmem, h⟩ :=
        derived_alternativeWays hcall alternatives hbuilt.2 henv way hway
      exact ⟨env', k, rfl, hsame, other, List.mem_cons_of_mem _ hmem, h⟩

end

end Call

/-- A reference opens one more level, within which its rule has one less to open. -/
lemma derived_callWays (hgrammar : ∀ {name target}, grammar name = some target →
    target.builtFrom MatcherKind.grammatical = true) (n : Nat) (name : Text) :
    Derived grammar n (.reference name) (callWays none n name) := by
  induction n generalizing name with
  | zero =>
    intro items env _ way hway
    cases h : env.matcher? name <;> simp [callWays, h] at hway
  | succ n ih =>
    intro items env henv way hway
    cases hrule : grammar name with
    | none => simp [callWays, henv.matcher?_eq, hrule] at hway
    | some target =>
      simp only [callWays, henv.matcher?_eq, hrule, henv.exhausted, Bool.false_eq_true,
        if_false] at hway
      obtain ⟨inner, hinner, rfl⟩ := List.mem_map.mp hway
      obtain ⟨env', k, rfl, hsame, h⟩ :=
        Matcher.derived_ways ih target (hgrammar hrule) henv.descend inner hinner
      exact ⟨_, k, rfl, hsame.atDepth, .reference hrule h⟩

end Sound

/-! ### Every derivation is found -/

section Complete

variable {grammar : Grammar}

mutual

/-- What has a derivation is among the ways of the matcher, whatever items come after it. -/
theorem Derives.exists_mem_ways : {n : Nat} → {matcher : Matcher} → {run : List Value} →
    Derives grammar n matcher run → (rest : List Value) → {env : Environment} →
    env.Ready grammar n →
    ∃ env', env.Same env' ∧
      .ok (env', run.length) ∈ matcher.ways (callWays none n) (run ++ rest) env
  | _, _, _, .constant h, _, env, _ =>
    ⟨env, .refl env, Way.ok_mem_map_ok.mpr (mem_constantWays.mpr ⟨_, _, rfl, h, rfl, rfl⟩)⟩
  | _, _, run, .rest, rest, env, _ =>
    ⟨env, .refl env, Way.ok_mem_map_ok.mpr (mem_restWays.mpr ⟨rfl, by simp⟩)⟩
  | _, _, _, .array h, rest, env, henv => by
    obtain ⟨env', hsame, hway⟩ := DerivesAll.exists_mem_sequenceWays h henv
    exact ⟨env', hsame, Matcher.ok_mem_ways_array.mpr ⟨_, _, rest, rfl, rfl, hway⟩⟩
  | _, _, _, .choice hmem h, rest, env, henv => by
    obtain ⟨env', hsame, hway⟩ := Derives.exists_mem_ways h rest henv
    exact ⟨env', hsame, mem_alternativeWays.mpr ⟨_, hmem, hway⟩⟩
  | n + 1, _, _, .reference hrule h, rest, env, henv => by
    obtain ⟨env', hsame, hway⟩ := Derives.exists_mem_ways h rest henv.descend
    refine ⟨env'.atDepth env.depth, hsame.atDepth, ?_⟩
    simp only [Matcher.ways, callWays, henv.matcher?_eq, hrule, henv.exhausted,
      Bool.false_eq_true, if_false]
    exact Way.ok_mem_map_leave.mpr ⟨env', hway, rfl⟩

theorem DerivesAll.exists_mem_sequenceWays : {n : Nat} → {elements : List Matcher} →
    {items : List Value} → DerivesAll grammar n elements items → {env : Environment} →
    env.Ready grammar n →
    ∃ env', env.Same env' ∧ .ok env' ∈ sequenceWays (callWays none n) elements items env
  | _, _, _, .nil, env, _ => ⟨env, .refl env, by simp [sequenceWays]⟩
  | _, _, _, @DerivesAll.cons _ _ _ _ run rest h hrest, env, henv => by
    obtain ⟨between, hsame, hfirst⟩ := Derives.exists_mem_ways h rest henv
    obtain ⟨env', hsame', hway⟩ :=
      DerivesAll.exists_mem_sequenceWays hrest (henv.of_same hsame)
    refine ⟨env', hsame.trans hsame', ok_mem_followed.mpr ⟨between, run.length, hfirst, ?_⟩⟩
    rw [List.drop_left]
    exact hway

end

end Complete

/-! ### Matching is having a derivation -/

section Letrec

variable {rules : List (Value × Matcher)} {body : Matcher} {maxDepth : Int} {datum : Value}

lemma Environment.ready_define (rules : List (Value × Matcher)) (maxDepth : Int) :
    ((empty maxDepth).define (namedRules rules)).Ready (grammarOf rules) maxDepth.toNat := by
  refine ⟨rfl, fun name => ?_, by simp [room, define, empty]⟩
  simp [define, empty, Table.lookup_insertAll, grammarOf]

lemma Matcher.waysOf_letrec : (Matcher.letrec rules body).waysOf ⟨maxDepth, none⟩ datum =
    (body.ways (callWays none maxDepth.toNat) [datum]
      ((Environment.empty maxDepth).define (namedRules rules))).map
        (Way.leave (·.scopedTo (.empty maxDepth))) := by
  have hroom : (Environment.empty maxDepth).room = maxDepth.toNat := by
    simp [Environment.room, Environment.empty]
  simp only [Matcher.waysOf, Matcher.waysFrom, Matcher.ways, hroom]

/-- Under rules without variables a datum matches exactly if it has a derivation in which at most as
many references as the ceiling allows are nested inside one another. -/
theorem Matcher.matched_letrec_iff_derives (rules : List (Value × Matcher)) (body : Matcher)
    (maxDepth : Int) (datum : Value)
    (hrules : rulesBuiltFrom MatcherKind.grammatical rules = true)
    (hbody : body.builtFrom MatcherKind.grammatical = true) :
    ∃ outcome, (Matcher.letrec rules body).outcome ⟨maxDepth, none⟩ datum = .ok outcome ∧
      (outcome.matched = true ↔ Derives (grammarOf rules) maxDepth.toNat body [datum]) := by
  have hready := Environment.ready_define rules maxDepth
  have hderived : Derived (grammarOf rules) maxDepth.toNat body
      (body.ways (callWays none maxDepth.toNat)) :=
    Matcher.derived_ways (derived_callWays (builtFrom_of_grammarOf hrules) _) body hbody
  obtain ⟨outcome, houtcome, hmatched, -⟩ := Matcher.exists_outcome ⟨maxDepth, none⟩
    (Matcher.letrec rules body) datum fun interrupt hway => by
      rw [Matcher.waysOf_letrec] at hway
      obtain ⟨inner, hinner, heq⟩ := List.mem_map.mp hway
      obtain ⟨env', k, rfl, -⟩ := hderived hready inner hinner
      cases heq
  refine ⟨outcome, houtcome, hmatched.trans ?_⟩
  simp only [Matcher.waysOf_letrec, Way.ok_mem_map_leave]
  constructor
  · rintro ⟨_, k, inner, hinner, -⟩
    obtain ⟨env', k', heq, -, h⟩ := hderived hready _ hinner
    cases heq
    -- filler may leave the datum where it is
    match k with
    | 0 => exact h.of_empty rfl [datum]
    | k + 1 => simpa using h
  · intro h
    obtain ⟨env', -, hway⟩ := h.exists_mem_ways [] hready
    exact ⟨_, 1, env', hway, rfl⟩

end Letrec

end

/-- Two rules that refer to each other, up to the ceiling. -/
theorem Matcher.matched_letrec_iff_derives_alternating :
    let odd : Text := [.char 'o']
    let even : Text := [.char 'e']
    let level (n : Int) (next : Text) : Matcher :=
      .choice [.array [], .array [.constant (.int n), .reference next]]
    let rules := [(Value.str odd, level 1 even), (Value.str even, level 2 odd)]
    let datum := Value.list [.int 1, .list [.int 2, .list []]]
    rulesBuiltFrom MatcherKind.grammatical rules = true ∧
      (Matcher.reference odd).builtFrom MatcherKind.grammatical = true ∧
      ∃ result, (Matcher.letrec rules (.reference odd)).outcome ⟨3, none⟩ datum =
        .ok (.success result) := by
  intro odd even level rules datum
  have hrules : rulesBuiltFrom MatcherKind.grammatical rules = true := rfl
  have hbody : (Matcher.reference odd).builtFrom MatcherKind.grammatical = true := rfl
  obtain ⟨outcome, houtcome, hmatched⟩ :=
    Matcher.matched_letrec_iff_derives rules (.reference odd) 3 datum hrules hbody
  have hodd : grammarOf rules odd = some (level 1 even) := rfl
  have heven : grammarOf rules even = some (level 2 odd) := rfl
  have hlast : Derives (grammarOf rules) 1 (.reference odd) [.list []] :=
    .reference hodd (.choice List.mem_cons_self (.array .nil))
  have hstep (n : Int) {nesting : Nat} {next : Text} {inner : Value}
      (h : Derives (grammarOf rules) nesting (.reference next) [inner]) :
      Derives (grammarOf rules) nesting (level n next) [.list [.int n, inner]] := by
    have hitem : (Value.int n).equal (.int n) = true := by simp [Value.equal, Value.alike]
    exact .choice (List.mem_cons_of_mem _ List.mem_cons_self)
      (.array (.cons (.constant hitem) (.cons h .nil)))
  have h : Derives (grammarOf rules) 3 (.reference odd) [datum] :=
    .reference hodd (hstep 1 (.reference heven (hstep 2 hlast)))
  cases outcome with
  | failure f => cases hmatched.mpr h
  | success result => exact ⟨hrules, hbody, result, houtcome⟩

end Motif
