import Motif.Proofs.Calls

/-!
# What a match leaves behind

After a match the depth, the ceiling and the rules are those from before it, and of the data only
new names are added at the end, bound to items of the list or to runs of them. This is so at every
call of a continuation, in whatever order the calls come.
-/

namespace Motif

section

variable {H : Predicates}

/-! ### Names in tables -/

namespace Table

variable {α : Type} {name : Text} {t : Table α}

lemma lookup_eq_none_iff : t.lookup name = none ↔ name ∉ t.names := by
  simp only [List.lookup_eq_none_iff, names, List.mem_map, not_exists, not_and]
  constructor
  · rintro h entry hentry rfl
    simpa using h entry hentry
  · intro h entry hentry
    simpa using fun he => h entry hentry he.symm

lemma mem_names_iff : name ∈ t.names ↔ ∃ v, t.lookup name = some v := by
  rw [← not_iff_not, ← lookup_eq_none_iff, Option.eq_none_iff_forall_ne_some, not_exists]

lemma mem_names_insert (other : Text) (value : α) (h : name ∈ t.names) :
    name ∈ (insert other value t).names := by
  induction t with
  | nil => simp [names] at h
  | cons entry t ih =>
    obtain ⟨n, v⟩ := entry
    simp only [names, List.map_cons, List.mem_cons] at h ih
    by_cases hn : n = other
    · simpa [insert, hn, names] using h
    · simp only [insert, hn, if_false, names, List.map_cons, List.mem_cons]
      exact h.imp_right ih

lemma mem_names_insertAll (entries : Table α) (h : name ∈ t.names) :
    name ∈ (t.insertAll entries).names := by
  induction entries generalizing t with
  | nil => exact h
  | cons entry entries ih => exact ih (mem_names_insert entry.1 entry.2 h)

end Table

lemma Environment.get?_eq_none_iff {env : Environment} {name : Text} :
    env.get? name = none ↔ name ∉ env.bindings.names ∧ name ∉ env.rules.names := by
  rw [← Table.lookup_eq_none_iff, ← Table.lookup_eq_none_iff]
  unfold Environment.get?
  cases env.bindings.lookup name <;> simp

/-! ### What stands in a list -/

/-- A value is an item of a list, or within an item that is a list itself. -/
inductive Value.Within (v : Value) : List Value → Prop where
  | item {items : List Value} (h : v ∈ items) : v.Within items
  | inside {items inner : List Value} {shape : Shape} (h : .seq shape inner ∈ items)
      (hv : v.Within inner) : v.Within items

/-- A value is within a list, or a list of items that stand side by side in it or in a list within
it. -/
inductive Value.TakenFrom (items : List Value) : Value → Prop where
  | within {v : Value} (h : v.Within items) : v.TakenFrom items
  | run {run : List Value} (hrun : run ≠ []) (h : run <:+: items) : (Value.list run).TakenFrom items
  | innerRun {run inner : List Value} {shape : Shape}
      (hinner : (Value.seq shape inner).Within items) (hrun : run ≠ []) (h : run <:+: inner) :
      (Value.list run).TakenFrom items

lemma Value.Within.mono {v : Value} {items items' : List Value} (hsub : items ⊆ items')
    (h : v.Within items) : v.Within items' := by
  cases h with
  | item h => exact .item (hsub h)
  | inside h hv => exact .inside (hsub h) hv

lemma Value.TakenFrom.drop {v : Value} {items : List Value} {n : Nat}
    (h : v.TakenFrom (items.drop n)) : v.TakenFrom items := by
  have hsub : items.drop n ⊆ items := List.drop_subset n items
  cases h with
  | within h => exact .within (h.mono hsub)
  | run hrun h => exact .run hrun (h.trans (List.drop_suffix n items).isInfix)
  | innerRun hinner hrun h => exact .innerRun (hinner.mono hsub) hrun h

lemma Value.TakenFrom.inside {v : Value} {items inner : List Value} {shape : Shape}
    (hinner : .seq shape inner ∈ items) (h : v.TakenFrom inner) : v.TakenFrom items := by
  cases h with
  | within h => exact .within (.inside hinner h)
  | run hrun h => exact .innerRun (.item hinner) hrun h
  | innerRun h hrun hinfix => exact .innerRun (.inside hinner h) hrun hinfix

/-! ### Growth of environments -/

/-- `env'` differs from `env` only by new data, taken from `items`, after the old. -/
structure Environment.Grows (items : List Value) (env env' : Environment) : Prop where
  depth : env'.depth = env.depth
  maxDepth : env'.maxDepth = env.maxDepth
  rules : env'.rules = env.rules
  bindings : ∃ added : Table Value, env'.bindings = env.bindings ++ added ∧
    ∀ name v, (name, v) ∈ added →
      name ∉ env.bindings.names ∧ name ∉ env.rules.names ∧ v.TakenFrom items

namespace Environment.Grows

variable {items : List Value} {env env' env'' : Environment}

lemma refl (items : List Value) (env : Environment) : env.Grows items env :=
  ⟨rfl, rfl, rfl, [], by simp⟩

lemma trans (h : env.Grows items env') (h' : env'.Grows items env'') : env.Grows items env'' := by
  obtain ⟨added, hadded, hnew⟩ := h.bindings
  obtain ⟨added', hadded', hnew'⟩ := h'.bindings
  refine ⟨h'.depth.trans h.depth, h'.maxDepth.trans h.maxDepth, h'.rules.trans h.rules,
    added ++ added', by rw [hadded', hadded, List.append_assoc], fun name v hmem => ?_⟩
  rcases List.mem_append.mp hmem with hmem | hmem
  · exact hnew name v hmem
  · obtain ⟨hdata, hrules, hv⟩ := hnew' name v hmem
    rw [hadded] at hdata
    rw [h.rules] at hrules
    exact ⟨fun hname => hdata (by simp [Table.names] at hname ⊢; tauto), hrules, hv⟩

lemma mono {items' : List Value} (hitems : ∀ v : Value, v.TakenFrom items → v.TakenFrom items')
    (h : env.Grows items env') : env.Grows items' env' := by
  obtain ⟨added, hadded, hnew⟩ := h.bindings
  refine ⟨h.depth, h.maxDepth, h.rules, added, hadded, fun name v hmem => ?_⟩
  obtain ⟨hdata, hrules, hv⟩ := hnew name v hmem
  exact ⟨hdata, hrules, hitems v hv⟩

lemma extend {name : Text} {v : Value} (hname : env.get? name = none) (hv : v.TakenFrom items) :
    env.Grows items (env.extend name v) := by
  have h := get?_eq_none_iff.mp hname
  refine ⟨rfl, rfl, rfl, [(name, v)], ?_, fun name' v' hmem => ?_⟩
  · exact Table.insert_of_lookup_eq_none v (Table.lookup_eq_none_iff.mpr h.1)
  · obtain ⟨rfl, rfl⟩ : name' = name ∧ v' = v := by simpa using hmem
    exact ⟨h.1, h.2, hv⟩

/-- New data of a scope with more rules is new outside it. -/
lemma scopedTo {rules : Table Matcher} (h : (env.define rules).Grows items env') :
    env.Grows items (env'.scopedTo env) := by
  obtain ⟨added, hadded, hnew⟩ := h.bindings
  refine ⟨h.depth, h.maxDepth, rfl, added, hadded, fun name v hmem => ?_⟩
  obtain ⟨hdata, hrules, hv⟩ := hnew name v hmem
  exact ⟨hdata, fun hname => hrules (Table.mem_names_insertAll rules hname), hv⟩

lemma atDepth (h : env.descend.Grows items env') : env.Grows items (env'.atDepth env.depth) := by
  unfold Environment.atDepth
  split
  · rename_i hdepth
    exact ⟨hdepth.symm, h.maxDepth, h.rules, h.bindings⟩
  · exact ⟨rfl, h.maxDepth, h.rules, h.bindings⟩

/-- Data stays bound to what it was bound to. -/
lemma lookup_eq_some {name : Text} {v : Value} (h : env.Grows items env')
    (hname : env.bindings.lookup name = some v) : env'.bindings.lookup name = some v := by
  obtain ⟨added, hadded, -⟩ := h.bindings
  rw [hadded, List.lookup_append, hname, Option.some_or]

lemma lookup_or_takenFrom {name : Text} {v : Value} (h : env.Grows items env')
    (hname : env'.bindings.lookup name = some v) :
    env.bindings.lookup name = some v ∨ v.TakenFrom items := by
  obtain ⟨added, hadded, hnew⟩ := h.bindings
  rw [hadded, List.lookup_append, Option.or_eq_some_iff] at hname
  rcases hname with hname | ⟨-, hname⟩
  · exact .inl hname
  · obtain ⟨before, after, rfl, -⟩ := List.lookup_eq_some_iff.mp hname
    exact .inr (hnew name v (by simp)).2.2

end Environment.Grows

/-! ### Growth along ways -/

/-- After each of the ways the environment has grown, and no more items are used than there are. -/
def Grow (ways : List Value → Environment → List Way) : Prop :=
  ∀ ⦃items : List Value⦄ ⦃env env' : Environment⦄ ⦃n : Nat⦄,
    .ok (env', n) ∈ ways items env → n ≤ items.length ∧ env.Grows items env'

lemma grow_constant (value : Value) :
    Grow fun items env => (constantWays value items env).map .ok := by
  intro items env env' n hway
  obtain ⟨item, others, rfl, -, rfl, rfl⟩ := mem_constantWays.mp (Way.ok_mem_map_ok.mp hway)
  exact ⟨by simp, .refl _ _⟩

lemma grow_element (name : Text) (only : Option Restriction) :
    Grow fun items env => (elementWays name only items env).map .ok := by
  intro items env env' n hway
  obtain ⟨item, others, rfl, -, rfl, h⟩ := mem_elementWays.mp (Way.ok_mem_map_ok.mp hway)
  refine ⟨by simp, ?_⟩
  rcases h with ⟨hname, rfl⟩ | ⟨bound, -, -, rfl⟩
  · exact .extend hname (.within (.item List.mem_cons_self))
  · exact .refl _ _

lemma length_le_of_replays {only : Option Restriction} {expected items : List Value}
    (h : replays only expected items = true) : expected.length ≤ items.length := by
  induction expected generalizing items with
  | nil => simp
  | cons v expected ih =>
    cases items with
    | nil => simp [replays] at h
    | cons item items =>
      simp only [replays, Bool.and_eq_true] at h
      simpa using ih h.2

lemma grow_segmentWays {name : Text} {only : Option Restriction} {items : List Value}
    {env env' : Environment} {n : Nat} (hway : (env', n) ∈ segmentWays name only items env) :
    n ≤ items.length ∧ env.Grows items env' := by
  rcases mem_segmentWays.mp hway with ⟨hname, hn, rfl⟩ | ⟨shape, vs, -, -, hreplays, rfl, rfl⟩
  · obtain ⟨-, hlength, -⟩ := mem_segmentLengths.mp hn
    have hrun := take_ne_nil_of_mem_segmentLengths hn
    exact ⟨hlength, .extend hname (.run hrun (List.take_prefix n items).isInfix)⟩
  · exact ⟨length_le_of_replays hreplays, .refl _ _⟩

lemma grow_segment (name : Text) (only : Option Restriction) :
    Grow fun items env => (segmentWays name only items env).map .ok := by
  intro items env env' n hway
  exact grow_segmentWays (Way.ok_mem_map_ok.mp hway)

lemma grow_segmentExact (name : Text) (only : Option Restriction) :
    Grow fun items env =>
      ((segmentWays name only items env).filter fun way => way.2 = items.length).map .ok := by
  intro items env env' n hway
  exact grow_segmentWays (List.mem_filter.mp (Way.ok_mem_map_ok.mp hway)).1

lemma grow_rest : Grow fun items env => (restWays items env).map .ok := by
  intro items env env' n hway
  obtain ⟨rfl, hn⟩ := mem_restWays.mp (Way.ok_mem_map_ok.mp hway)
  exact ⟨hn, .refl _ _⟩

lemma grow_letrec {ways : List Value → Environment → List Way} (rules : Table Matcher)
    (h : Grow ways) :
    Grow fun items env => (ways items (env.define rules)).map (Way.leave (·.scopedTo env)) := by
  intro items env env' n hway
  obtain ⟨inner, hinner, rfl⟩ := Way.ok_mem_map_leave.mp hway
  exact ⟨(h hinner).1, .scopedTo (h hinner).2⟩

section Call

variable {call : Text → List Value → Environment → List Way}

lemma grow_array {elements : List Matcher}
    (h : ∀ {items env env'}, .ok env' ∈ sequenceWays call elements items env →
      env.Grows items env') :
    Grow ((Matcher.array elements).ways call) := by
  intro items env env' n hway
  obtain ⟨shape, inner, others, rfl, rfl, hinner⟩ := Matcher.ok_mem_ways_array.mp hway
  exact ⟨by simp, (h hinner).mono fun v hv => hv.inside List.mem_cons_self⟩

mutual

/-- Environments grow along all ways, if they do along those of every reference. -/
theorem Matcher.grow_ways (hcall : ∀ name, Grow (call name)) : (matcher : Matcher) → Grow
    (matcher.ways call)
  | .constant value => grow_constant value
  | .element name only => grow_element name only
  | .segment name only => grow_segment name only
  | .segmentExact name only => grow_segmentExact name only
  | .rest => grow_rest
  | .array elements => grow_array (grows_of_sequenceWays hcall elements)
  | .choice alternatives => grow_alternativeWays hcall alternatives
  | .reference name => hcall name
  | .letrec rules body => grow_letrec (namedRules rules) (Matcher.grow_ways hcall body)
  | .abstract _ => by
    intro items env env' n hway
    simp [Matcher.ways] at hway

theorem grows_of_sequenceWays (hcall : ∀ name, Grow (call name)) : (elements : List Matcher) →
    {items : List Value} →
    {env env' : Environment} → .ok env' ∈ sequenceWays call elements items env →
      env.Grows items env'
  | [], items, env, env', hway => by
    simp only [sequenceWays] at hway
    split at hway
    · obtain rfl : env' = env := by simpa using hway
      exact .refl _ _
    · simp at hway
  | element :: elements, items, env, env', hway => by
    obtain ⟨env'', n, hfirst, hrest⟩ := ok_mem_followed.mp hway
    have h := (grows_of_sequenceWays hcall elements hrest).mono fun v hv => hv.drop
    exact (Matcher.grow_ways hcall element hfirst).2.trans h

theorem grow_alternativeWays (hcall : ∀ name, Grow (call name)) :
    (alternatives : List Matcher) → Grow (alternativeWays call alternatives)
  | [] => by
    intro items env env' n hway
    simp [alternativeWays] at hway
  | alternative :: alternatives => by
    intro items env env' n hway
    rcases List.mem_append.mp hway with hway | hway
    · exact Matcher.grow_ways hcall alternative hway
    · exact grow_alternativeWays hcall alternatives hway

end

end Call

lemma grow_callWays (stack : Option Nat) (room : Nat) (name : Text) :
    Grow (callWays stack room name) := by
  -- a rule may be any matcher, so the induction is on the references that are left to open
  induction room generalizing name with
  | zero =>
    intro items env env' n hway
    cases h : env.matcher? name <;> simp [callWays, h] at hway
  | succ room ih =>
    intro items env env' n hway
    cases h : env.matcher? name with
    | none => simp [callWays, h] at hway
    | some target =>
      simp only [callWays, h] at hway
      split at hway
      · simp at hway
      · split at hway
        · simp at hway
        · obtain ⟨inner, hinner, rfl⟩ := Way.ok_mem_map_leave.mp hway
          have htarget := Matcher.grow_ways ih target hinner
          exact ⟨htarget.1, .atDepth htarget.2⟩

lemma Matcher.grow_waysFrom (stack : Option Nat) (matcher : Matcher) :
    Grow (matcher.waysFrom stack) :=
  fun _ _ _ _ hway => Matcher.grow_ways (grow_callWays stack _) matcher hway

/-- At every call of a continuation depth, ceiling and rules are those from before the match, the
data has only grown at its end, by what was taken from the list, and no more items are used than
there are. -/
theorem Matcher.grows_of_mem_calls {σ κ : Type} [Answer κ] (stack : Option Nat) (matcher : Matcher)
    (input : Input) (env : Environment) (k : Continuation (Stateful σ) κ) (state : σ)
    {env' : Environment} {n : Nat} (h : (env', n) ∈ matcher.calls stack input env k state) :
    n ≤ input.items.length ∧ env.Grows input.items env' := by
  have hway := (matcher.calls_prefix stack input env k state).subset h
  obtain ⟨interrupt | way, hmem, heq⟩ := List.mem_filterMap.mp hway
  · cases heq
  · cases heq
    exact matcher.grow_waysFrom stack hmem

end

/-- The second call for a segment that grows along a list within the list. -/
theorem Matcher.grows_of_mem_calls_second :
    let name : Text := [.char 'x']
    let items := [Value.list [.int 1, .int 2]]
    let grown := (Environment.empty 5).extend name (.list [.int 1, .int 2])
    let refuse : Continuation (Stateful Unit) (Verdict Success) := fun _ _ => pure (.own default)
    let calls := (Matcher.array [.segment name none, .rest]).calls none ⟨.list, items⟩ (.empty 5)
      refuse ()
    (grown, 1) ∈ calls ∧ 1 ≤ items.length ∧ (Environment.empty 5).Grows items grown := by
  intro name items grown refuse calls
  have h : (grown, 1) ∈ calls := List.mem_cons_of_mem _ List.mem_cons_self
  exact ⟨h, Matcher.grows_of_mem_calls none _ ⟨.list, items⟩ _ refuse () h⟩

end Motif
