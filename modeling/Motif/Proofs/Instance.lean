import Motif.Proofs.Equality
import Motif.Proofs.Outcome
import Motif.Proofs.Scope

/-!
# Instances of patterns

What a pattern without rules stands for, given what its variables stand for. No search plays a part
in it: a run of items is an instance of a pattern under an assignment of values to names. A datum
matches if and only if it is an instance under some assignment, and the data that a match leaves
behind is such an assignment.

The assignment fixes the value of a variable once and for all, whereas the search binds it to the
first item that it meets and compares later ones with that. The two come to the same where equality
is an equivalence.
-/

namespace Motif

section

variable {H : Predicates}

/-! ### Regular data -/

mutual

/-- Whether there is no tuple in a value and nothing that is not a number, at any list nesting. -/
def Value.ordinary : Value → Bool
  | .float .nan => false
  | .seq .tuple _ => false
  | .seq .list items => allOrdinary items
  | _ => true

/-- As `Value.ordinary`, for items. -/
def allOrdinary : List Value → Bool
  | [] => true
  | v :: vs => v.ordinary && allOrdinary vs

end

lemma allOrdinary_iff {vs : List Value} : allOrdinary vs = true ↔ ∀ v ∈ vs, v.ordinary = true := by
  induction vs with
  | nil => simp [allOrdinary]
  | cons v vs ih => simp [allOrdinary, ih]

/-- A value on which equality is an equivalence, and in which lists are the only list shape. -/
structure Value.Regular (v : Value) : Prop where
  proper : v.proper = true
  ordinary : v.ordinary = true

namespace Value.Regular

variable {v w : Value} {items : List Value}

lemma seq_iff {shape : Shape} :
    (Value.seq shape items).Regular ↔ shape = .list ∧ ∀ v ∈ items, v.Regular := by
  constructor
  · rintro ⟨hproper, hordinary⟩
    cases shape with
    | tuple => simp [Value.ordinary] at hordinary
    | list =>
      simp only [Value.proper, properItems_iff] at hproper
      simp only [Value.ordinary, allOrdinary_iff] at hordinary
      exact ⟨rfl, fun v hv => ⟨hproper v hv, hordinary v hv⟩⟩
  · rintro ⟨rfl, h⟩
    exact ⟨by simpa only [Value.proper, properItems_iff] using fun v hv => (h v hv).proper,
      by simpa only [Value.ordinary, allOrdinary_iff] using fun v hv => (h v hv).ordinary⟩

lemma of_within (hitems : ∀ v ∈ items, v.Regular) (h : v.Within items) : v.Regular := by
  induction h with
  | item h => exact hitems _ h
  | inside h _ ih => exact ih (seq_iff.mp (hitems _ h)).2

lemma of_takenFrom (hitems : ∀ v ∈ items, v.Regular) (h : v.TakenFrom items) : v.Regular := by
  cases h with
  | within h => exact of_within hitems h
  | run _ h => exact seq_iff.mpr ⟨rfl, fun v hv => hitems v (h.subset hv)⟩
  | innerRun hinner _ h =>
    exact seq_iff.mpr ⟨rfl, fun v hv => (seq_iff.mp (of_within hitems hinner)).2 v (h.subset hv)⟩

lemma equal_iff (hv : v.Regular) : v.equal w = true ↔ v.alike w = true := by
  refine ⟨alike_of_equal, equal_of_alike ?_⟩
  rintro rfl
  simpa [Value.ordinary] using hv.ordinary

lemma equal_refl (hv : v.Regular) : v.equal v = true := hv.equal_iff.mpr v.alike_refl

lemma equal_symm (hv : v.Regular) (hw : w.Regular) (h : v.equal w = true) : w.equal v = true :=
  hw.equal_iff.mpr (v.alike_symm hv.proper (alike_of_equal h))

/-- What is alike to the same is equal. -/
lemma equal_of_alike_of_alike {u : Value} (hv : v.Regular) (hw : w.Regular)
    (h : v.alike u = true) (h' : w.alike u = true) : v.equal w = true :=
  hv.equal_iff.mpr (v.alike_trans h (w.alike_symm hw.proper h'))

end Value.Regular

/-- An environment without rules in which all data is regular. -/
structure Environment.Regular (env : Environment) : Prop where
  rules : env.rules = []
  bindings : ∀ ⦃name v⦄, env.bindings.lookup name = some v → v.Regular

namespace Environment.Regular

variable {env env' : Environment} {items : List Value}

lemma empty (maxDepth : Int) : (Environment.empty maxDepth).Regular :=
  ⟨rfl, by simp [Environment.empty]⟩

lemma get?_eq (henv : env.Regular) (name : Text) : env.get? name = env.bindings.lookup name := by
  simp only [get?, henv.rules, List.lookup_nil]
  cases env.bindings.lookup name <;> rfl

lemma of_grows (henv : env.Regular) (hitems : ∀ v ∈ items, v.Regular)
    (h : env.Grows items env') : env'.Regular := by
  refine ⟨h.rules.trans henv.rules, fun name v hname => ?_⟩
  rcases h.lookup_or_takenFrom hname with hname | hv
  · exact henv.bindings hname
  · exact .of_takenFrom hitems hv

end Environment.Regular

/-! ### Instances -/

/-- Values assigned to names. -/
abbrev Assignment := Text → Option Value

/-- The assignment of names to what they are bound to. -/
def Environment.assignment (env : Environment) : Assignment := (env.bindings.lookup ·)

/-- Whether items equal values one by one, each item allowed. -/
def Repeats [Predicates] (only : Option Restriction) (items vs : List Value) : Prop :=
  items.Forall₂ (fun item v => item.equal v = true ∧ allowed only item = true) vs

mutual

/-- Under an assignment, `run` is an instance of a pattern when the items `rest` come after it in
its list. -/
inductive Instance [Predicates] (σ : Assignment) : Matcher → (run rest : List Value) → Prop where
  | constant {value item : Value} {rest : List Value} (h : item.equal value = true) :
    Instance σ (.constant value) [item] rest
  | element {name : Text} {only : Option Restriction} {item v : Value} {rest : List Value}
    (hname : σ name = some v) (h : item.equal v = true) (hallowed : allowed only item = true) :
    Instance σ (.element name only) [item] rest
  | segment {name : Text} {only : Option Restriction} {run vs rest : List Value}
    (hname : σ name = some (.list vs)) (hvs : vs ≠ []) (h : Repeats only run vs) :
    Instance σ (.segment name only) run rest
  | segmentExact {name : Text} {only : Option Restriction} {run : List Value}
    (h : Instance σ (.segment name only) run []) : Instance σ (.segmentExact name only) run []
  | rest {run rest : List Value} : Instance σ .rest run rest
  | array {elements : List Matcher} {items rest : List Value} (h : Instances σ elements items) :
    Instance σ (.array elements) [.list items] rest
  | choice {alternatives : List Matcher} {alternative : Matcher} {run rest : List Value}
    (hmem : alternative ∈ alternatives) (h : Instance σ alternative run rest) :
    Instance σ (.choice alternatives) run rest

/-- Under an assignment, the items of a list split into instances of patterns, one after the
other. -/
inductive Instances [Predicates] (σ : Assignment) : List Matcher → List Value → Prop where
  | nil : Instances σ [] []
  | cons {element : Matcher} {elements : List Matcher} {run rest : List Value}
    (h : Instance σ element run rest) (hrest : Instances σ elements rest) :
    Instances σ (element :: elements) (run ++ rest)

end

/-- What stands for no item at all is filler, and stands for any run. -/
theorem Instance.of_empty {σ : Assignment} : {pattern : Matcher} → {run rest : List Value} →
    Instance σ pattern run rest → run = [] → (run' rest' : List Value) →
    Instance σ pattern run' rest'
  | _, _, _, .segment _ hvs h, hrun, _, _ => by
    subst hrun
    cases h
    exact absurd rfl hvs
  | _, _, _, .segmentExact (.segment _ hvs h), hrun, _, _ => by
    subst hrun
    cases h
    exact absurd rfl hvs
  | _, _, _, .rest, _, _, _ => .rest
  | _, _, _, .choice hmem h, hrun, run', rest' => .choice hmem (h.of_empty hrun run' rest')

/-! ### Every way is an instance -/

/-- An assignment has the data of an environment. -/
def Assignment.Extends (σ : Assignment) (env : Environment) : Prop :=
  ∀ ⦃name v⦄, env.bindings.lookup name = some v → σ name = some v

lemma Assignment.Extends.of_grows {σ : Assignment} {items : List Value} {env env' : Environment}
    (h : env.Grows items env') (hσ : σ.Extends env') : σ.Extends env :=
  fun _ _ hname => hσ (h.lookup_eq_some hname)

lemma Assignment.Extends.bound {σ : Assignment} {env : Environment} {name : Text} {v : Value}
    (hσ : σ.Extends (env.extend name v)) : σ name = some v :=
  hσ (Table.lookup_insert_self name v env.bindings)

lemma repeats_of_replays {only : Option Restriction} {expected items : List Value}
    (h : replays only expected items = true) :
    Repeats only (items.take expected.length) expected := by
  induction expected generalizing items with
  | nil => exact .nil
  | cons v expected ih =>
    cases items with
    | nil => simp [replays] at h
    | cons item items =>
      simp only [replays, Bool.and_eq_true] at h
      exact .cons h.1 (ih h.2)

section Sound

variable {σ : Assignment} {items : List Value} {env env' : Environment} {n : Nat}

lemma instance_of_constantWays {value : Value} (hway : (env', n) ∈ constantWays value items env) :
    Instance σ (.constant value) (items.take n) (items.drop n) := by
  obtain ⟨item, others, rfl, hequal, -, rfl⟩ := mem_constantWays.mp hway
  exact .constant hequal

lemma instance_of_elementWays {name : Text} {only : Option Restriction}
    (hitems : ∀ v ∈ items, v.Regular) (henv : env.Regular) (hσ : σ.Extends env')
    (hway : (env', n) ∈ elementWays name only items env) :
    Instance σ (.element name only) (items.take n) (items.drop n) := by
  obtain ⟨item, others, rfl, hallowed, rfl, h⟩ := mem_elementWays.mp hway
  have hitem := hitems item List.mem_cons_self
  rcases h with ⟨-, rfl⟩ | ⟨bound, hbound, hequal, rfl⟩
  · exact .element hσ.bound hitem.equal_refl hallowed
  · rw [henv.get?_eq] at hbound
    exact .element (hσ hbound) ((henv.bindings hbound).equal_symm hitem hequal) hallowed

lemma instance_of_segmentWays {name : Text} {only : Option Restriction}
    (hitems : ∀ v ∈ items, v.Regular) (henv : env.Regular) (hσ : σ.Extends env')
    (hway : (env', n) ∈ segmentWays name only items env) (rest : List Value) :
    Instance σ (.segment name only) (items.take n) rest := by
  rcases mem_segmentWays.mp hway with ⟨-, hn, rfl⟩ | ⟨shape, vs, hbound, hvs, hreplays, rfl, rfl⟩
  · obtain ⟨-, -, hallowed⟩ := mem_segmentLengths.mp hn
    have hrun := take_ne_nil_of_mem_segmentLengths hn
    refine .segment hσ.bound hrun (List.forall₂_same.mpr fun item hitem => ?_)
    exact ⟨(hitems item (List.mem_of_mem_take hitem)).equal_refl, hallowed item hitem⟩
  · rw [henv.get?_eq] at hbound
    obtain ⟨rfl, -⟩ := Value.Regular.seq_iff.mp (henv.bindings hbound)
    exact .segment (hσ hbound) hvs (repeats_of_replays hreplays)

/-- The kinds of matchers that patterns without rules are built from. -/
def MatcherKind.ruleless : List MatcherKind :=
  [.constant, .element, .segment, .rest, .array, .choice]

variable {call : Text → List Value → Environment → List Way}

mutual

/-- What a way uses is an instance under every assignment that has the data it leaves behind. -/
theorem Matcher.instance_of_mem_ways (hcall : ∀ name, Grow (call name)) : (pattern : Matcher) →
    pattern.builtFrom MatcherKind.ruleless = true → {items : List Value} →
    (∀ v ∈ items, v.Regular) → {env env' : Environment} → env.Regular → σ.Extends env' →
    {n : Nat} → .ok (env', n) ∈ pattern.ways call items env →
    Instance σ pattern (items.take n) (items.drop n)
  | .constant value, _, items, _, env, env', _, _, n, hway =>
    instance_of_constantWays (Way.ok_mem_map_ok.mp hway)
  | .element name only, _, items, hitems, env, env', henv, hσ, n, hway =>
    instance_of_elementWays hitems henv hσ (Way.ok_mem_map_ok.mp hway)
  | .segment name only, _, items, hitems, env, env', henv, hσ, n, hway =>
    instance_of_segmentWays hitems henv hσ (Way.ok_mem_map_ok.mp hway) _
  | .segmentExact name only, _, items, hitems, env, env', henv, hσ, n, hway => by
    obtain ⟨hway, hn⟩ := List.mem_filter.mp (Way.ok_mem_map_ok.mp hway)
    obtain rfl : n = items.length := by simpa using hn
    rw [List.drop_length]
    exact .segmentExact (instance_of_segmentWays hitems henv hσ hway [])
  | .rest, _, _, _, _, _, _, _, _, _ => .rest
  | .array elements, hbuilt, items, hitems, env, env', henv, hσ, n, hway => by
    simp only [Matcher.builtFrom, Bool.and_eq_true] at hbuilt
    obtain ⟨shape, inner, others, rfl, rfl, hinner⟩ := Matcher.ok_mem_ways_array.mp hway
    obtain ⟨rfl, hregular⟩ := Value.Regular.seq_iff.mp (hitems _ List.mem_cons_self)
    exact .array (instances_of_mem_sequenceWays hcall elements hbuilt.2 hregular henv hσ hinner)
  | .choice alternatives, hbuilt, items, hitems, env, env', henv, hσ, n, hway => by
    simp only [Matcher.builtFrom, Bool.and_eq_true] at hbuilt
    obtain ⟨alternative, hmem, h⟩ :=
      instance_of_mem_alternativeWays hcall alternatives hbuilt.2 hitems henv hσ hway
    exact .choice hmem h
  | .reference _, hbuilt, _, _, _, _, _, _, _, _ => by cases hbuilt
  | .letrec .., hbuilt, _, _, _, _, _, _, _, _ => by cases hbuilt
  | .abstract _, hbuilt, _, _, _, _, _, _, _, _ => by cases hbuilt

theorem instances_of_mem_sequenceWays (hcall : ∀ name, Grow (call name)) :
    (elements : List Matcher) →
    allBuiltFrom MatcherKind.ruleless elements = true → {items : List Value} →
    (∀ v ∈ items, v.Regular) → {env env' : Environment} → env.Regular → σ.Extends env' →
    .ok env' ∈ sequenceWays call elements items env → Instances σ elements items
  | [], _, items, _, env, env', _, _, hway => by
    simp only [sequenceWays] at hway
    split at hway
    · rename_i hempty
      rw [List.isEmpty_iff.mp hempty]
      exact .nil
    · simp at hway
  | element :: elements, hbuilt, items, hitems, env, env', henv, hσ, hway => by
    simp only [allBuiltFrom, Bool.and_eq_true] at hbuilt
    obtain ⟨between, n, hfirst, hrest⟩ := ok_mem_followed.mp hway
    have hgrow := (Matcher.grow_ways hcall element hfirst).2
    have hafter : between.Grows _ env' := grows_of_sequenceWays hcall elements hrest
    have helement :=
      Matcher.instance_of_mem_ways hcall element hbuilt.1 hitems henv (hσ.of_grows hafter) hfirst
    have helements := instances_of_mem_sequenceWays hcall elements hbuilt.2
      (fun v hv => hitems v (List.mem_of_mem_drop hv)) (henv.of_grows hitems hgrow) hσ hrest
    simpa using Instances.cons helement helements

theorem instance_of_mem_alternativeWays (hcall : ∀ name, Grow (call name)) :
    (alternatives : List Matcher) →
    allBuiltFrom MatcherKind.ruleless alternatives = true → {items : List Value} →
    (∀ v ∈ items, v.Regular) → {env env' : Environment} → env.Regular → σ.Extends env' →
    {n : Nat} → .ok (env', n) ∈ alternativeWays call alternatives items env →
    ∃ alternative ∈ alternatives, Instance σ alternative (items.take n) (items.drop n)
  | [], _, _, _, _, _, _, _, _, hway => by simp [alternativeWays] at hway
  | alternative :: alternatives, hbuilt, items, hitems, env, env', henv, hσ, n, hway => by
    simp only [allBuiltFrom, Bool.and_eq_true] at hbuilt
    rcases List.mem_append.mp hway with hway | hway
    · exact ⟨alternative, List.mem_cons_self,
        Matcher.instance_of_mem_ways hcall alternative hbuilt.1 hitems henv hσ hway⟩
    · obtain ⟨other, hmem, h⟩ :=
        instance_of_mem_alternativeWays hcall alternatives hbuilt.2 hitems henv hσ hway
      exact ⟨other, List.mem_cons_of_mem _ hmem, h⟩

end

end Sound

/-! ### Every instance is found -/

/-- The data of an environment is what an assignment gives, up to likeness. -/
def Environment.Agrees (env : Environment) (σ : Assignment) : Prop :=
  ∀ ⦃name v⦄, env.bindings.lookup name = some v → ∃ w, σ name = some w ∧ v.alike w = true

lemma Environment.Agrees.extend {env : Environment} {σ : Assignment} (h : env.Agrees σ)
    {name : Text} {v w : Value} (hname : σ name = some w) (hv : v.alike w = true) :
    (env.extend name v).Agrees σ := by
  intro other u (hother : (env.bindings.insert name v).lookup other = some u)
  by_cases hne : other = name
  · subst hne
    obtain rfl : v = u := by simpa using hother
    exact ⟨w, hname, hv⟩
  · exact h (Table.lookup_insert_of_ne v env.bindings hne ▸ hother)

lemma alikeItems_of_repeats {only : Option Restriction} {items vs : List Value}
    (h : Repeats only items vs) : alikeItems items vs = true :=
  alikeItems_iff.mpr (h.imp fun _ _ hitem => Value.alike_of_equal hitem.1)

lemma allowed_of_repeats {only : Option Restriction} {items vs : List Value}
    (h : Repeats only items vs) : ∀ item ∈ items, allowed only item = true := by
  induction h with
  | nil => simp
  | cons h _ ih => exact List.forall_mem_cons.mpr ⟨h.2, ih⟩

/-- Items that repeat values replay all that is alike to these. -/
lemma replays_of_repeats {only : Option Restriction} {items vs us : List Value}
    (hitems : ∀ v ∈ items, v.Regular) (hus : ∀ v ∈ us, v.Regular) (h : Repeats only items vs)
    (halike : alikeItems us vs = true) (rest : List Value) :
    replays only us (items ++ rest) = true := by
  induction h generalizing us with
  | nil =>
    obtain rfl : us = [] := by simpa using halike
    rfl
  | @cons item v items vs hitem _ ih =>
    obtain ⟨u, us', hu, htail, rfl⟩ := List.forall₂_cons_right_iff.mp (alikeItems_iff.mp halike)
    obtain ⟨hfirst, hothers⟩ := List.forall_mem_cons.mp hitems
    obtain ⟨hu', hus'⟩ := List.forall_mem_cons.mp hus
    have hequal := hfirst.equal_of_alike_of_alike hu' (Value.alike_of_equal hitem.1) hu
    simp only [List.cons_append, replays, hequal, hitem.2, Bool.true_and]
    exact ih hothers hus' (alikeItems_iff.mpr htail)

section Complete

variable {σ : Assignment} {run : List Value} {env : Environment}

lemma exists_mem_elementWays {name : Text} {only : Option Restriction} {item w : Value}
    (hitem : item.Regular) (henv : env.Regular) (hagrees : env.Agrees σ)
    (hname : σ name = some w) (h : item.equal w = true) (hallowed : allowed only item = true)
    (rest : List Value) :
    ∃ env', (env', 1) ∈ elementWays name only (item :: rest) env ∧ env'.Agrees σ := by
  have halike := Value.alike_of_equal h
  cases hbound : env.bindings.lookup name with
  | none =>
    refine ⟨env.extend name item, mem_elementWays.mpr ?_, hagrees.extend hname halike⟩
    exact ⟨item, rest, rfl, hallowed, rfl, .inl ⟨henv.get?_eq name ▸ hbound, rfl⟩⟩
  | some bound =>
    obtain ⟨w', hw', hbound'⟩ := hagrees hbound
    obtain rfl : w = w' := by simpa [hname] using hw'
    have hequal := (henv.bindings hbound).equal_of_alike_of_alike hitem hbound' halike
    refine ⟨env, mem_elementWays.mpr ?_, hagrees⟩
    exact ⟨item, rest, rfl, hallowed, rfl, .inr ⟨bound, henv.get?_eq name ▸ hbound, hequal, rfl⟩⟩

lemma exists_mem_segmentWays {name : Text} {only : Option Restriction} {vs : List Value}
    (hrun : ∀ v ∈ run, v.Regular) (henv : env.Regular) (hagrees : env.Agrees σ)
    (hname : σ name = some (.list vs)) (hvs : vs ≠ []) (h : Repeats only run vs)
    (rest : List Value) :
    ∃ env', (env', run.length) ∈ segmentWays name only (run ++ rest) env ∧ env'.Agrees σ := by
  have halike := alikeItems_of_repeats h
  cases hbound : env.bindings.lookup name with
  | none =>
    have hpos : 0 < run.length := h.length_eq ▸ List.length_pos_iff.mpr hvs
    have hn : run.length ∈ segmentLengths only (run ++ rest) :=
      mem_segmentLengths.mpr ⟨hpos, by simp, by simpa using allowed_of_repeats h⟩
    refine ⟨env.extend name (.list run), mem_segmentWays.mpr (.inl ⟨?_, hn, by simp⟩), ?_⟩
    · rw [henv.get?_eq, hbound]
    · exact hagrees.extend hname (Value.alike_seq.mpr ⟨vs, rfl, halike⟩)
  | some bound =>
    obtain ⟨w, hw, hbound'⟩ := hagrees hbound
    obtain rfl : Value.list vs = w := by simpa [hname] using hw
    -- what is alike to a list is a list itself
    obtain ⟨us, rfl, -⟩ := Value.alike_seq.mp
      (bound.alike_symm (henv.bindings hbound).proper hbound')
    have hus : alikeItems us vs = true := by simpa using hbound'
    have hregular := (Value.Regular.seq_iff.mp (henv.bindings hbound)).2
    have hlength : us.length = vs.length := (alikeItems_iff.mp hus).length_eq
    have hne : us ≠ [] := List.length_pos_iff.mp (hlength ▸ List.length_pos_iff.mpr hvs)
    have hreplays := replays_of_repeats hrun hregular h hus rest
    refine ⟨env, mem_segmentWays.mpr (.inr ⟨.list, us, ?_, hne, hreplays, rfl, ?_⟩), hagrees⟩
    · rw [henv.get?_eq, hbound]
    · rw [hlength, h.length_eq]

variable {call : Text → List Value → Environment → List Way}

mutual

/-- An instance is found from every environment whose data agrees with the assignment. -/
theorem Instance.exists_mem_ways (hcall : ∀ name, Grow (call name)) : {pattern : Matcher} →
    {run rest : List Value} →
    Instance σ pattern run rest → (∀ v ∈ run ++ rest, v.Regular) → {env : Environment} →
    env.Regular → env.Agrees σ →
    ∃ env', .ok (env', run.length) ∈ pattern.ways call (run ++ rest) env ∧ env'.Agrees σ
  | _, _, _, .constant h, _, env, _, hagrees =>
    ⟨env, Way.ok_mem_map_ok.mpr (mem_constantWays.mpr ⟨_, _, rfl, h, rfl, rfl⟩), hagrees⟩
  | _, _, rest, .element hname h hallowed, hitems, env, henv, hagrees => by
    obtain ⟨env', hway, hagrees'⟩ :=
      exists_mem_elementWays (hitems _ List.mem_cons_self) henv hagrees hname h hallowed rest
    exact ⟨env', Way.ok_mem_map_ok.mpr hway, hagrees'⟩
  | _, run, rest, .segment hname hvs h, hitems, env, henv, hagrees => by
    obtain ⟨env', hway, hagrees'⟩ := exists_mem_segmentWays
      (fun v hv => hitems v (List.mem_append_left _ hv)) henv hagrees hname hvs h rest
    exact ⟨env', Way.ok_mem_map_ok.mpr hway, hagrees'⟩
  | _, run, _, .segmentExact (.segment hname hvs h), hitems, env, henv, hagrees => by
    obtain ⟨env', hway, hagrees'⟩ := exists_mem_segmentWays
      (fun v hv => hitems v (List.mem_append_left _ hv)) henv hagrees hname hvs h []
    have hwhole : run.length = (run ++ []).length := by simp
    exact ⟨env', Way.ok_mem_map_ok.mpr (List.mem_filter.mpr ⟨hway, decide_eq_true hwhole⟩),
      hagrees'⟩
  | _, run, rest, .rest, _, env, _, hagrees =>
    ⟨env, Way.ok_mem_map_ok.mpr (mem_restWays.mpr ⟨rfl, by simp⟩), hagrees⟩
  | _, _, rest, .array h, hitems, env, henv, hagrees => by
    have hregular := (Value.Regular.seq_iff.mp (hitems _ List.mem_cons_self)).2
    obtain ⟨env', hway, hagrees'⟩ := Instances.exists_mem_sequenceWays hcall h hregular henv hagrees
    exact ⟨env', Matcher.ok_mem_ways_array.mpr ⟨_, _, rest, rfl, rfl, hway⟩, hagrees'⟩
  | _, _, _, .choice hmem h, hitems, env, henv, hagrees => by
    obtain ⟨env', hway, hagrees'⟩ := Instance.exists_mem_ways hcall h hitems henv hagrees
    exact ⟨env', mem_alternativeWays.mpr ⟨_, hmem, hway⟩, hagrees'⟩

theorem Instances.exists_mem_sequenceWays (hcall : ∀ name, Grow (call name)) :
    {elements : List Matcher} → {items : List Value} →
    Instances σ elements items → (∀ v ∈ items, v.Regular) → {env : Environment} → env.Regular →
    env.Agrees σ → ∃ env', .ok env' ∈ sequenceWays call elements items env ∧ env'.Agrees σ
  | _, _, .nil, _, env, _, hagrees => ⟨env, by simp [sequenceWays], hagrees⟩
  | _, _, @Instances.cons _ _ element elements run rest h hrest, hitems, env, henv, hagrees => by
    obtain ⟨between, hfirst, hbetween⟩ := Instance.exists_mem_ways hcall h hitems henv hagrees
    have hgrow := (Matcher.grow_ways hcall element hfirst).2
    obtain ⟨env', hway, hagrees'⟩ := Instances.exists_mem_sequenceWays hcall hrest
      (fun v hv => hitems v (List.mem_append_right _ hv)) (henv.of_grows hitems hgrow) hbetween
    refine ⟨env', ok_mem_followed.mpr ⟨between, run.length, hfirst, ?_⟩, hagrees'⟩
    rw [List.drop_left]
    exact hway

end

end Complete

/-! ### Matching is being an instance -/

lemma Matcher.instance_of_mem_waysOf {limits : Limits} {pattern : Matcher} {datum : Value}
    (hbuilt : pattern.builtFrom MatcherKind.ruleless = true) (hdatum : datum.Regular)
    {env : Environment} {n : Nat} (hway : .ok (env, n) ∈ pattern.waysOf limits datum) :
    Instance env.assignment pattern [datum] [] := by
  have hitems : ∀ v ∈ [datum], v.Regular := by simpa using hdatum
  have hextends : env.assignment.Extends env := fun _ _ hname => hname
  have h := Matcher.instance_of_mem_ways (grow_callWays limits.stack _) pattern hbuilt hitems
    (.empty _) hextends hway
  -- filler may leave the datum where it is
  match n with
  | 0 => exact h.of_empty rfl [datum] []
  | n + 1 => simpa using h

/-- A pattern without rules matches a datum exactly if the datum is an instance of it under some
assignment; the data that the match leaves behind is such an assignment. Every datum is proper whose
dictionaries are made from entries. -/
theorem Matcher.matched_iff_exists_instance (limits : Limits) (pattern : Matcher) (datum : Value)
    (hbuilt : pattern.builtFrom MatcherKind.ruleless = true) (hproper : datum.proper = true)
    (hordinary : datum.ordinary = true) :
    ∃ outcome, pattern.outcome limits datum = .ok outcome ∧
      (outcome.matched = true ↔ ∃ σ, Instance σ pattern [datum] []) ∧
      ∀ result, outcome = .success result →
        Instance result.environment.assignment pattern [datum] [] := by
  have hdatum : datum.Regular := ⟨hproper, hordinary⟩
  obtain ⟨outcome, houtcome, hmatched, hresult⟩ := Matcher.exists_outcome limits pattern datum
    fun _ => Matcher.not_error_mem_ways (by decide) pattern hbuilt
  refine ⟨outcome, houtcome, hmatched.trans ⟨?_, ?_⟩, fun result hsuccess =>
    Matcher.instance_of_mem_waysOf hbuilt hdatum (hresult result hsuccess)⟩
  · rintro ⟨env, n, hway⟩
    exact ⟨env.assignment, Matcher.instance_of_mem_waysOf hbuilt hdatum hway⟩
  · rintro ⟨σ, h⟩
    obtain ⟨env, hway, -⟩ := h.exists_mem_ways (grow_callWays limits.stack _)
      (by simpa using hdatum) (.empty _) (fun _ _ hname => by simp [Environment.empty] at hname)
    exact ⟨env, 1, hway⟩

end

/-- A segment that must be seen twice, the second time with a truth value for a number. -/
theorem Matcher.matched_iff_exists_instance_twice :
    let name : Text := [.char 's']
    let pattern := Matcher.array [.segment name none, .segment name none]
    let datum := Value.list [.int 1, .int 2, .bool true, .int 2]
    pattern.builtFrom MatcherKind.ruleless = true ∧ datum.proper = true ∧ datum.ordinary = true ∧
      ∃ result, pattern.outcome {} datum = .ok (.success result) := by
  intro name pattern datum
  have hbuilt : pattern.builtFrom MatcherKind.ruleless = true := rfl
  have hproper : datum.proper = true := rfl
  have hordinary : datum.ordinary = true := rfl
  obtain ⟨outcome, houtcome, hmatched, -⟩ :=
    Matcher.matched_iff_exists_instance {} pattern datum hbuilt hproper hordinary
  have hfirst : Repeats none [.int 1, .int 2] [.int 1, .int 2] := by
    simp [Repeats, Value.equal, Value.alike_refl, allowed]
  have hsecond : Repeats none [.bool true, .int 2] [.int 1, .int 2] := by
    simp [Repeats, Value.equal, Value.alike_refl, allowed, Value.alike_of_quantity,
      Value.quantity?]
  let σ : Assignment := fun _ => some (.list [.int 1, .int 2])
  have hlast : Instances σ [.segment name none] ([.bool true, .int 2] ++ []) :=
    .cons (.segment rfl (List.cons_ne_nil _ _) hsecond) .nil
  have h : Instance σ pattern [datum] [] :=
    .array (.cons (.segment rfl (List.cons_ne_nil _ _) hfirst) hlast)
  cases outcome with
  | failure f => cases hmatched.mpr ⟨_, h⟩
  | success result => exact ⟨hbuilt, hproper, hordinary, result, houtcome⟩

end Motif
