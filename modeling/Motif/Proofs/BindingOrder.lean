import Motif.Proofs.Attempts
import Motif.Proofs.Rules
import Mathlib

/-!
# The order of bindings

A pattern without choices and rules leaves nothing open about what it binds: a match that succeeds
has come to all of its variables from left to right, each of which is bound where it first stands
and stays in its place when it is met again. Whatever the search has tried and given up before, the
values of a success stand for the same variables in the same order.
-/

namespace Motif

section

variable {H : Predicates}

/-! ### First occurrences -/

section

variable {α : Type} [BEq α] [LawfulBEq α]

lemma eraseDups_concat (l : List α) (a : α) :
    (l ++ [a]).eraseDups = if a ∈ l then l.eraseDups else l.eraseDups ++ [a] := by
  rw [List.eraseDups_append]
  by_cases ha : a ∈ l <;> simp [List.removeAll, List.eraseDups_cons, ha]

lemma eraseDups_eraseDups (l : List α) : l.eraseDups.eraseDups = l.eraseDups := by
  induction l using List.reverseRecOn with
  | nil => rfl
  | append_singleton l a ih =>
    rw [eraseDups_concat]
    split
    · exact ih
    · rename_i ha
      rw [eraseDups_concat, if_neg (mt List.mem_eraseDups.mp ha), ih]

lemma eraseDups_append_eraseDups (l l' : List α) :
    (l.eraseDups ++ l').eraseDups = (l ++ l').eraseDups := by
  induction l' using List.reverseRecOn with
  | nil => rw [List.append_nil, List.append_nil, eraseDups_eraseDups]
  | append_singleton l' a ih =>
    rw [← List.append_assoc, ← List.append_assoc, eraseDups_concat, eraseDups_concat, ih]
    simp only [List.mem_append, List.mem_eraseDups]

lemma nodup_eraseDups (l : List α) : l.eraseDups.Nodup := by
  induction l using List.reverseRecOn with
  | nil => exact .nil
  | append_singleton l a ih =>
    rw [eraseDups_concat]
    split
    · exact ih
    · rename_i ha
      rw [← List.concat_eq_append]
      exact ih.concat (mt List.mem_eraseDups.mp ha)

end

/-! ### Names along ways -/

/-- In an environment without rules the names that are bound after each of the ways are those from
before and then `names`, each where it first occurs. -/
def Binds (names : List Text) (ways : List Value → Environment → List Way) : Prop :=
  ∀ ⦃items : List Value⦄ ⦃env env' : Environment⦄ ⦃n : Nat⦄, env.rules = [] →
    env.bindings.names.eraseDups = env.bindings.names → .ok (env', n) ∈ ways items env →
      env'.bindings.names = (env.bindings.names ++ names).eraseDups

section

variable {name : Text} {only : Option Restriction} {items : List Value} {env env' : Environment}
  {n : Nat}

/-- A new name comes after those that are bound. -/
lemma names_extend (hnames : env.bindings.names.eraseDups = env.bindings.names)
    (hname : env.get? name = none) (v : Value) :
    (env.extend name v).bindings.names = (env.bindings.names ++ [name]).eraseDups := by
  have hnew : name ∉ env.bindings.names := (Environment.get?_eq_none_iff.mp hname).1
  rw [eraseDups_concat, if_neg hnew, hnames, Environment.extend,
    Table.insert_of_lookup_eq_none v (Table.lookup_eq_none_iff.mpr hnew), Table.names,
    List.map_append]
  rfl

/-- A name that is bound already stays where it is. -/
lemma names_of_bound (hrules : env.rules = [])
    (hnames : env.bindings.names.eraseDups = env.bindings.names) {bound : Value}
    (hname : env.get? name = some bound) :
    env.bindings.names = (env.bindings.names ++ [name]).eraseDups := by
  have hold : name ∈ env.bindings.names := by
    by_contra hnew
    rw [Environment.get?_eq_none_iff.mpr ⟨hnew, by simp [hrules, Table.names]⟩] at hname
    cases hname
  rw [eraseDups_concat, if_pos hold, hnames]

lemma binds_nothing {ways : List Value → Environment → List Way}
    (h : ∀ {items env env' n}, .ok (env', n) ∈ ways items env → env' = env) : Binds [] ways := by
  intro items env env' n _ hnames hway
  rw [h hway, List.append_nil, hnames]

lemma binds_elementWays (name : Text) (only : Option Restriction) :
    Binds [name] fun items env => (elementWays name only items env).map .ok := by
  intro items env env' n hrules hnames hway
  obtain ⟨item, _, -, -, -, h⟩ := mem_elementWays.mp (Way.ok_mem_map_ok.mp hway)
  rcases h with ⟨hname, rfl⟩ | ⟨bound, hname, -, rfl⟩
  · exact names_extend hnames hname item
  · exact names_of_bound hrules hnames hname

lemma names_of_mem_segmentWays (hrules : env.rules = [])
    (hnames : env.bindings.names.eraseDups = env.bindings.names)
    (hway : (env', n) ∈ segmentWays name only items env) :
    env'.bindings.names = (env.bindings.names ++ [name]).eraseDups := by
  rcases mem_segmentWays.mp hway with ⟨hname, -, rfl⟩ | ⟨shape, vs, hname, -, -, rfl, -⟩
  · exact names_extend hnames hname _
  · exact names_of_bound hrules hnames hname

end

section

variable {stack : Option Nat} {room : Nat}

mutual

/-- A pattern without choices and rules binds its variables in their order. -/
theorem Matcher.binds_ways : (pattern : Matcher) →
    pattern.builtFrom MatcherKind.choiceless = true →
    Binds pattern.variables (pattern.ways (callWays stack room))
  | .constant _, _ => binds_nothing fun hway => by
    obtain ⟨_, _, -, -, rfl, -⟩ := mem_constantWays.mp (Way.ok_mem_map_ok.mp hway)
    rfl
  | .element name only, _ => binds_elementWays name only
  | .segment _ _, _ => fun _ _ _ _ hrules hnames hway =>
    names_of_mem_segmentWays hrules hnames (Way.ok_mem_map_ok.mp hway)
  | .segmentExact _ _, _ => fun _ _ _ _ hrules hnames hway =>
    names_of_mem_segmentWays hrules hnames (List.mem_filter.mp (Way.ok_mem_map_ok.mp hway)).1
  | .rest, _ => binds_nothing fun hway => (mem_restWays.mp (Way.ok_mem_map_ok.mp hway)).1
  | .array elements, hbuilt => by
    simp only [Matcher.builtFrom, Bool.and_eq_true] at hbuilt
    intro items env env' n hrules hnames hway
    obtain ⟨_, inner, _, -, -, hinner⟩ := Matcher.ok_mem_ways_array.mp hway
    exact names_of_mem_sequenceWays elements hbuilt.2 hrules hnames hinner
  | .choice _, hbuilt => by cases hbuilt
  | .reference _, hbuilt => by cases hbuilt
  | .letrec .., hbuilt => by cases hbuilt
  | .abstract _, hbuilt => by cases hbuilt

theorem names_of_mem_sequenceWays : (elements : List Matcher) →
    allBuiltFrom MatcherKind.choiceless elements = true → {items : List Value} →
    {env env' : Environment} → env.rules = [] →
    env.bindings.names.eraseDups = env.bindings.names →
    .ok env' ∈ sequenceWays (callWays stack room) elements items env →
    env'.bindings.names =
      (env.bindings.names ++ (allParts elements).filterMap Matcher.binds?).eraseDups
  | [], _, items, env, env', _, hnames, hway => by
    rw [sequenceWays] at hway
    split at hway
    · cases List.mem_singleton.mp hway
      exact (congrArg List.eraseDups (List.append_nil _)).trans hnames |>.symm
    · cases hway
  | element :: elements, hbuilt, items, env, env', hrules, hnames, hway => by
    simp only [allBuiltFrom, Bool.and_eq_true] at hbuilt
    obtain ⟨env'', n, hfirst, hrest⟩ := ok_mem_followed.mp hway
    have hrules'' : env''.rules = [] :=
      (Matcher.grow_ways (grow_callWays stack room) element hfirst).2.rules.trans hrules
    have hfirst' := Matcher.binds_ways element hbuilt.1 hrules hnames hfirst
    have hnames'' : env''.bindings.names.eraseDups = env''.bindings.names := by
      rw [hfirst', eraseDups_eraseDups]
    rw [names_of_mem_sequenceWays elements hbuilt.2 hrules'' hnames'' hrest, hfirst',
      eraseDups_append_eraseDups, List.append_assoc, allParts, List.filterMap_append]
    rfl

end

end

/-! ### Bindings of a success -/

/-- Values by position are the values of the names by position, where no name is given twice. -/
lemma Table.map_lookup_names {α : Type} {t : Table α} (h : t.names.Nodup) :
    t.names.map (fun name => t.lookup name) = (t.map Prod.snd).map some := by
  rw [names, List.map_map, List.map_map]
  refine List.map_congr_left fun member hmem => ?_
  obtain ⟨name, v⟩ := member
  obtain ⟨before, after, rfl⟩ := List.append_of_mem hmem
  refine List.lookup_eq_some_iff.mpr ⟨before, after, rfl, fun entry hentry => ?_⟩
  rw [names, List.map_append, List.map_cons, List.nodup_middle] at h
  rw [bne_iff_ne]
  rintro rfl
  exact (List.nodup_cons.mp h).1 (List.mem_append_left _ (List.mem_map.mpr ⟨entry, hentry, rfl⟩))

/-- A pattern without choices and rules binds its variables and nothing else, in the order in which
they first stand in it, each once. So a success has as many values as the pattern has variables, and
each stands for the variable of its position. -/
theorem Matcher.names_of_outcome {pattern : Matcher}
    (hbuilt : pattern.builtFrom MatcherKind.choiceless = true) {limits : Limits} {datum : Value}
    {result : Success} (h : pattern.outcome limits datum = .ok (.success result)) :
    result.environment.bindings.names = pattern.variables.eraseDups ∧
      result.environment.arguments.map some =
        pattern.variables.eraseDups.map fun name => result.environment.bindings.lookup name := by
  have hnames : result.environment.bindings.names = pattern.variables.eraseDups :=
    Matcher.binds_ways pattern hbuilt rfl rfl (Matcher.mem_waysOf_of_outcome h)
  refine ⟨hnames, ?_⟩
  rw [← hnames]
  exact (Table.map_lookup_names (hnames ▸ nodup_eraseDups _)).symm

end

/-- The first variable is met again in an inner list, after a segment that has taken one item too
few at first. -/
theorem Matcher.names_of_outcome_again :
    let x : Text := [.char 'x']
    let y : Text := [.char 'y']
    let z : Text := [.char 'z']
    let pattern : Matcher := .array [.element x none, .segment y none,
      .array [.element z none, .element x none], .segmentExact y none]
    let datum : Value :=
      .list [.int 1, .int 2, .int 3, .list [.int 4, .int 1], .int 2, .int 3]
    pattern.builtFrom MatcherKind.choiceless = true ∧
      ∃ result, pattern.outcome {} datum = .ok (.success result) ∧
        result.environment.bindings.names = [x, y, z] ∧
        result.environment.arguments = [.int 1, .list [.int 2, .int 3], .int 4] := by
  intro x y z pattern datum
  have hbuilt : pattern.builtFrom MatcherKind.choiceless = true := rfl
  let env : Environment := ⟨[(x, .int 1), (y, .list [.int 2, .int 3]), (z, .int 4)], [], 0,
    Environment.defaultMaxDepth, 3⟩
  have houtcome : pattern.outcome {} datum = .ok (.success ⟨env, 1⟩) := by
    dsimp only [pattern, datum, x, y, z, env]
    cbv
  exact ⟨hbuilt, ⟨env, 1⟩, houtcome, (Matcher.names_of_outcome hbuilt houtcome).1, rfl⟩

end Motif
