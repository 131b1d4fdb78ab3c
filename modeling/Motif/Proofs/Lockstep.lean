import Motif.Proofs.Equality
import Motif.Proofs.Inlining

/-!
# Ways in lockstep

Two searches in environments with the same data and related rules have their ways in lockstep: as
many items are used and the same data is bound, one way after the other. For single matchers this is
so if the name of a variable does not tell the environments apart.
-/

namespace Motif

variable {H : Predicates}

/-! ### Ways in lockstep -/

/-- Two ends: the same interrupt, or related results. -/
inductive Ends {α β : Type} (E : α → β → Prop) :
    Except Interrupt α → Except Interrupt β → Prop where
  | interrupt (interrupt : Interrupt) : Ends E (.error interrupt) (.error interrupt)
  | ok {a : α} {b : β} (h : E a b) : Ends E (.ok a) (.ok b)

/-- Ways one by one: the same number of items used and related environments afterwards, or the same
interrupt. -/
abbrev Lockstep (E : Environment → Environment → Prop) : List Way → List Way → Prop :=
  List.Forall₂ (Ends fun way way' => way.2 = way'.2 ∧ E way.1 way'.1)

namespace Lockstep

variable {E F : Environment → Environment → Prop} {ways ways' : List Way}

lemma of_ok {ways ways' : List (Environment × Nat)}
    (h : List.Forall₂ (fun way way' => way.2 = way'.2 ∧ E way.1 way'.1) ways ways') :
    Lockstep E (ways.map .ok) (ways'.map .ok) := by
  rw [Lockstep, List.forall₂_map_left_iff, List.forall₂_map_right_iff]
  exact h.imp fun _ _ hE => Ends.ok hE

lemma leave {restore restore' : Environment → Environment} (h : Lockstep E ways ways')
    (hleave : ∀ {env env'}, E env env' → F (restore env) (restore' env')) :
    Lockstep F (ways.map (Way.leave restore)) (ways'.map (Way.leave restore')) := by
  rw [Lockstep, List.forall₂_map_left_iff, List.forall₂_map_right_iff]
  refine h.imp fun _ _ hend => ?_
  cases hend with
  | interrupt interrupt => exact .interrupt interrupt
  | ok hway => exact .ok ⟨hway.1, hleave hway.2⟩

end Lockstep

/-! ### Environments that differ in their rules -/

/-- A matcher equals nothing but matchers. -/
lemma Value.matcher_equal_eq_false (m : Matcher) {item : Value} (h : ∀ m', item ≠ .matcher m') :
    (Value.matcher m).equal item = false := by
  rw [Bool.eq_false_iff]
  intro hequal
  obtain ⟨m', rfl, -⟩ := Value.alike_matcher.mp hequal
  exact h m' rfl

lemma rel_cases {α β : Type} {R : α → β → Prop} {a : Option α} {b : Option β}
    (h : Option.Rel R a b) :
    a = none ∧ b = none ∨ ∃ x y, a = some x ∧ b = some y ∧ R x y := by
  cases h with
  | none => exact .inl ⟨rfl, rfl⟩
  | some h => exact .inr ⟨_, _, rfl, rfl, h⟩

namespace Environment

variable {env : Environment} {name : Text}

/-- What is bound to data without matchers is no matcher. -/
lemma matcher?_of_inert {v : Value} (h : env.bindings.lookup name = some v) (hv : v.Inert) :
    env.matcher? name = none := by
  rw [matcher?, get?_of_bound h]
  cases v with
  | matcher m => exact absurd hv (Value.not_inert_matcher m)
  | _ => rfl

/-- References of one name run related matchers where the same data is bound, if the rules of this
name are related. A matcher that the name is bound to is related to itself. -/
lemma matcher?_rel_of_lookup {R : Matcher → Matcher → Prop} {env' : Environment}
    (hbindings : env'.bindings = env.bindings)
    (hbound : ∀ m, env.bindings.lookup name = some (.matcher m) → R m m)
    (hrules : env.bindings.lookup name = none →
      Option.Rel R (env.rules.lookup name) (env'.rules.lookup name)) :
    Option.Rel R (env.matcher? name) (env'.matcher? name) := by
  cases hlookup : env.bindings.lookup name with
  | none =>
    rw [matcher?_of_unbound hlookup, matcher?_of_unbound (hbindings ▸ hlookup)]
    exact hrules hlookup
  | some v =>
    rw [matcher?, matcher?, get?_of_bound hlookup, get?_of_bound (hbindings ▸ hlookup)]
    cases v with
    | matcher m => exact .some (hbound m hlookup)
    | _ => exact .none

end Environment

/-- Environments with the same data and as many open references, and with related rules. -/
structure Environment.Matched (T : Table Matcher → Table Matcher → Prop) (env env' : Environment) :
    Prop where
  bindings : env'.bindings = env.bindings
  depth : env'.depth = env.depth
  maxDepth : env'.maxDepth = env.maxDepth
  rules : T env.rules env'.rules

/-- A variable tells two environments apart on no items: it is unbound in both, or stands for the
same in both, or for a rule in each where the first item is no matcher that might equal it. -/
inductive Environment.AgreeOn (name : Text) (items : List Value) (env env' : Environment) :
    Prop where
  | unbound (h : env.get? name = none) (h' : env'.get? name = none)
  | bound {v : Value} (h : env.get? name = some v) (h' : env'.get? name = some v)
  | rules {m m' : Matcher} (h : env.get? name = some (.matcher m))
    (h' : env'.get? name = some (.matcher m')) (hitems : ∀ m others, items ≠ .matcher m :: others)

lemma Environment.AgreeOn.of_lookup {R : Matcher → Matcher → Prop} {name : Text}
    {items : List Value} {env env' : Environment} (hbindings : env'.bindings = env.bindings)
    (hrules : env.bindings.lookup name = none →
      Option.Rel R (env.rules.lookup name) (env'.rules.lookup name))
    (hitems : env.bindings.lookup name = none →
      ∀ target target', env.rules.lookup name = some target → R target target' →
        target' = target ∨ ∀ m others, items ≠ .matcher m :: others) :
    env.AgreeOn name items env' := by
  cases hlookup : env.bindings.lookup name with
  | some v => exact .bound (get?_of_bound hlookup) (get?_of_bound (hbindings ▸ hlookup))
  | none =>
    have hget := get?_of_unbound hlookup
    have hget' : env'.get? name = (env'.rules.lookup name).map .matcher :=
      get?_of_unbound (hbindings ▸ hlookup)
    rcases rel_cases (hrules hlookup) with
      ⟨hnone, hnone'⟩ | ⟨target, target', htarget, htarget', hrel⟩
    · rw [hnone] at hget
      rw [hnone'] at hget'
      exact .unbound hget hget'
    · rw [htarget] at hget
      rw [htarget'] at hget'
      rcases hitems hlookup target target' htarget hrel with rfl | hitems
      · exact .bound hget hget'
      · exact .rules hget hget' hitems

namespace Environment.Matched

variable {T T' : Table Matcher → Table Matcher → Prop} {env env' outer outer' : Environment}

lemma room (h : env.Matched T env') : env'.room = env.room := by
  rw [Environment.room, Environment.room, h.depth, h.maxDepth]

lemma exhausted (h : env.Matched T env') : env'.exhausted = env.exhausted := by
  rw [Environment.exhausted, Environment.exhausted, h.depth, h.maxDepth]

lemma extend (h : env.Matched T env') (name : Text) (v : Value) :
    (env.extend name v).Matched T (env'.extend name v) :=
  ⟨congrArg (·.insert name v) h.bindings, h.depth, h.maxDepth, h.rules⟩

lemma descend (h : env.Matched T env') : env.descend.Matched T env'.descend :=
  ⟨h.bindings, congrArg (· + 1) h.depth, h.maxDepth, h.rules⟩

lemma atDepth (h : env.Matched T env') (depth : Int) :
    (env.atDepth depth).Matched T (env'.atDepth depth) := by
  unfold Environment.atDepth
  rw [h.depth]
  split
  · exact h
  · exact ⟨h.bindings, rfl, h.maxDepth, h.rules⟩

lemma scopedTo (h : env.Matched T' env') (houter : outer.Matched T outer') :
    (env.scopedTo outer).Matched T (env'.scopedTo outer') :=
  ⟨h.bindings, h.depth, h.maxDepth, houter.rules⟩

variable {name : Text} {items : List Value}

/-- Ways of some lengths that leave the environment as it is. -/
lemma unchanged_forall₂ (h : env.Matched T env') (lengths : List Nat) :
    List.Forall₂ (fun way way' => way.2 = way'.2 ∧ way.1.Matched T way'.1)
      (lengths.map fun n => (env, n)) (lengths.map fun n => (env', n)) := by
  rw [List.forall₂_map_left_iff, List.forall₂_map_right_iff]
  exact List.forall₂_same.mpr fun n _ => ⟨rfl, h⟩

lemma constantWays_forall₂ (h : env.Matched T env') (v : Value) (items : List Value) :
    List.Forall₂ (fun way way' => way.2 = way'.2 ∧ way.1.Matched T way'.1)
      (constantWays v items env) (constantWays v items env') := by
  cases items with
  | nil => exact .nil
  | cons item others =>
    rw [constantWays, constantWays]
    split
    · exact h.unchanged_forall₂ [1]
    · exact .nil

lemma elementWays_forall₂ (h : env.Matched T env') (hname : env.AgreeOn name items env')
    (only : Option Restriction) :
    List.Forall₂ (fun way way' => way.2 = way'.2 ∧ way.1.Matched T way'.1)
      (elementWays name only items env) (elementWays name only items env') := by
  cases items with
  | nil => exact .nil
  | cons item others =>
    rw [elementWays, elementWays]
    cases allowed only item with
    | false => exact .nil
    | true =>
      cases hname with
      | unbound hnone hnone' =>
        simp only [hnone, hnone', if_true]
        exact .cons ⟨rfl, h.extend name item⟩ .nil
      | @bound v hv hv' =>
        simp only [hv, hv', if_true]
        cases v.equal item with
        | false => exact .nil
        | true => exact .cons ⟨rfl, h⟩ .nil
      | @rules m m' hm hm' hitem =>
        have hbare (m : Matcher) : item ≠ .matcher m := fun heq => hitem m others (heq ▸ rfl)
        simp only [hm, hm', Value.matcher_equal_eq_false _ hbare]
        exact .nil

lemma segmentWays_forall₂ (h : env.Matched T env') (hname : env.AgreeOn name items env')
    (only : Option Restriction) :
    List.Forall₂ (fun way way' => way.2 = way'.2 ∧ way.1.Matched T way'.1)
      (segmentWays name only items env) (segmentWays name only items env') := by
  rw [segmentWays, segmentWays]
  cases hname with
  | unbound hnone hnone' =>
    simp only [hnone, hnone']
    rw [List.forall₂_map_left_iff, List.forall₂_map_right_iff]
    exact List.forall₂_same.mpr fun n _ => ⟨rfl, h.extend name _⟩
  | @bound v hv hv' =>
    simp only [hv, hv']
    cases v with
    | seq shape vs =>
      cases vs with
      | nil => exact .nil
      | cons first others =>
        dsimp only
        split
        · exact .cons ⟨rfl, h⟩ .nil
        · exact .nil
    | _ => exact .nil
  | rules hm hm' =>
    simp only [hm, hm']
    exact .nil

lemma segmentExactWays_forall₂ (h : env.Matched T env') (hname : env.AgreeOn name items env')
    (only : Option Restriction) :
    List.Forall₂ (fun way way' => way.2 = way'.2 ∧ way.1.Matched T way'.1)
      ((segmentWays name only items env).filter fun way => way.2 = items.length)
      ((segmentWays name only items env').filter fun way => way.2 = items.length) := by
  refine List.rel_filter ?_ (h.segmentWays_forall₂ hname only)
  rintro way way' ⟨hlength, -⟩
  simp only [hlength]

end Environment.Matched

/-! ### Rules one by one -/

/-- The key of a rule with its name changed. A key that is no text stays. -/
def Value.renamedKey (name : Text → Text) : Value → Value
  | .str s => .str (name s)
  | v => v

@[simp] lemma Value.renamedKey_id (v : Value) : v.renamedKey id = v := by
  cases v <;> rfl

/-- The rules of letrecs with related rules under related keys are related one by one. -/
lemma namedRules_forall₂ {name : Text → Text} {R : Matcher → Matcher → Prop}
    {rules rules' : List (Value × Matcher)}
    (hkeys : rules'.map Prod.fst = rules.map fun rule => rule.1.renamedKey name)
    (hrules : List.Forall₂ R (rules.map Prod.snd) (rules'.map Prod.snd)) :
    List.Forall₂ (fun rule rule' => rule'.1 = name rule.1 ∧ R rule.2 rule'.2)
      (namedRules rules) (namedRules rules') := by
  induction rules generalizing rules' with
  | nil =>
    cases List.map_eq_nil_iff.mp hkeys
    exact .nil
  | cons rule rules ih =>
    obtain ⟨key, m⟩ := rule
    cases rules' with
    | nil => cases hkeys
    | cons rule' rules' =>
      obtain ⟨key', m'⟩ := rule'
      obtain ⟨rfl, hothers⟩ := List.cons.inj hkeys
      obtain ⟨hm, hms⟩ := List.forall₂_cons.mp hrules
      have hnamed := ih hothers hms
      cases key with
      | str s => exact .cons ⟨rfl, hm⟩ hnamed
      | _ => exact hnamed

namespace Table

variable {α β : Type} {f : Text → Text} {R : α → β → Prop} {entries : Table α}
  {entries' : Table β} {k : Text}

lemma names_eq_map
    (h : List.Forall₂ (fun entry entry' => entry'.1 = f entry.1 ∧ R entry.2 entry'.2) entries
      entries') : entries'.names = entries.names.map f := by
  induction h with
  | nil => rfl
  | cons hentry _ ih =>
    rw [names, names, List.map_cons, List.map_cons, List.map_cons, hentry.1]
    exact congrArg (_ :: ·) ih

/-- What related tables have under a name and under the new name is related, if no other name is
given the same new name. -/
lemma lookup_rel
    (h : List.Forall₂ (fun entry entry' => entry'.1 = f entry.1 ∧ R entry.2 entry'.2) entries
      entries')
    (hk : ∀ k' ∈ entries.names, f k' = f k → k' = k) :
    Option.Rel R (entries.lookup k) (entries'.lookup (f k)) := by
  induction h with
  | nil => exact .none
  | @cons entry entry' _ _ hentry _ ih =>
    obtain ⟨k', a⟩ := entry
    obtain ⟨_, b⟩ := entry'
    obtain ⟨rfl, hR⟩ := hentry
    obtain ⟨hk, hk'⟩ := List.forall_mem_cons.mp hk
    rw [List.lookup_cons, List.lookup_cons]
    by_cases heq : k = k'
    · subst heq
      simpa using hR
    · have hne : f k ≠ f k' := fun hf => heq (hk hf.symm).symm
      simpa [beq_eq_false_iff_ne.mpr heq, beq_eq_false_iff_ne.mpr hne] using ih hk'

lemma lookup_insertAll_rel {t : Table α} {t' : Table β}
    (h : List.Forall₂ (fun entry entry' => entry'.1 = f entry.1 ∧ R entry.2 entry'.2) entries
      entries')
    (hk : ∀ k' ∈ entries.names, f k' = f k → k' = k)
    (ht : k ∉ entries.names → Option.Rel R (t.lookup k) (t'.lookup (f k))) :
    Option.Rel R ((t.insertAll entries).lookup k) ((t'.insertAll entries').lookup (f k)) := by
  have hnames : Table.names entries.reverse = entries.names.reverse := List.map_reverse
  have hreverse := lookup_rel (List.forall₂_reverse_iff.mpr h)
    fun k' hmem => hk k' (List.mem_reverse.mp (hnames ▸ hmem))
  rw [lookup_insertAll, lookup_insertAll]
  rcases rel_cases hreverse with ⟨hnone, hnone'⟩ | ⟨a, b, ha, hb, hR⟩
  · rw [hnone, hnone', Option.none_or, Option.none_or]
    exact ht (lookup_reverse_eq_none_iff.mp hnone)
  · rw [ha, hb]
    exact .some hR

end Table

end Motif
