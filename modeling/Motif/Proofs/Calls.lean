import Motif.Proofs.DepthFirst

/-!
# Calls of a continuation

The calls that a search makes, as a continuation can write them down. Whatever the continuation
answers, they are the first ways of the matcher.
-/

namespace Motif

variable {H : Predicates}

/-- Searches that keep a state and may be interrupted. The state of an interrupted search stays. -/
abbrev Stateful (σ : Type) := ExceptT Interrupt (StateM σ)

variable {σ α β κ : Type} [Answer κ]

/-- How a search ends from a state on, and the state afterwards. -/
def Stateful.ending (x : Stateful σ α) (state : σ) : Except Interrupt α × σ :=
  (x.run.run state).run

namespace Stateful

@[simp] lemma ending_pure (a : α) (state : σ) :
    Stateful.ending (pure a) state = (.ok a, state) := rfl

@[simp] lemma ending_throw (interrupt : Interrupt) (state : σ) :
    Stateful.ending (throwThe Interrupt interrupt : Stateful σ α) state =
      (.error interrupt, state) := rfl

lemma ending_bind (x : Stateful σ α) (f : α → Stateful σ β) (state : σ) :
    Stateful.ending (x >>= f) state =
      match x.ending state with
      | (.ok a, state') => (f a).ending state'
      | (.error interrupt, state') => (.error interrupt, state') := by
  simp only [ending, ExceptT.run_bind, StateT.run_bind, Id.run_bind]
  rcases (x.run.run state).run with ⟨_ | _, state'⟩ <;> rfl

lemma ending_map (f : α → β) (x : Stateful σ α) (state : σ) :
    Stateful.ending (f <$> x) state = ((x.ending state).1.map f, (x.ending state).2) := by
  rw [map_eq_pure_bind, ending_bind]
  rcases x.ending state with ⟨_ | _, state'⟩ <;> rfl

end Stateful

/-- The continuation that writes every call down and then does as `k` does. -/
def Continuation.recorded (k : Continuation (Stateful σ) κ) :
    Continuation (Stateful (σ × List (Environment × Nat))) κ := fun env n =>
  ExceptT.mk fun (state, calls) =>
    let (answer, state') := (k env n).ending state
    (answer, state', calls ++ [(env, n)])

/-- The calls that a search makes to `k` from a state on, in order. -/
def Matcher.calls [Predicates] (stack : Option Nat) (matcher : Matcher) (input : Input)
    (env : Environment) (k : Continuation (Stateful σ) κ) (state : σ) : List (Environment × Nat) :=
  (Stateful.ending (matcher.searchFrom stack input env k.recorded) (state, [])).2.2

omit [Answer κ] in
lemma Continuation.ending_recorded (k : Continuation (Stateful σ) κ) (env : Environment) (n : Nat)
    (state : σ) (calls : List (Environment × Nat)) :
    Stateful.ending (k.recorded env n) (state, calls) =
      (((k env n).ending state).1, ((k env n).ending state).2, calls ++ [(env, n)]) := rfl

/-- Trying ways makes calls for the first of them, and for no others. -/
lemma recorded_findSomeM? (k : Continuation (Stateful σ) κ) (ways : List Way) (state : σ)
    (calls : List (Environment × Nat)) :
    ∃ made, made <+: ways.filterMap Except.toOption ∧
      (Stateful.ending
        (ways.findSomeM? (attempt fun way => accepted? <$> k.recorded way.1 way.2))
        (state, calls)).2.2 = calls ++ made := by
  induction ways generalizing state calls with
  | nil => exact ⟨[], List.nil_prefix, by simp⟩
  | cons way ways ih =>
    cases way with
    | error interrupt =>
      refine ⟨[], List.nil_prefix, ?_⟩
      rw [findSomeM?_error, Stateful.ending_throw, List.append_nil]
    | ok way =>
      simp only [List.findSomeM?_cons, attempt_ok, Stateful.ending_bind, Stateful.ending_map,
        Continuation.ending_recorded]
      have hfilter : (Except.ok way :: ways).filterMap Except.toOption =
          way :: ways.filterMap Except.toOption := rfl
      have hone : [way] <+: way :: ways.filterMap Except.toOption :=
        ⟨_, List.singleton_append⟩
      rw [hfilter]
      rcases (k way.1 way.2).ending state with ⟨interrupt | x, state'⟩
      · exact ⟨[way], hone, rfl⟩
      · cases hx : accepted? x with
        | some y => exact ⟨[way], hone, by simp [Except.map, hx]⟩
        | none =>
          obtain ⟨made, hmade, hlog⟩ := ih state' (calls ++ [way])
          refine ⟨way :: made, (List.prefix_cons_inj way).mpr hmade, ?_⟩
          simp only [Except.map, hx, hlog, List.append_assoc, List.singleton_append]

/-- The calls that a search makes are the first of its ways. -/
theorem Matcher.calls_prefix (stack : Option Nat) (matcher : Matcher) (input : Input)
    (env : Environment) (k : Continuation (Stateful σ) κ) (state : σ) :
    matcher.calls stack input env k state <+:
      (matcher.waysFrom stack input.items env).filterMap Except.toOption := by
  obtain ⟨made, hmade, hlog⟩ :=
    recorded_findSomeM? k (matcher.waysFrom stack input.items env) state []
  rw [← Matcher.tries_searchFrom stack matcher input env k.recorded, Stateful.ending_map] at hlog
  rw [Matcher.calls, hlog]
  exact hmade

/-- The first way is called for in any case. -/
lemma Matcher.mem_calls_of_waysFrom {stack : Option Nat} {matcher : Matcher} {input : Input}
    {env : Environment} {k : Continuation (Stateful σ) κ} {way : Environment × Nat}
    {others : List Way} (h : matcher.waysFrom stack input.items env = .ok way :: others)
    (state : σ) : way ∈ matcher.calls stack input env k state := by
  have hlog := congrArg (fun x => (Stateful.ending x (state, [])).2.2)
    (Matcher.tries_searchFrom stack matcher input env k.recorded)
  simp only [h, List.findSomeM?_cons, attempt_ok, Stateful.ending_bind, Stateful.ending_map,
    Continuation.ending_recorded] at hlog
  rw [Matcher.calls, hlog]
  rcases (k way.1 way.2).ending state with ⟨interrupt | x, state'⟩
  · exact List.mem_singleton_self way
  · cases hx : accepted? x with
    | some y => simp [Except.map, hx]
    | none =>
      obtain ⟨made, -, hmade⟩ := recorded_findSomeM? k others state' ([] ++ [way])
      simp only [Except.map, hx, hmade]
      exact List.mem_append_left made (List.mem_singleton_self way)

end Motif
