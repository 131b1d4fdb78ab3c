import Motif.Proofs.Mirror

/-!
# Traces

What the trace of a search says about the search itself: its end, the calls that it makes, and what
changes if the ceiling on nested references is raised.
-/

namespace Motif

variable {H : Predicates}

/-! ### What is seen of a search -/

/-- The call of the continuation that an event is, under another ceiling. -/
def Event.handed? (ceiling : Int) : Event → Option (Environment × Nat)
  | .handed env n => some (env.capped ceiling, n)
  | _ => none

namespace Mirror

variable {low high depth : Int} (h : low ≤ high)

/-- A search that keeps a state is seen as it is. -/
def stateful (σ : Type) : Mirror σ (Stateful σ) σ where
  toReading := .stateful σ
  view state _ := state
  view_concat _ _ _ _ := rfl
  low := low
  high := high
  low_le_high := h

/-- A search that writes down the calls of its continuation is seen with these calls. -/
def recorded (σ : Type) : Mirror σ (Stateful (σ × List (Environment × Nat)))
    (σ × List (Environment × Nat)) where
  toReading := .stateful _
  view state events := (state, events.filterMap (Event.handed? high))
  view_concat state events event hquiet := by
    have hnone : event.handed? high = none := by
      cases event with
      | handed env n => exact absurd rfl (hquiet env n)
      | _ => rfl
    rw [List.filterMap_append, List.filterMap_cons_none hnone, List.filterMap_nil,
      List.append_nil]
  low := low
  high := high
  low_le_high := h

/-- A search without a state is seen as it is. -/
def stateless : Mirror Unit (Except Interrupt) Unit where
  toReading := .stateless
  view _ _ := ()
  view_concat _ _ _ _ := rfl
  low := low
  high := high
  low_le_high := h

variable {σ κ : Type} {k k' : Continuation (Stateful σ) κ}

lemma continues_stateful
    (hk : ∀ env n, env.maxDepth = low → k' (env.capped high) n = k env n) :
    (stateful h σ).Continues depth k.watched k' := by
  intro env n _ hcap
  constructor
  intro state
  refine ⟨⟨⟨trivial, trivial⟩, fun _ _ => Int.add_zero depth⟩, ?_⟩
  intro _ seen
  change Stateful.ending (k' (env.capped high) n) state = _
  rw [hk env n hcap]
  rfl

variable (k) in
lemma continues_self (ceiling : Int) :
    (stateful (Int.le_refl ceiling) σ).Continues depth k.watched k :=
  continues_stateful _ fun env _ hcap => by rw [← hcap, Environment.capped_self]

lemma continues_recorded
    (hk : ∀ env n, env.maxDepth = low → k' (env.capped high) n = k env n) :
    (recorded h σ).Continues depth k.watched k'.recorded := by
  intro env n _ hcap
  constructor
  intro state
  refine ⟨⟨⟨trivial, trivial⟩, fun _ _ => Int.add_zero depth⟩, ?_⟩
  intro _ seen
  change Stateful.ending (k'.recorded (env.capped high) n) _ = _
  rw [Continuation.ending_recorded, hk env n hcap]
  change _ = (_, _, List.filterMap (Event.handed? high) (seen ++ [.handed env n]))
  rw [List.filterMap_append]
  rfl

lemma continues_stateless {k : Continuation (Stateful Unit) κ}
    {k' : Continuation (Except Interrupt) κ}
    (hk : ∀ env n, env.maxDepth = low → k' (env.capped high) n = ((k env n).ending ()).1) :
    (stateless h).Continues depth k.watched k' := by
  intro env n _ hcap
  constructor
  intro state
  refine ⟨⟨⟨trivial, trivial⟩, fun _ _ => Int.add_zero depth⟩, ?_⟩
  intro _ seen
  change (k' (env.capped high) n, ()) = _
  rw [hk env n hcap]
  rfl

end Mirror

/-! ### Ends and calls -/

section

variable {σ κ : Type} [Answer κ] (stack : Option Nat) (matcher : Matcher) (input : Input)
  (env : Environment) (k : Continuation (Stateful σ) κ) (state : σ)

/-- A search under watch ends as it does without. -/
lemma Matcher.ending_watchedFrom [Predicates] :
    matcher.watchedFrom stack input env k.watched state =
      ((Stateful.ending (matcher.searchFrom stack input env k) state).1,
        (Stateful.ending (matcher.searchFrom stack input env k) state).2,
        matcher.trace stack input env k state) := by
  obtain ⟨-, hread⟩ := (Mirror.shows_watchedFrom stack matcher input rfl
    (Mirror.continues_self k env.maxDepth)).ending state
  have hplain : Stateful.ending (matcher.searchFrom stack input env k) state = _ :=
    hread (.inl rfl) []
  rw [Matcher.trace, hplain]
  rfl

/-- Whatever happens in a search fits the number of references that are open when it happens. -/
theorem Matcher.fit_trace [Predicates] :
    Fit env.maxDepth env.depth (matcher.trace stack input env k state) := by
  obtain ⟨⟨hfit, -⟩, -⟩ := (Mirror.shows_watchedFrom stack matcher input rfl
    (Mirror.continues_self k env.maxDepth)).ending state
  exact hfit

variable {env k}

/-- What is seen of a search in a mirror: its own end and its own trace. -/
lemma Matcher.read_searchFrom [Predicates] {m : Type → Type} {τ : Type} [Monad m] [LawfulMonad m]
    [MonadExceptOf Interrupt m] (M : Mirror σ m τ) {k' : Continuation m κ}
    (hcap : env.maxDepth = M.low) (hk : M.Continues env.depth k.watched k')
    (hcalm : M.low = M.high ∨ Calm (matcher.trace stack input env k state)) :
    M.read (matcher.searchFrom stack input (env.capped M.high) k') (M.view state []) =
      ((Stateful.ending (matcher.searchFrom stack input env k) state).1,
        M.view (Stateful.ending (matcher.searchFrom stack input env k) state).2
          (matcher.trace stack input env k state)) := by
  have hwatched := matcher.ending_watchedFrom stack input env k state
  obtain ⟨-, hread⟩ := (Mirror.shows_watchedFrom stack matcher input hcap hk).ending state
  rw [hwatched] at hread
  exact hread hcalm []

variable (env k) in
/-- The calls of the continuation are those that are written down. -/
lemma Matcher.calls_eq_trace : matcher.calls stack input env k state =
    (matcher.trace stack input env k state).filterMap (Event.handed? env.maxDepth) := by
  have hk : (Mirror.recorded (Int.le_refl env.maxDepth) σ).Continues env.depth k.watched
      k.recorded :=
    Mirror.continues_recorded _ fun env' n hcap => by rw [← hcap, Environment.capped_self]
  have hread := matcher.read_searchFrom stack input state _ rfl hk (.inl rfl)
  exact congrArg (fun ending => ending.2.2) hread

/-- All that happens when a datum is matched. -/
def Matcher.traceOf [Predicates] (limits : Limits) (matcher : Matcher) (datum : Value) :
    List Event :=
  matcher.trace limits.stack (.single datum) (.empty limits.maxDepth)
    (Success.keep : Continuation (Stateful Unit) Success) ()

/-- Matching a datum is a search that keeps a state of no content. -/
lemma Matcher.start_eq_ending (limits : Limits) (matcher : Matcher) (datum : Value) :
    matcher.start limits datum Success.keep =
      (Stateful.ending (matcher.searchFrom limits.stack (.single datum) (.empty limits.maxDepth)
        (Success.keep : Continuation (Stateful Unit) Success)) ()).1 := by
  have hk : (Mirror.stateless (Int.le_refl limits.maxDepth)).Continues
      (Environment.empty limits.maxDepth).depth
      (Success.keep : Continuation (Stateful Unit) Success).watched Success.keep := by
    apply Mirror.continues_stateless
    intro env n hcap
    rw [← hcap, Environment.capped_self]
    rfl
  have hread := matcher.read_searchFrom limits.stack (.single datum) ()
    (Mirror.stateless (Int.le_refl limits.maxDepth)) rfl hk (.inl rfl)
  exact congrArg Prod.fst hread

/-! ### Higher ceilings -/

section

variable {ceiling : Int} (hceiling : env.maxDepth ≤ ceiling) {k' : Continuation (Stateful σ) κ}
  (hk : ∀ env' n, env'.maxDepth = env.maxDepth → k' (env'.capped ceiling) n = k env' n)
  (hcalm : Calm (matcher.trace stack input env k state))
include hceiling hk hcalm

/-- If no reference meets the ceiling, a search ends under a higher one as it does under this. -/
lemma Matcher.ending_capped_of_calm :
    Stateful.ending (matcher.searchFrom stack input (env.capped ceiling) k') state =
      Stateful.ending (matcher.searchFrom stack input env k) state :=
  matcher.read_searchFrom stack input state (Mirror.stateful hceiling σ) rfl
    (Mirror.continues_stateful hceiling hk) (.inr hcalm)

/-- If no reference meets the ceiling, a search makes the same calls under a higher one. -/
lemma Matcher.calls_capped_of_calm :
    matcher.calls stack input (env.capped ceiling) k' state =
      (matcher.calls stack input env k state).map fun (env', n) => (env'.capped ceiling, n) := by
  have hread := matcher.read_searchFrom stack input state (Mirror.recorded hceiling σ) rfl
    (Mirror.continues_recorded hceiling hk) (.inr hcalm)
  have hcalls : matcher.calls stack input (env.capped ceiling) k' state =
      (matcher.trace stack input env k state).filterMap (Event.handed? ceiling) :=
    congrArg (fun ending => ending.2.2) hread
  rw [hcalls, Matcher.calls_eq_trace, List.map_filterMap]
  congr 1
  funext event
  cases event <;> rfl

end

end

end Motif
