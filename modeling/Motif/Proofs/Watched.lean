import Motif.Proofs.Calls

/-!
# Searches under watch

A watched search does what the search does and writes down what happens on the way: which matchers
are run, where references open and close, which of them find no room left, and how failures are
weighed against each other. `Motif.Proofs.Mirror` shows that watching changes nothing.
-/

namespace Motif

variable {H : Predicates}

/-- The letrecs in whose bodies a search is, each with its rules and its body, from the innermost
one outwards. -/
abbrev Scope := List (List (Value × Matcher) × Matcher)

/-- A matcher that is run on the items that remain of a list, in the bodies of some letrecs. -/
structure Visit where
  matcher : Matcher
  items : List Value
  env : Environment
  scope : Scope

/-- What can be seen of a search while it runs. -/
inductive Event where
  /-- A matcher is run. -/
  | called (visit : Visit)
  /-- A reference finds its environment exhausted. -/
  | ceiling (name : Text) (env : Environment)
  /-- A reference runs its rule. -/
  | opened (name : Text) (env : Environment)
  /-- The rule of a reference has matched, and the search goes on outside of it. -/
  | left
  /-- The search comes back into the rule that it left last, for another try. -/
  | resumed
  /-- The rule of a reference has been run to its end. -/
  | closed
  /-- A failure is weighed against the best one before it. -/
  | weighed (best f : Failure)
  /-- The continuation of the whole search is called. -/
  | handed (env : Environment) (n : Nat)

/-- Searches that keep a state, may be interrupted and write down what happens to them. -/
def Watched (σ α : Type) : Type := σ → Except Interrupt α × σ × List Event

variable {σ α β κ : Type}

namespace Watched

instance : Monad (Watched σ) where
  pure a := fun state => (.ok a, state, [])
  bind x f := fun state =>
    match x state with
    | (.error interrupt, state', new) => (.error interrupt, state', new)
    | (.ok a, state', new) =>
      let (answer, state₂, more) := f a state'
      (answer, state₂, new ++ more)

instance : MonadExceptOf Interrupt (Watched σ) where
  throw interrupt := fun state => (.error interrupt, state, [])
  tryCatch x handle := fun state =>
    match x state with
    | (.error interrupt, state', new) =>
      let (answer, state₂, more) := handle interrupt state'
      (answer, state₂, new ++ more)
    | ending => ending

lemma bind_apply (x : Watched σ α) (f : α → Watched σ β) (state : σ) :
    (x >>= f) state =
      match x state with
      | (.error interrupt, state', new) => (.error interrupt, state', new)
      | (.ok a, state', new) => ((f a state').1, (f a state').2.1, new ++ (f a state').2.2) := rfl

lemma id_map' (x : Watched σ α) : id <$> x = x := by
  funext state
  change (x >>= pure) state = x state
  rw [bind_apply]
  rcases x state with ⟨_ | a, state', new⟩
  · rfl
  · change (Except.ok a, state', new ++ []) = _
    rw [List.append_nil]

lemma bind_assoc' {γ : Type} (x : Watched σ α) (f : α → Watched σ β) (g : β → Watched σ γ) :
    x >>= f >>= g = x >>= fun a => f a >>= g := by
  funext state
  simp only [bind_apply]
  rcases x state with ⟨_ | a, state', new⟩
  · rfl
  · dsimp only
    rcases f a state' with ⟨_ | b, state₂, more⟩
    · rfl
    · simp only [List.append_assoc]

instance : LawfulMonad (Watched σ) :=
  LawfulMonad.mk' _ id_map' (fun _ _ => rfl) bind_assoc'

/-- Writes an event down. -/
def tell (event : Event) : Watched σ Unit := fun state => (.ok (), state, [event])

/-- Does something of which nothing is written down. -/
def silently (x : Stateful σ α) : Watched σ α := fun state =>
  let (answer, state') := x.ending state
  (answer, state', [])

/-- Writes down that a failure is weighed, if there is another one before it. -/
def weigh : Option Failure → Failure → Watched σ Unit
  | none, _ => pure ()
  | some best, f => tell (.weighed best f)

end Watched

open Watched (tell weigh)

/-! ### The search, watched -/

section Definitions

variable [Answer κ]

/-- As `offer`, under watch. -/
def watchedOffer (k : α → Watched σ κ) :
    List α → Option Failure → Watched σ (Except (Option Failure) κ)
  | [], best => pure (.error best)
  | a :: attempts, best => do
    let x ← k a
    match failure? x with
    | none => pure (.ok x)
    | some f => do
      weigh best f
      watchedOffer k attempts (some (Failure.better best f))

/-- As `searchSegment`, under watch. -/
def watchedSegment [Predicates] (name : Text) (only : Option Restriction) : Searcher (Watched σ) :=
  fun input env k =>
    match input.items, env.get? name with
    | _ :: _, none => do
      let grown (n : Nat) := k (env.extend name (.list (input.items.take n))) n
      match ← watchedOffer grown (segmentLengths only input.items) none with
      | .ok x => pure (.passed x)
      | .error best => pure (.own (segmentStopped only input best))
    | _, _ => searchSegment name only input env k

/-- As `searchSegmentExact`, under watch. -/
def watchedSegmentExact [Predicates] (name : Text) (only : Option Restriction) : Searcher
    (Watched σ) :=
  fun input env k => do
    let whole : Continuation (Watched σ) (Verdict _) := fun env' n =>
      if n = input.items.length then .passed <$> k env' n
      else pure (.own (.report .segment .keepTrying input.toValue n none))
    Verdict.join <$> watchedSegment name only input env whole

/-- As `searchRest`, under watch. -/
def watchedRest : Searcher (Watched σ) := fun input env k => do
  match ← watchedOffer (k env) (List.range (input.items.length + 1)) none with
  | .ok x => pure (.passed x)
  | .error best =>
    pure (.own (.report .rest .indexOutOfRange input.toValue input.items.length best))

mutual

/-- As `Matcher.search`, under watch. -/
def Matcher.watched [Predicates] (call : Scope → Text → Searcher (Watched σ)) :
    Matcher → Scope → Searcher (Watched σ)
  | .segment name only, scope => fun input env k => do
    tell (.called ⟨.segment name only, input.items, env, scope⟩)
    watchedSegment name only input env k
  | .segmentExact name only, scope => fun input env k => do
    tell (.called ⟨.segmentExact name only, input.items, env, scope⟩)
    watchedSegmentExact name only input env k
  | .rest, scope => fun input env k => do
    tell (.called ⟨.rest, input.items, env, scope⟩)
    watchedRest input env k
  | .array elements, scope => fun input env k => do
    tell (.called ⟨.array elements, input.items, env, scope⟩)
    match input.items with
    | .seq shape items :: _ =>
      Landing.settle ⟨shape, items⟩ <$>
        watchedElements call elements scope ⟨shape, items⟩ 0 ⟨shape, items⟩ env fun env' =>
          k env' 1
    | _ => (Matcher.array elements).search (call scope) input env k
  | .choice alternatives, scope => fun input env k => do
    tell (.called ⟨.choice alternatives, input.items, env, scope⟩)
    watchedAlternatives call alternatives scope none input env k
  | .letrec rules body, scope => fun input env k => do
    tell (.called ⟨.letrec rules body, input.items, env, scope⟩)
    body.watched call ((rules, body) :: scope) input (env.define (namedRules rules)) fun env' n =>
      k (env'.scopedTo env) n
  | .reference name, scope => fun input env k => do
    tell (.called ⟨.reference name, input.items, env, scope⟩)
    call scope name input env k
  | .constant value, scope => fun input env k => do
    tell (.called ⟨.constant value, input.items, env, scope⟩)
    searchConstant value input env k
  | .element name only, scope => fun input env k => do
    tell (.called ⟨.element name only, input.items, env, scope⟩)
    searchElement name only input env k
  | .abstract kind, scope => fun input env _ => do
    tell (.called ⟨.abstract kind, input.items, env, scope⟩)
    throwThe Interrupt .unimplemented

/-- As `searchElements`, under watch. -/
def watchedElements [Predicates] {κ : Type} [Answer κ]
    (call : Scope → Text → Searcher (Watched σ)) :
    List Matcher → Scope → (whole : Input) → (offset : Nat) → Input → Environment →
      (Environment → Watched σ κ) → Watched σ (Landing κ)
  | [], _, whole, offset, input, env, k =>
    if input.items.isEmpty then .outer <$> k env
    else pure (.leftover (Landing.leftoverAt whole offset))
  | element :: elements, scope, whole, offset, input, env, k =>
    Landing.ofElement offset <$> element.watched call scope input env fun env' n =>
      watchedElements call elements scope whole (offset + n) (input.drop n) env' k

/-- As `searchAlternatives`, under watch. -/
def watchedAlternatives [Predicates] (call : Scope → Text → Searcher (Watched σ)) :
    List Matcher → Scope → Option Failure → Searcher (Watched σ)
  | [], _, best => fun input _ _ =>
    pure (.own (.report .choice .noAlternative input.toValue 0 best))
  | alternative :: alternatives, scope, best => fun input env k => do
    let verdict ← alternative.watched call scope input env k
    match failure? verdict with
    | none => pure verdict
    | some f => do
      weigh best f
      watchedAlternatives call alternatives scope (some (Failure.better best f)) input env k

end

/-- As `callRule`, under watch. The rule is run in the bodies of the same letrecs as the
reference. -/
def watchedCall [Predicates] (stack : Option Nat) :
    (room : Nat) → Scope → Text → Searcher (Watched σ)
  | room, scope, name => fun input env k =>
    match env.matcher? name with
    | none => pure (.own (.report .reference .referenceNotFound (.str name) 0 none))
    | some target =>
      let ceiling := do
        tell (.ceiling name env)
        pure (.own (.report .reference .depthExceeded (.str name) 0 none))
      match room with
      | 0 => ceiling
      | room + 1 =>
        if env.exhausted then ceiling
        else if stack.any fun limit => (limit : Int) ≤ env.depth then
          throwThe Interrupt .stackExhausted
        else do
          tell (.opened name env)
          let verdict ← target.watched (watchedCall stack room) scope input env.descend
            fun env' n => do
              tell .left
              let x ← k (env'.atDepth env.depth) n
              tell .resumed
              pure x
          tell .closed
          pure verdict

/-- As `Matcher.searchFrom`, under watch. -/
def Matcher.watchedFrom [Predicates] (stack : Option Nat) (matcher : Matcher) :
    Searcher (Watched σ) :=
  fun input env k => matcher.watched (watchedCall stack env.room) [] input env k

/-- The continuation that does as `k` does, and whose calls are written down. -/
def Continuation.watched (k : Continuation (Stateful σ) κ) : Continuation (Watched σ) κ :=
  fun env n => do
    tell (.handed env n)
    Watched.silently (k env n)

/-- All that happens in a search with `k` from a state on, in order. -/
def Matcher.trace [Predicates] (stack : Option Nat) (matcher : Matcher) (input : Input)
    (env : Environment) (k : Continuation (Stateful σ) κ) (state : σ) : List Event :=
  (matcher.watchedFrom stack input env k.watched state).2.2

end Definitions

/-! ### What is written down -/

/-- Every matcher that is run is run as `fine` says. -/
def OnlyRuns (fine : Visit → Prop) (events : List Event) : Prop :=
  ∀ visit, .called visit ∈ events → fine visit

lemma onlyRuns_append {fine : Visit → Prop} {events events' : List Event} :
    OnlyRuns fine (events ++ events') ↔ OnlyRuns fine events ∧ OnlyRuns fine events' := by
  simp only [OnlyRuns, List.mem_append]
  exact ⟨fun h => ⟨fun visit hv => h visit (.inl hv), fun visit hv => h visit (.inr hv)⟩,
    fun h visit hv => hv.elim (h.1 visit) (h.2 visit)⟩

/-- The matcher that is run with an event, if any. -/
def Event.visit? : Event → Option Visit
  | .called visit => some visit
  | _ => none

/-- What is run can be looked through one by one. -/
lemma onlyRuns_of_all {fine : Visit → Prop} {events : List Event} {check : Visit → Bool}
    (hcheck : ∀ visit, check visit = true → fine visit)
    (h : (events.filterMap Event.visit?).all check = true) : OnlyRuns fine events :=
  fun visit hv =>
    hcheck visit (List.all_eq_true.mp h visit (List.mem_filterMap.mpr ⟨_, hv, rfl⟩))

namespace Watched

/-- From every state on, a computation does as `P` says: `P` relates the state before to the answer,
the state after and what is written down in between. -/
structure Writes (x : Watched σ α) (P : σ → Except Interrupt α → σ → List Event → Prop) :
    Prop where
  ending (state : σ) : P state (x state).1 (x state).2.1 (x state).2.2

variable {P Q : σ → Except Interrupt α → σ → List Event → Prop}
  {R : σ → Except Interrupt β → σ → List Event → Prop}

lemma Writes.mono {x : Watched σ α} (h : x.Writes P)
    (hPQ : ∀ state answer state' new, P state answer state' new → Q state answer state' new) :
    x.Writes Q :=
  ⟨fun state => hPQ _ _ _ _ (h.ending state)⟩

lemma writes_pure {a : α} (h : ∀ state, P state (.ok a) state []) :
    Writes (pure a : Watched σ α) P := ⟨h⟩

lemma writes_throw {interrupt : Interrupt} (h : ∀ state, P state (.error interrupt) state []) :
    Writes (throwThe Interrupt interrupt : Watched σ α) P := ⟨h⟩

lemma writes_tell {event : Event} {P : σ → Except Interrupt Unit → σ → List Event → Prop}
    (h : ∀ state, P state (.ok ()) state [event]) : Writes (tell event) P := ⟨h⟩

/-- One computation after the other: an interrupt of the first is one of the whole. -/
lemma Writes.bind {x : Watched σ α} {f : α → Watched σ β} (h : x.Writes P)
    (hinterrupt : ∀ state interrupt state' new,
      P state (.error interrupt) state' new → R state (.error interrupt) state' new)
    (hnext : ∀ state a state' new, P state (.ok a) state' new →
      (f a).Writes fun state₁ answer state₂ new' =>
        state₁ = state' → R state answer state₂ (new ++ new')) :
    Writes (x >>= f) R := by
  constructor
  intro state
  have hP := h.ending state
  rw [bind_apply]
  generalize x state = ending at hP
  rcases ending with ⟨interrupt | a, state', new⟩
  · exact hinterrupt _ _ _ _ hP
  · exact (hnext _ _ _ _ hP).ending state' rfl

lemma Writes.map {x : Watched σ α} {f : α → β} (h : x.Writes P)
    (hmap : ∀ state answer state' new,
      P state answer state' new → R state (answer.map f) state' new) :
    Writes (f <$> x) R := by
  rw [map_eq_pure_bind]
  refine h.bind (fun state interrupt state' new => hmap _ _ _ _) fun state a state' new hP => ?_
  refine writes_pure ?_
  rintro state₁ rfl
  rw [List.append_nil]
  exact hmap _ _ _ _ hP

end Watched

end Motif
