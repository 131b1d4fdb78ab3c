import Motif.Proofs.Watched
import Mathlib.Algebra.Ring.Int.Defs

/-!
# Watching changes nothing

A watched search and a plain one go in step: they answer the same and end in the same state. This
holds as well if the plain search has a higher ceiling on nested references, as long as the watched
one does not meet its own. On the way the references that are open are counted, and their number is
the depth of the environment in which a matcher is run.
-/

namespace Motif

variable {H : Predicates}

/-! ### Ceilings -/

namespace Environment

/-- The environment with another ceiling on nested references. -/
def capped (env : Environment) (ceiling : Int) : Environment := { env with maxDepth := ceiling }

section

variable (env env' : Environment) (ceiling depth : Int) (name : Text)

@[simp] lemma capped_depth : (env.capped ceiling).depth = env.depth := rfl

@[simp] lemma capped_maxDepth : (env.capped ceiling).maxDepth = ceiling := rfl

@[simp] lemma get?_capped : (env.capped ceiling).get? name = env.get? name := rfl

@[simp] lemma matcher?_capped : (env.capped ceiling).matcher? name = env.matcher? name := rfl

lemma capped_self : env.capped env.maxDepth = env := rfl

lemma atDepth_capped : (env.capped ceiling).atDepth depth = (env.atDepth depth).capped ceiling := by
  unfold atDepth
  rw [capped_depth]
  split <;> rfl

lemma atDepth_depth : (env.atDepth depth).depth = depth := by
  unfold atDepth
  split
  · rename_i h
    exact h.symm
  · rfl

lemma atDepth_maxDepth : (env.atDepth depth).maxDepth = env.maxDepth := by
  unfold atDepth
  split <;> rfl

end

lemma exhausted_of_le {env : Environment} (h : env.maxDepth ≤ env.depth) : env.exhausted = true :=
  decide_eq_true h

lemma exhausted_of_lt {env : Environment} (h : env.depth < env.maxDepth) :
    env.exhausted = false :=
  decide_eq_false (Int.not_le.mpr h)

end Environment

/-! ### Open references -/

/-- How many more references are open after an event. -/
def Event.change : Event → Int
  | .opened .. | .resumed => 1
  | .left | .closed => -1
  | _ => 0

/-- How many more references are open after some events than before them. -/
def openReferences (events : List Event) : Int := (events.map Event.change).sum

/-- Where `depth` references are open, a matcher is run at that depth, and a reference only runs its
rule, or goes on with it, below the ceiling. -/
def Event.Fits (ceiling depth : Int) : Event → Prop
  | .called visit => visit.env.depth = depth
  | .opened _ env => env.depth = depth ∧ env.depth < ceiling
  | .resumed => depth < ceiling
  | _ => True

/-- Every one of some events fits the number of references that are open when it happens. -/
def Fit (ceiling : Int) : Int → List Event → Prop
  | _, [] => True
  | depth, event :: events => event.Fits ceiling depth ∧ Fit ceiling (depth + event.change) events

/-- No reference has met the ceiling. -/
def Calm (events : List Event) : Prop := ∀ name env, Event.ceiling name env ∉ events

/-- Whether an event is that a reference meets the ceiling. -/
def Event.isCeiling : Event → Bool
  | .ceiling .. => true
  | _ => false

lemma calm_iff {events : List Event} : Calm events ↔ events.any Event.isCeiling = false := by
  rw [List.any_eq_false]
  constructor
  · intro hcalm event hevent
    cases event with
    | ceiling name env => exact absurd hevent (hcalm name env)
    | _ => exact Bool.false_ne_true
  · intro h name env hevent
    exact h _ hevent rfl

instance (events : List Event) : Decidable (Calm events) := decidable_of_iff' _ calm_iff

@[simp] lemma openReferences_nil : openReferences [] = 0 := rfl

@[simp] lemma openReferences_cons (event : Event) (events : List Event) :
    openReferences (event :: events) = event.change + openReferences events := by
  rw [openReferences, List.map_cons, List.sum_cons]
  rfl

@[simp] lemma openReferences_append (events events' : List Event) :
    openReferences (events ++ events') = openReferences events + openReferences events' := by
  rw [openReferences, List.map_append, List.sum_append]
  rfl

lemma fit_append {ceiling depth : Int} {events events' : List Event} :
    Fit ceiling depth (events ++ events') ↔
      Fit ceiling depth events ∧ Fit ceiling (depth + openReferences events) events' := by
  induction events generalizing depth with
  | nil => simp [Fit]
  | cons event events ih =>
    rw [List.cons_append, Fit, Fit, ih, openReferences_cons, and_assoc, Int.add_assoc]

lemma Fit.fits {ceiling depth : Int} {before after : List Event} {event : Event}
    (h : Fit ceiling depth (before ++ event :: after)) :
    event.Fits ceiling (depth + openReferences before) :=
  (fit_append.mp h).2.1

/-- No more references are ever open than were at first or than the ceiling allows. -/
lemma Fit.openReferences_le {ceiling depth : Int} {before after : List Event}
    (h : Fit ceiling depth (before ++ after)) :
    depth + openReferences before ≤ max depth ceiling := by
  induction before generalizing depth with
  | nil => simp only [openReferences_nil]; omega
  | cons event before ih =>
    obtain ⟨hfits, hrest⟩ := h
    have hbefore := ih hrest
    have hchange : depth + event.change ≤ max depth ceiling := by
      cases event with
      | opened name env =>
        obtain ⟨hdepth, hbelow⟩ := hfits
        simp only [Event.change]
        omega
      | resumed =>
        have hbelow : depth < ceiling := hfits
        simp only [Event.change]
        omega
      | _ => simp only [Event.change]; omega
    rw [openReferences_cons]
    omega

lemma calm_append {events events' : List Event} :
    Calm (events ++ events') ↔ Calm events ∧ Calm events' := by
  simp only [Calm, List.mem_append, not_or]
  exact ⟨fun h => ⟨fun name env => (h name env).1, fun name env => (h name env).2⟩,
    fun h name env => ⟨h.1 name env, h.2 name env⟩⟩

/-! ### Plain searches beside watched ones -/

/-- A way to read computations of `n`: what they answer from a state on, and the state after it. -/
structure Reading (n : Type → Type) [Monad n] [MonadExceptOf Interrupt n] (τ : Type) where
  read : {α : Type} → n α → τ → Except Interrupt α × τ
  read_pure : ∀ {α : Type} (a : α) (t : τ), read (pure a) t = (.ok a, t)
  read_bind : ∀ {α β : Type} (y : n α) (g : α → n β) (t : τ), read (y >>= g) t =
    match read y t with
    | (.ok a, t') => read (g a) t'
    | (.error interrupt, t') => (.error interrupt, t')
  read_throw : ∀ {α : Type} (interrupt : Interrupt) (t : τ),
    read (throwThe Interrupt interrupt : n α) t = (.error interrupt, t)

/-- Reading a search that keeps a state. -/
def Reading.stateful (σ : Type) : Reading (Stateful σ) σ where
  read := Stateful.ending
  read_pure _ _ := rfl
  read_bind := Stateful.ending_bind
  read_throw _ _ := rfl

/-- Reading a search without a state. -/
def Reading.stateless : Reading (Except Interrupt) Unit where
  read x _ := (x, ())
  read_pure _ _ := rfl
  read_bind x _ _ := by cases x <;> rfl
  read_throw _ _ := rfl

/-- How a plain search in `n` under the ceiling `high` is seen beside a watched one under the
ceiling `low`: its states are what `view` makes of states and events. -/
structure Mirror (σ : Type) (n : Type → Type) [Monad n] [MonadExceptOf Interrupt n] (τ : Type)
    extends Reading n τ where
  view : σ → List Event → τ
  /-- Only the calls of the continuation can be seen. -/
  view_concat : ∀ state events event, (∀ env j, event ≠ .handed env j) →
    view state (events ++ [event]) = view state events
  low : Int
  high : Int
  low_le_high : low ≤ high

namespace Mirror

open Watched (tell weigh Writes)

variable {σ τ α β κ : Type} [Answer κ] {n : Type → Type} [Monad n] [MonadExceptOf Interrupt n]
  (M : Mirror σ n τ)

/-- Run where `before` references are open, a watched computation ends where `after` are, and the
plain one does the same unless a reference meets the lower of two ceilings. -/
def Shows (before after : Int) (x : Watched σ α) (y : n α) : Prop :=
  x.Writes fun state answer state' new =>
    (Fit M.low before new ∧ ∀ a, answer = .ok a → before + openReferences new = after) ∧
      (M.low = M.high ∨ Calm new → ∀ events,
        M.read y (M.view state events) = (answer, M.view state' (events ++ new)))

/-- Continuations that go in step, if they are called at the depth and under the ceiling of the
search. -/
def Continues (depth : Int) (k : Continuation (Watched σ) κ) (k' : Continuation n κ) : Prop :=
  ∀ env j, env.depth = depth → env.maxDepth = M.low →
    M.Shows depth depth (k env j) (k' (env.capped M.high) j)

/-- A plain search goes in step with a watched one if the continuations do. -/
def Follows (depth : Int) (search : Searcher (Watched σ)) (plain : Searcher n) : Prop :=
  ∀ {κ : Type} [Answer κ] (input : Input) (env : Environment) (k : Continuation (Watched σ) κ)
    (k' : Continuation n κ), env.depth = depth → env.maxDepth = M.low → M.Continues depth k k' →
    M.Shows depth depth (search input env k) (plain input (env.capped M.high) k')

variable {M} {before between after depth : Int}

/-! ### One computation after the other -/

lemma shows_pure (a : α) : M.Shows depth depth (pure a) (pure a) := by
  apply Watched.writes_pure
  intro state
  refine ⟨⟨trivial, fun _ _ => Int.add_zero depth⟩, fun _ events => ?_⟩
  rw [M.read_pure, List.append_nil]

lemma shows_throw (interrupt : Interrupt) : M.Shows before after
    (throwThe Interrupt interrupt : Watched σ α) (throwThe Interrupt interrupt) := by
  apply Watched.writes_throw
  intro state
  refine ⟨⟨trivial, fun _ h => by cases h⟩, fun _ events => ?_⟩
  rw [M.read_throw, List.append_nil]

lemma Shows.bind {x : Watched σ α} {y : n α} {f : α → Watched σ β} {g : α → n β}
    (h : M.Shows before between x y) (hnext : ∀ a, M.Shows between after (f a) (g a)) :
    M.Shows before after (x >>= f) (y >>= g) := by
  apply Writes.bind h
  · rintro state interrupt state' new ⟨⟨hfit, -⟩, hread⟩
    refine ⟨⟨hfit, fun _ h => by cases h⟩, fun hcalm events => ?_⟩
    rw [M.read_bind, hread hcalm]
  · rintro state a state' new ⟨⟨hfit, hopen⟩, hread⟩
    apply (hnext a).mono
    rintro state₁ answer state₂ new' ⟨⟨hfit', hopen'⟩, hread'⟩ rfl
    have hbetween := hopen a rfl
    refine ⟨⟨fit_append.mpr ⟨hfit, by rwa [hbetween]⟩, fun b hb => ?_⟩, fun hcalm events => ?_⟩
    · rw [openReferences_append, ← Int.add_assoc, hbetween, hopen' b hb]
    · have hboth : M.low = M.high ∨ Calm new ∧ Calm new' := by rwa [← calm_append]
      rw [M.read_bind, hread (hboth.imp_right And.left), ← List.append_assoc]
      exact hread' (hboth.imp_right And.right) (events ++ new)

/-- An event does not show, but it may change how many references are open. -/
lemma shows_tell {event : Event} (hfits : event.Fits M.low before)
    (hquiet : ∀ env j, event ≠ .handed env j) :
    M.Shows before (before + event.change) (Watched.tell event) (pure ()) := by
  apply Watched.writes_tell
  intro state
  refine ⟨⟨⟨hfits, trivial⟩, fun _ _ => ?_⟩, fun _ events => ?_⟩
  · rw [openReferences_cons, openReferences_nil, Int.add_zero]
  · rw [M.read_pure, M.view_concat state events event hquiet]

variable [LawfulMonad n]

lemma Shows.map {x : Watched σ α} {y : n α} (h : M.Shows before after x y) (f : α → β) :
    M.Shows before after (f <$> x) (f <$> y) := by
  rw [map_eq_pure_bind, map_eq_pure_bind]
  exact h.bind fun a => shows_pure (f a)

/-- What is told first does not show. -/
lemma Shows.told {x : Watched σ α} {y : n α} (event : Event)
    (h : M.Shows between after x y) (hfits : event.Fits M.low before)
    (hchange : before + event.change = between) (hquiet : ∀ env j, event ≠ .handed env j) :
    M.Shows before after (do Watched.tell event; x) y := by
  rw [← pure_bind () fun _ => y]
  rw [← hchange] at h
  exact (shows_tell hfits hquiet).bind fun _ => h

/-- What is told last does not show. -/
lemma Shows.tells {x : Watched σ α} {y : n α} (event : Event) (h : M.Shows before between x y)
    (hfits : event.Fits M.low between) (hchange : between + event.change = after)
    (hquiet : ∀ env j, event ≠ .handed env j) :
    M.Shows before after (do let a ← x; Watched.tell event; pure a) y := by
  rw [← bind_pure y]
  apply h.bind
  intro a
  exact (shows_pure a).told event hfits hchange hquiet

lemma Shows.called {x : Watched σ α} {y : n α} {visit : Visit}
    (h : M.Shows depth depth x y) (hdepth : visit.env.depth = depth) :
    M.Shows depth depth (do Watched.tell (.called visit); x) y :=
  h.told _ hdepth (Int.add_zero depth) fun _ _ => Event.noConfusion

lemma Shows.weigh {x : Watched σ α} {y : n α} (h : M.Shows depth depth x y)
    (best : Option Failure) (f : Failure) :
    M.Shows depth depth (do Watched.weigh best f; x) y := by
  cases best with
  | none =>
    rw [Watched.weigh, pure_bind]
    exact h
  | some best =>
    exact h.told _ trivial (Int.add_zero depth) fun _ _ => Event.noConfusion

omit [LawfulMonad n] in
/-- Where the watched search meets its ceiling, the plain one may do anything, unless its ceiling is
the same. -/
lemma shows_ceiling {name : Text} {env : Environment} {a : α} {y : n α}
    (h : M.low = M.high → y = pure a) :
    M.Shows depth depth (do Watched.tell (.ceiling name env); pure a) y := by
  constructor
  intro state
  refine ⟨⟨⟨trivial, trivial⟩, fun _ _ => Int.add_zero depth⟩, ?_⟩
  rintro (hsame | hcalm) seen
  · rw [h hsame, M.read_pure]
    exact congrArg _ (M.view_concat _ _ _ fun _ _ => Event.noConfusion).symm
  · exact absurd List.mem_cons_self (hcalm name env)

/-! ### Runs of items and single items -/

lemma shows_offer {k : α → Watched σ κ} {k' : α → n κ}
    (attempts : List α) (h : ∀ a ∈ attempts, M.Shows depth depth (k a) (k' a))
    (best : Option Failure) :
    M.Shows depth depth (watchedOffer k attempts best) (offer k' attempts best) := by
  induction attempts generalizing best with
  | nil => exact shows_pure _
  | cons a attempts ih =>
    rw [watchedOffer, offer]
    apply (h a List.mem_cons_self).bind
    intro x
    cases failure? x with
    | none => exact shows_pure _
    | some f => exact (ih (fun a ha => h a (List.mem_cons_of_mem _ ha)) _).weigh best f

lemma follows_constant (value : Value) :
    M.Follows depth (searchConstant value) (searchConstant value) := by
  rintro κ _ ⟨shape, items⟩ env k k' hdepth hcap hk
  cases items with
  | nil => exact shows_pure (M := M) _
  | cons item others =>
    simp only [searchConstant]
    by_cases h : item.equal value = true
    · rw [if_pos h, if_pos h]
      exact (hk env 1 hdepth hcap).map _
    · rw [if_neg h, if_neg h]
      exact shows_pure _

lemma follows_element (name : Text) (only : Option Restriction) :
    M.Follows depth (searchElement name only) (searchElement name only) := by
  rintro κ _ ⟨shape, items⟩ env k k' hdepth hcap hk
  cases items with
  | nil => exact shows_pure (M := M) _
  | cons item others =>
    simp only [searchElement, Environment.get?_capped]
    by_cases hallowed : (!allowed only item) = true
    · rw [if_pos hallowed, if_pos hallowed]
      exact shows_pure _
    · rw [if_neg hallowed, if_neg hallowed]
      cases env.get? name with
      | none => exact (hk (env.extend name item) 1 hdepth hcap).map _
      | some bound =>
        dsimp only
        by_cases h : bound.equal item = true
        · rw [if_pos h, if_pos h]
          exact (hk env 1 hdepth hcap).map _
        · rw [if_neg h, if_neg h]
          exact shows_pure _

lemma follows_rest : M.Follows depth watchedRest searchRest := by
  intro κ _ input env k k' hdepth hcap hk
  apply (shows_offer _ (fun j _ => hk env j hdepth hcap) none).bind
  rintro (best | x)
  · exact shows_pure _
  · exact shows_pure _

lemma follows_segment (name : Text) (only : Option Restriction) :
    M.Follows depth (watchedSegment name only) (searchSegment name only) := by
  rintro κ _ ⟨shape, items⟩ env k k' hdepth hcap hk
  cases items with
  | nil =>
    simp only [watchedSegment, searchSegment]
    exact shows_pure _
  | cons item others =>
    cases h : env.get? name with
    | none =>
      simp only [watchedSegment, searchSegment, Environment.get?_capped, h]
      apply (shows_offer _ (fun j _ => hk (env.extend name _) j hdepth hcap) none).bind
      rintro (best | x)
      · exact shows_pure _
      · exact shows_pure _
    | some bound =>
      simp only [watchedSegment, searchSegment, Environment.get?_capped, h]
      match bound with
      | .seq _ (first :: others) =>
        dsimp only
        cases replayConflict only ⟨shape, item :: _⟩ 0 (first :: others) (item :: _) with
        | some f => exact shows_pure _
        | none => exact (hk env _ hdepth hcap).map _
      | .seq _ [] | .null | .bool _ | .int _ | .float _ | .str _ | .dict _ | .rest | .form _
      | .matcher _ => exact shows_pure _

lemma follows_segmentExact (name : Text) (only : Option Restriction) :
    M.Follows depth (watchedSegmentExact name only) (searchSegmentExact name only) := by
  intro κ _ input env k k' hdepth hcap hk
  apply (follows_segment name only input env _ _ hdepth hcap _).map
  intro env' j hdepth' hcap'
  dsimp only
  split
  · exact (hk env' j hdepth' hcap').map _
  · exact shows_pure _

/-! ### Combinations -/

section Call

variable {call : Scope → Text → Searcher (Watched σ)} {plain : Text → Searcher n} {scope : Scope}

variable (M call plain) in
/-- As `Follows`, for the elements of an array. -/
def FollowsElements [Predicates] (depth : Int) (elements : List Matcher) (scope : Scope) : Prop :=
  ∀ {κ : Type} [Answer κ] (whole : Input) (offset : Nat) (input : Input) (env : Environment)
    (k : Environment → Watched σ κ) (k' : Environment → n κ),
    env.depth = depth → env.maxDepth = M.low →
    (∀ env, env.depth = depth → env.maxDepth = M.low →
      M.Shows depth depth (k env) (k' (env.capped M.high))) →
    M.Shows depth depth (watchedElements call elements scope whole offset input env k)
      (searchElements plain elements whole offset input (env.capped M.high) k')

lemma followsElements_nil : M.FollowsElements call plain depth [] scope := by
  intro κ _ whole offset input env k k' hdepth hcap hk
  rw [watchedElements, searchElements]
  by_cases h : input.items.isEmpty = true
  · rw [if_pos h, if_pos h]
    exact (hk env hdepth hcap).map _
  · rw [if_neg h, if_neg h]
    exact shows_pure _

lemma followsElements_cons {element : Matcher} {elements : List Matcher}
    (helement : M.Follows depth (element.watched call scope) (element.search plain))
    (helements : M.FollowsElements call plain depth elements scope) :
    M.FollowsElements call plain depth (element :: elements) scope := by
  intro κ _ whole offset input env k k' hdepth hcap hk
  rw [watchedElements, searchElements_cons]
  apply (helement input env _ _ hdepth hcap _).map
  intro env' j hdepth' hcap'
  exact helements whole _ _ env' k k' hdepth' hcap' hk

lemma follows_array {elements : List Matcher}
    (h : M.FollowsElements call plain depth elements scope) :
    M.Follows depth ((Matcher.array elements).watched call scope)
      ((Matcher.array elements).search plain) := by
  rintro κ _ ⟨shape, items⟩ env k k' hdepth hcap hk
  simp only [Matcher.watched]
  apply Shows.called _ hdepth
  match items with
  | .seq shape' inner :: others =>
    rw [Matcher.search_array_seq]
    exact (h _ _ _ env _ _ hdepth hcap fun env' hdepth' hcap' => hk env' 1 hdepth' hcap').map _
  | [] | .null :: _ | .bool _ :: _ | .int _ :: _ | .float _ :: _ | .str _ :: _ | .dict _ :: _
  | .rest :: _ | .form _ :: _ | .matcher _ :: _ => exact shows_pure _

lemma follows_alternatives_cons {alternative : Matcher} {alternatives : List Matcher}
    (halternative : M.Follows depth (alternative.watched call scope) (alternative.search plain))
    (halternatives : ∀ best, M.Follows depth (watchedAlternatives call alternatives scope best)
      (searchAlternatives plain alternatives best)) (best : Option Failure) :
    M.Follows depth (watchedAlternatives call (alternative :: alternatives) scope best)
      (searchAlternatives plain (alternative :: alternatives) best) := by
  intro κ _ input env k k' hdepth hcap hk
  simp only [watchedAlternatives, searchAlternatives]
  apply (halternative input env k k' hdepth hcap hk).bind
  intro verdict
  cases failure? verdict with
  | none => exact shows_pure _
  | some f => exact (halternatives _ input env k k' hdepth hcap hk).weigh best f

/-- A matcher that runs no other one is watched from outside only. -/
lemma follows_called {matcher : Matcher}
    (hwatched : ∀ {κ : Type} [Answer κ] (input : Input) (env : Environment)
      (k : Continuation (Watched σ) κ), matcher.watched call scope input env k = do
        Watched.tell (.called ⟨matcher, input.items, env, scope⟩)
        matcher.search (call scope) input env k)
    (h : M.Follows depth (matcher.search (call scope)) (matcher.search plain)) :
    M.Follows depth (matcher.watched call scope) (matcher.search plain) := by
  intro κ _ input env k k' hdepth hcap hk
  dsimp only
  rw [hwatched]
  exact (h input env k k' hdepth hcap hk).called hdepth

mutual

/-- A plain search goes in step with a watched one, if it does at every reference. -/
theorem follows_watched [Predicates]
    (hcall : ∀ scope name, M.Follows depth (call scope name) (plain name)) :
    (matcher : Matcher) → (scope : Scope) →
      M.Follows depth (matcher.watched call scope) (matcher.search plain)
  | .constant value, _ => follows_called (fun _ _ _ => rfl) (follows_constant value)
  | .element name only, _ => follows_called (fun _ _ _ => rfl) (follows_element name only)
  | .reference name, scope => follows_called (fun _ _ _ => rfl) (hcall scope name)
  | .abstract _, _ => follows_called (fun _ _ _ => rfl) fun _ _ _ _ _ _ _ => shows_throw _
  | .segment name only, _ => fun input env k k' hdepth hcap hk =>
    (follows_segment name only input env k k' hdepth hcap hk).called hdepth
  | .segmentExact name only, _ => fun input env k k' hdepth hcap hk =>
    (follows_segmentExact name only input env k k' hdepth hcap hk).called hdepth
  | .rest, _ => fun input env k k' hdepth hcap hk =>
    (follows_rest input env k k' hdepth hcap hk).called hdepth
  | .array elements, scope => follows_array (followsElements hcall elements scope)
  | .choice alternatives, scope => fun input env k k' hdepth hcap hk =>
    (follows_alternatives hcall alternatives scope none input env k k' hdepth hcap hk).called
      hdepth
  | .letrec rules body, scope => fun input env _ _ hdepth hcap hk =>
    (follows_watched hcall body ((rules, body) :: scope) input (env.define (namedRules rules)) _ _
      hdepth hcap fun env' j hdepth' hcap' => hk (env'.scopedTo env) j hdepth' hcap').called hdepth

theorem followsElements [Predicates]
    (hcall : ∀ scope name, M.Follows depth (call scope name) (plain name)) :
    (elements : List Matcher) → (scope : Scope) →
      M.FollowsElements call plain depth elements scope
  | [], _ => followsElements_nil
  | element :: elements, scope => followsElements_cons (follows_watched hcall element scope)
      (followsElements hcall elements scope)

theorem follows_alternatives [Predicates]
    (hcall : ∀ scope name, M.Follows depth (call scope name) (plain name)) :
    (alternatives : List Matcher) → (scope : Scope) → (best : Option Failure) →
      M.Follows depth (watchedAlternatives call alternatives scope best)
        (searchAlternatives plain alternatives best)
  | [], _, _ => fun _ _ _ _ _ _ _ => shows_pure _
  | alternative :: alternatives, scope, best =>
    follows_alternatives_cons (follows_watched hcall alternative scope)
      (follows_alternatives hcall alternatives scope) best

end

end Call

/-! ### References -/

omit [Answer κ] in
/-- Outside the rule of a reference the search goes on at the depth of the reference. -/
lemma continues_left {k : Continuation (Watched σ) κ} {k' : Continuation n κ}
    (hbelow : depth < M.low) (hk : M.Continues depth k k') :
    M.Continues (depth + 1)
      (fun env j => do
        tell .left
        let x ← k (env.atDepth depth) j
        tell .resumed
        pure x)
      (fun env j => k' (env.atDepth depth) j) := by
  intro env j _ hcap
  dsimp only
  rw [Environment.atDepth_capped]
  have h := hk (env.atDepth depth) j (env.atDepth_depth depth)
    ((env.atDepth_maxDepth depth).trans hcap)
  apply Shows.told .left _ trivial (Int.add_sub_cancel depth 1) fun _ _ => Event.noConfusion
  exact h.tells .resumed hbelow rfl fun _ _ => Event.noConfusion

/-- Below the ceiling a reference runs its rule one level deeper, if the stack has room. -/
lemma shows_opened (stack : Option Nat) (name : Text) {target : Matcher}
    {call : Scope → Text → Searcher (Watched σ)} {plain : Text → Searcher n} {scope : Scope}
    (htarget : M.Follows (depth + 1) (target.watched call scope) (target.search plain))
    (input : Input) {env : Environment} {k : Continuation (Watched σ) κ} {k' : Continuation n κ}
    (hdepth : env.depth = depth) (hcap : env.maxDepth = M.low) (hbelow : env.depth < M.low)
    (hk : M.Continues depth k k') :
    M.Shows depth depth
      (if stack.any fun limit => (limit : Int) ≤ env.depth then throwThe Interrupt .stackExhausted
      else do
        tell (.opened name env)
        let verdict ← target.watched call scope input env.descend fun env' j => do
          tell .left
          let x ← k (env'.atDepth env.depth) j
          tell .resumed
          pure x
        tell .closed
        pure verdict)
      (if stack.any fun limit => (limit : Int) ≤ (env.capped M.high).depth then
        throw .stackExhausted
      else
        target.search plain input (env.capped M.high).descend fun env' j =>
          k' (env'.atDepth (env.capped M.high).depth) j) := by
  rw [Environment.capped_depth]
  split
  · exact shows_throw _
  · subst hdepth
    have hinner := htarget input env.descend _ _ rfl hcap (continues_left hbelow hk)
    apply Shows.told (.opened name env) _ ⟨rfl, hbelow⟩ rfl fun _ _ => Event.noConfusion
    exact hinner.tells .closed trivial (Int.add_sub_cancel env.depth 1) fun _ _ =>
      Event.noConfusion

/-- References go in step, if the plain search has room for as many as the watched one. -/
lemma follows_call (stack : Option Nat) {room room' : Nat} (hroom : room ≤ room')
    (hsame : M.low = M.high → room = room') (scope : Scope) (name : Text) :
    M.Follows depth (watchedCall stack room scope name) (callRule stack room' name) := by
  induction room generalizing room' depth scope name with
  | zero =>
    intro κ _ input env k k' hdepth hcap hk
    simp only [watchedCall]
    cases h : env.matcher? name with
    | none =>
      simp only [callRule, Environment.matcher?_capped, h]
      exact shows_pure _
    | some target =>
      apply shows_ceiling
      intro heq
      obtain rfl := hsame heq
      simp only [callRule, Environment.matcher?_capped, h]
  | succ room ih =>
    intro κ _ input env k k' hdepth hcap hk
    obtain ⟨room', rfl⟩ : ∃ j, room' = j + 1 := ⟨room' - 1, by omega⟩
    simp only [watchedCall, callRule, Environment.matcher?_capped]
    cases h : env.matcher? name with
    | none => exact shows_pure (M := M) _
    | some target =>
      by_cases hbelow : env.depth < M.low
      · have hlow : env.exhausted = false := Environment.exhausted_of_lt (hcap ▸ hbelow)
        have hhigh : (env.capped M.high).exhausted = false :=
          Environment.exhausted_of_lt (Int.lt_of_lt_of_le hbelow M.low_le_high)
        have hcalls (scope : Scope) (name : Text) : M.Follows (depth + 1)
            (watchedCall stack room scope name) (callRule stack room' name) :=
          ih (Nat.le_of_succ_le_succ hroom) (fun heq => Nat.succ.inj (hsame heq)) scope name
        simp only [hlow, hhigh, Bool.false_eq_true, if_false]
        exact shows_opened stack name (follows_watched hcalls target scope) input hdepth hcap hbelow
          hk
      · have habove : M.low ≤ env.depth := Int.not_lt.mp hbelow
        have hlow : env.exhausted = true := Environment.exhausted_of_le (hcap ▸ habove)
        simp only [hlow, if_true]
        apply shows_ceiling
        intro heq
        have hhigh : (env.capped M.high).exhausted = true :=
          Environment.exhausted_of_le (heq ▸ habove)
        simp only [hhigh, if_true]

/-- A plain search goes in step with a watched one. -/
theorem shows_watchedFrom (stack : Option Nat) (matcher : Matcher) (input : Input)
    {env : Environment} {k : Continuation (Watched σ) κ} {k' : Continuation n κ}
    (hcap : env.maxDepth = M.low) (hk : M.Continues env.depth k k') :
    M.Shows env.depth env.depth (matcher.watchedFrom stack input env k)
      (matcher.searchFrom stack input (env.capped M.high) k') := by
  have hroom : env.room ≤ (env.capped M.high).room := by
    have := M.low_le_high
    simp only [Environment.room, Environment.capped, hcap]
    omega
  have hsame : M.low = M.high → env.room = (env.capped M.high).room := by
    intro heq
    simp only [Environment.room, Environment.capped, hcap, heq]
  exact follows_watched (follows_call stack hroom hsame) matcher [] input env k k' rfl hcap hk

end Mirror

end Motif
