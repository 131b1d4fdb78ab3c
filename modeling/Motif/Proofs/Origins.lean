import Motif.Proofs.Outcome
import Motif.Proofs.Scope
import Motif.Proofs.Trace

/-!
# Where failures come from

A search fails with a report of its own or hands a failure on that comes from outside of it. The
reports of every kind of matcher are listed here once; `accounts_watched` shows that there are no
others. With a failure goes what was seen on the way to it: which references met the ceiling, and
which failures were weighed against each other.
-/

namespace Motif

variable {H : Predicates}

/-! ### Reports of single matchers -/

/-- The reports with which a matcher gives up at once. -/
inductive Matcher.Complains [Predicates] (input : Input) : Matcher → Failure → Prop where
  | constantEnd {value : Value} (h : input.items = []) :
    Complains input (.constant value) (.report .constant .unexpectedEnd input.toValue 0 none)
  | unequal {value item : Value} {others : List Value} (h : input.items = item :: others)
    (hunequal : item.equal value = false) :
    Complains input (.constant value)
      (.report .constant .unexpectedValue (.tuple [item, value]) 0 none)
  | elementEnd {name : Text} {only : Option Restriction} (h : input.items = []) :
    Complains input (.element name only) (.report .element .unexpectedEnd input.toValue 0 none)
  | elementRefused {name : Text} {only : Option Restriction} {item : Value} {others : List Value}
    (h : input.items = item :: others) (hallowed : allowed only item = false) :
    Complains input (.element name only) (.report .element .restrictionNotSatisfied item 0 none)
  | elementConflict {name : Text} {only : Option Restriction} {item bound : Value}
    {others : List Value} (h : input.items = item :: others) :
    Complains input (.element name only)
      (.report .element .bindingConflict (.tuple [item, bound]) 0 none)
  | segmentEnd {name : Text} {only : Option Restriction} :
    Complains input (.segment name only)
      (.report .segment .unexpectedEnd input.toValue input.items.length none)
  | segmentRefused {name : Text} {only : Option Restriction} {item : Value} {n : Nat}
    (h : input.items[n]? = some item) (hallowed : allowed only item = false) :
    Complains input (.segment name only) (.report .segment .restrictionNotSatisfied item n none)
  | segmentConflict {name : Text} {only : Option Restriction} {item bound : Value} {n : Nat}
    (h : input.items[n]? = some item) :
    Complains input (.segment name only)
      (.report .segment .bindingConflict (.tuple [item, bound]) n none)
  | exact {name : Text} {only : Option Restriction} {f : Failure}
    (h : Complains input (.segment name only) f) : Complains input (.segmentExact name only) f
  | fallsShort {name : Text} {only : Option Restriction} {n : Nat} (hpos : 0 < n)
    (h : n < input.items.length) :
    Complains input (.segmentExact name only) (.report .segment .keepTrying input.toValue n none)
  | arrayEnd {elements : List Matcher} (h : input.items = []) :
    Complains input (.array elements) (.report .array .unexpectedEnd input.toValue 0 none)
  | noList {elements : List Matcher} {item : Value} {others : List Value}
    (h : input.items = item :: others) (hitem : item.items? = none) :
    Complains input (.array elements) (.report .array .unexpectedValue item 0 none)
  | noAlternatives :
    Complains input (.choice []) (.report .choice .noAlternative input.toValue 0 none)
  | notFound {name : Text} :
    Complains input (.reference name) (.report .reference .referenceNotFound (.str name) 0 none)

/-- The reports with which a matcher gives up after attempts of which `best` is the best one. -/
inductive Matcher.GivesUp [Predicates] (input : Input) (best : Failure) : Matcher → Failure →
    Prop where
  | refused {name : Text} {only : Option Restriction} {item : Value} {n : Nat}
    (h : input.items[n]? = some item) (hallowed : allowed only item = false) :
    GivesUp input best (.segment name only)
      (.report .segment .restrictionNotSatisfied item n (some best))
  | segmentEnd {name : Text} {only : Option Restriction} :
    GivesUp input best (.segment name only)
      (.report .segment .indexOutOfRange input.toValue input.items.length (some best))
  | exact {name : Text} {only : Option Restriction} {f : Failure}
    (h : GivesUp input best (.segment name only) f) : GivesUp input best (.segmentExact name only) f
  | restEnd : GivesUp input best .rest
      (.report .rest .indexOutOfRange input.toValue input.items.length (some best))
  | noAlternative {alternatives : List Matcher} (h : alternatives ≠ []) :
    GivesUp input best (.choice alternatives)
      (.report .choice .noAlternative input.toValue 0 (some best))

/-- The failure of an array one of whose elements fails with `f` at `offset`. -/
def Failure.inArray (whole : Input) (offset : Nat) (f : Failure) : Failure :=
  if Landing.speaksOf whole (f.relocate offset) then f.relocate offset
  else .causedBy ⟨.array, .unexpectedInput, whole.toValue,
    if f.top.located then offset else offset + f.top.offset, true⟩ (f.relocate offset)

/-! ### Failures of searches -/

/-- Who is asked about a failure. -/
inductive Origin where
  /-- A search of an input, for the failure that it reports. -/
  | search (matcher : Matcher) (input : Input)
  /-- A search, for one of the failures that it weighs. -/
  | attempt (matcher : Matcher) (input : Input)
  /-- A search, for the best failure so far. -/
  | best (matcher : Matcher) (input : Input)
  /-- The continuation of a search. -/
  | outside

/-- A failure can come from an origin inside of `lists`, the lists of the enclosing arrays from the
inside out, after what was seen on the way to it. Only matchers of `ran` complain or give up. The
continuation of the outermost search fails in no way. -/
inductive Arises [Predicates] (ran : Matcher → Prop) : List Input → Origin → Failure → List Event →
    Prop where
  | complaint {lists : List Input} {matcher : Matcher} {input : Input} {f : Failure}
    (hran : ran matcher) (h : matcher.Complains input f) :
    Arises ran lists (.search matcher input) f []
  | ceiling {lists : List Input} {input : Input} {name : Text} {env : Environment} :
    Arises ran lists (.search (.reference name) input)
      (.report .reference .depthExceeded (.str name) 0 none) [.ceiling name env]
  | gaveUp {lists : List Input} {matcher : Matcher} {input : Input} {best f : Failure}
    {seen : List Event} (hran : ran matcher)
    (hbest : Arises ran lists (.best matcher input) best seen)
    (h : matcher.GivesUp input best f) : Arises ran lists (.search matcher input) f seen
  | leftover {lists : List Input} {elements : List Matcher} {shape shape' : Shape}
    {inner others : List Value} {offset : Nat} (hoffset : offset < inner.length) :
    Arises ran lists (.search (.array elements) ⟨shape, .seq shape' inner :: others⟩)
      (Landing.leftoverAt ⟨shape', inner⟩ offset) []
  | array {lists : List Input} {elements : List Matcher} {element : Matcher} {shape shape' : Shape}
    {inner others : List Value} {offset : Nat} {f : Failure} {seen : List Event}
    (hoffset : offset ≤ inner.length)
    (h : Arises ran (⟨shape', inner⟩ :: lists) (.search element ⟨shape', inner.drop offset⟩) f
      seen) :
    Arises ran lists (.search (.array elements) ⟨shape, .seq shape' inner :: others⟩)
      (f.inArray ⟨shape', inner⟩ offset) seen
  | letrec {lists : List Input} {rules : List (Value × Matcher)} {body : Matcher} {input : Input}
    {f : Failure} {seen : List Event} (h : Arises ran lists (.search body input) f seen) :
    Arises ran lists (.search (.letrec rules body) input) f seen
  | reference {lists : List Input} {name : Text} {target : Matcher} {input : Input} {f : Failure}
    {seen : List Event} (h : Arises ran lists (.search target input) f seen) :
    Arises ran lists (.search (.reference name) input) f seen
  | alternative {lists : List Input} {alternatives : List Matcher} {alternative : Matcher}
    {input : Input} {f : Failure} {seen : List Event} (hmem : alternative ∈ alternatives)
    (h : Arises ran lists (.search alternative input) f seen) :
    Arises ran lists (.attempt (.choice alternatives) input) f seen
  | fallsShort {lists : List Input} {name : Text} {only : Option Restriction} {input : Input}
    {n : Nat} (h : n < input.items.length) :
    Arises ran lists (.attempt (.segmentExact name only) input)
      (.report .segment .keepTrying input.toValue n none) []
  | answer {lists : List Input} {matcher : Matcher} {input : Input} {f : Failure}
    {seen : List Event} (h : Arises ran lists .outside f seen) :
    Arises ran lists (.attempt matcher input) f seen
  | first {lists : List Input} {matcher : Matcher} {input : Input} {f : Failure}
    {seen : List Event} (h : Arises ran lists (.attempt matcher input) f seen) :
    Arises ran lists (.best matcher input) f seen
  | better {lists : List Input} {matcher : Matcher} {input : Input} {best f : Failure}
    {seen seen' : List Event} (hbest : Arises ran lists (.best matcher input) best seen)
    (h : Arises ran lists (.attempt matcher input) f seen') :
    Arises ran lists (.best matcher input) (Failure.better (some best) f)
      (seen ++ seen' ++ [.weighed best f])
  | leftoverLater {lists : List Input} {whole : Input} {offset : Nat}
    (hoffset : offset < whole.items.length) :
    Arises ran (whole :: lists) .outside (Landing.leftoverAt whole offset) []
  | later {lists : List Input} {whole : Input} {element : Matcher} {offset : Nat} {f : Failure}
    {seen : List Event} (hoffset : offset ≤ whole.items.length)
    (h : Arises ran (whole :: lists) (.search element (whole.drop offset)) f seen) :
    Arises ran (whole :: lists) .outside (f.relocate offset) seen
  | beyond {lists : List Input} {whole : Input} {f : Failure} {seen : List Event}
    (h : Arises ran lists .outside f seen) : Arises ran (whole :: lists) .outside f seen

/-! ### What is seen on the way -/

/-- Whether an event is one of those that go with a failure. -/
def Event.isNotable : Event → Bool
  | .ceiling .. | .weighed .. => true
  | _ => false

/-- What is seen on the way to a failure. -/
def notable (events : List Event) : List Event := events.filter Event.isNotable

@[simp] lemma notable_nil : notable [] = [] := rfl

@[simp] lemma notable_append (events events' : List Event) :
    notable (events ++ events') = notable events ++ notable events' :=
  List.filter_append ..

namespace Watched

variable {σ α κ κ' : Type} [Answer κ] [Answer κ'] {ran : Matcher → Prop}
  {Q : κ → Failure → List Event → Prop} {Q' : κ' → Failure → List Event → Prop}

/-- If a computation that runs no matchers but those of `ran` answers with a failure, `Q` relates
the answer to the failure and to what was seen. -/
def Fails (ran : Matcher → Prop) (x : Watched σ κ) (Q : κ → Failure → List Event → Prop) : Prop :=
  x.Writes fun _ answer _ new => OnlyRuns (ran ·.matcher) new →
    ∀ a f, answer = .ok a → failure? a = some f → Q a f (notable new)

lemma fails_pure {a : κ} (h : ∀ f, failure? a = some f → Q a f []) :
    Fails ran (pure a : Watched σ κ) Q := by
  apply writes_pure
  rintro state - _ f ⟨⟩ hf
  exact h f hf

lemma fails_throw (interrupt : Interrupt) :
    Fails ran (throwThe Interrupt interrupt : Watched σ κ) Q := by
  apply writes_throw
  rintro state - _ f ⟨⟩

lemma Fails.map {x : Watched σ κ} (h : x.Fails ran Q) {g : κ → κ'}
    (hg : ∀ a f', failure? (g a) = some f' →
      ∃ f, failure? a = some f ∧ ∀ seen, Q a f seen → Q' (g a) f' seen) :
    (g <$> x).Fails ran Q' := by
  apply Writes.map h
  intro state answer state' new hQ hruns b f' hb hf'
  cases answer with
  | error interrupt => cases hb
  | ok a =>
    cases hb
    obtain ⟨f, hf, himp⟩ := hg a f' hf'
    exact himp _ (hQ hruns a f rfl hf)

/-- Events that are not notable are not seen. -/
lemma Fails.told {x : Watched σ κ} (h : x.Fails ran Q) {event : Event}
    (hevent : event.isNotable = false) : Fails ran (do tell event; x) Q := by
  apply Writes.bind (P := fun _ _ _ new => notable new = []) (writes_tell _)
  · intro state interrupt state' new _ _ a f ha
    cases ha
  · rintro state ⟨⟩ state' new hnew
    apply h.mono
    intro state₁ answer state₂ new' hQ _ hruns a f ha hf
    rw [notable_append, hnew, List.nil_append]
    exact hQ (onlyRuns_append.mp hruns).2 a f ha hf
  · intro state
    exact List.filter_cons_of_neg (by simp [hevent])

/-- A matcher that is run is one of those that may be. -/
lemma Fails.called {x : Watched σ κ} {visit : Visit}
    (h : x.Fails ran fun a f seen => ran visit.matcher → Q a f seen) :
    Fails ran (do tell (.called visit); x) Q := by
  apply Writes.bind (P := fun _ _ _ new => new = [.called visit]) (writes_tell fun _ => rfl)
  · intro state interrupt state' new _ _ a f ha
    cases ha
  · rintro state ⟨⟩ state' new rfl
    apply h.mono
    intro state₁ answer state₂ new' hQ _ hruns a f ha hf
    have hran : ran visit.matcher := hruns visit List.mem_cons_self
    exact hQ (onlyRuns_append.mp hruns).2 a f ha hf hran

lemma Fails.tells {x : Watched σ κ} (h : x.Fails ran Q) {event : Event}
    (hevent : event.isNotable = false) : Fails ran (do let a ← x; tell event; pure a) Q := by
  have hpure (a : κ) : Fails ran (pure a : Watched σ κ) fun b _ seen => b = a ∧ seen = [] :=
    fails_pure fun _ _ => ⟨rfl, rfl⟩
  apply Writes.bind h
  · intro state interrupt state' new _ _ a f ha
    cases ha
  · intro state a state' new hQ
    apply ((hpure a).told hevent).mono
    intro state₁ answer state₂ new' hafter _ hruns b f hb hf
    obtain ⟨hruns, hruns'⟩ := onlyRuns_append.mp hruns
    obtain ⟨rfl, hseen⟩ := hafter hruns' b f hb hf
    rw [notable_append, hseen, List.append_nil]
    exact hQ hruns b f rfl hf

end Watched

/-! ### Searches that account for their failures -/

/-- An array's failures inside of its list can come from the continuation of an element. -/
def Landing.Accounted [Predicates] {κ : Type} (ran : Matcher → Prop)
    (Q : κ → Failure → List Event → Prop) (lists : List Input) (whole : Input) : Landing κ →
    Failure → List Event → Prop
  | .outer x, f, seen => Q x f seen
  | .leftover _, f, seen =>
    seen = [] ∧ ∃ offset, offset < whole.items.length ∧ f = leftoverAt whole offset
  | .placed _ position, f, seen => ∃ element offset g, offset ≤ whole.items.length ∧
    Arises ran (whole :: lists) (.search element (whole.drop offset)) g seen ∧
      f = g.relocate offset ∧
      position = if g.top.located then (offset : Int) else offset + g.top.offset

/-- A search's own failure can come from its matcher, and any other from its continuation. -/
def Verdict.Accounted [Predicates] {κ : Type} (ran : Matcher → Prop)
    (Q : κ → Failure → List Event → Prop) (lists : List Input) (matcher : Matcher) (input : Input) :
    Verdict κ → Failure → List Event → Prop
  | .own _, f, seen => Arises ran lists (.search matcher input) f seen
  | .passed x, f, seen => Q x f seen

/-- As `Verdict.Accounted`, if the matcher is one of those that report. -/
def Verdict.AccountedIfRun [Predicates] {κ : Type} (ran : Matcher → Prop)
    (Q : κ → Failure → List Event → Prop) (lists : List Input) (matcher : Matcher) (input : Input)
    (verdict : Verdict κ) (f : Failure) (seen : List Event) : Prop :=
  ran matcher → verdict.Accounted ran Q lists matcher input f seen

variable {σ κ : Type} {ran : Matcher → Prop}

/-- A search that fails in no other ways than `Arises` says, if its continuation does. -/
def Accounts [Predicates] (ran : Matcher → Prop) (matcher : Matcher)
    (search : Searcher (Watched σ)) : Prop :=
  ∀ {κ : Type} [Answer κ] (lists : List Input) (input : Input) (env : Environment)
    (k : Continuation (Watched σ) κ) (Q : κ → Failure → List Event → Prop),
    (∀ x f seen, Q x f seen → Arises ran lists .outside f seen) →
    (∀ env' n, n ≤ input.items.length → (k env' n).Fails ran Q) →
    (search input env k).Fails ran (Verdict.Accounted ran Q lists matcher input)

/-- As `Accounts`, for what a matcher does after it was run. -/
def AccountsIfRun [Predicates] (ran : Matcher → Prop) (matcher : Matcher)
    (search : Searcher (Watched σ)) : Prop :=
  ∀ {κ : Type} [Answer κ] (lists : List Input) (input : Input) (env : Environment)
    (k : Continuation (Watched σ) κ) (Q : κ → Failure → List Event → Prop),
    (∀ x f seen, Q x f seen → Arises ran lists .outside f seen) →
    (∀ env' n, n ≤ input.items.length → (k env' n).Fails ran Q) →
    (search input env k).Fails ran (Verdict.AccountedIfRun ran Q lists matcher input)

section Rules

variable [Answer κ] {lists : List Input} {matcher : Matcher} {input : Input}
  {Q : κ → Failure → List Event → Prop}

/-- A search may give up at once. -/
lemma fails_complaint {f : Failure} (h : matcher.Complains input f) :
    Watched.Fails ran (pure (.own f) : Watched σ (Verdict κ))
      (Verdict.AccountedIfRun ran Q lists matcher input) := by
  apply Watched.fails_pure
  rintro _ ⟨⟩ hran
  exact .complaint hran h

/-- A search may hand on what its continuation answers. -/
lemma fails_passed {x : Watched σ κ} (h : x.Fails ran Q) :
    Watched.Fails ran (.passed <$> x) (Verdict.AccountedIfRun ran Q lists matcher input) := by
  apply h.map
  intro a f hf
  exact ⟨f, hf, fun _ hQ _ => hQ⟩

end Rules

/-! ### Weighing failures -/

/-- The best failure so far, if there is any, comes from what was weighed and seen so far. -/
def Weighed [Predicates] (ran : Matcher → Prop) (lists : List Input) (matcher : Matcher)
    (input : Input) : Option Failure → List Event → Prop
  | none, seen => seen = []
  | some best, seen => Arises ran lists (.best matcher input) best seen

section Weighed

variable {lists : List Input} {matcher : Matcher} {input : Input}

variable (ran lists matcher input) in
lemma weighed_better (best : Option Failure) (f : Failure) :
    ∃ more, (Watched.weigh best f : Watched σ Unit).Writes
        (fun _ answer _ new => answer = .ok () → notable new = more) ∧
      ∀ seen seen', Weighed ran lists matcher input best seen →
        Arises ran lists (.attempt matcher input) f seen' →
        Weighed ran lists matcher input (some (Failure.better best f)) (seen ++ seen' ++ more) := by
  cases best with
  | none =>
    refine ⟨[], Watched.writes_pure fun _ _ => rfl, ?_⟩
    rintro _ seen' rfl h
    rw [List.nil_append, List.append_nil]
    exact .first h
  | some best =>
    exact ⟨[.weighed best f], Watched.writes_tell fun _ _ => rfl, fun _ _ => .better⟩

/-- After every attempt has been refused, the best of the failures remains. What is known of the
best one before may hang on what was run before. -/
lemma writes_offer {α : Type} [Answer κ] {k : α → Watched σ κ} (attempts : List α)
    (hk : ∀ a ∈ attempts,
      (k a).Fails ran fun _ f seen => Arises ran lists (.attempt matcher input) f seen)
    {best : Option Failure} {seen : List Event} {given : Prop}
    (hbest : given → Weighed ran lists matcher input best seen) :
    (watchedOffer k attempts best).Writes fun _ answer _ new => OnlyRuns (ran ·.matcher) new →
    given →
      (∀ x, answer = .ok (.ok x) → failure? x = none) ∧
        ∀ best', answer = .ok (.error best') →
          Weighed ran lists matcher input best' (seen ++ notable new) ∧
            (attempts ≠ [] ∨ best ≠ none → best' ≠ none) := by
  induction attempts generalizing best seen given with
  | nil =>
    apply Watched.writes_pure
    intro state _ hgiven
    refine ⟨nofun, ?_⟩
    rintro _ ⟨⟩
    rw [notable_nil, List.append_nil]
    exact ⟨hbest hgiven, fun h => h.resolve_left fun h => h rfl⟩
  | cons a attempts ih =>
    apply Watched.Writes.bind (hk a List.mem_cons_self)
    · intro state interrupt state' new _ _ _
      exact ⟨nofun, nofun⟩
    · intro state x state' new hx
      cases hf : failure? x with
      | none =>
        apply Watched.writes_pure
        rintro state₁ - - -
        refine ⟨?_, nofun⟩
        rintro _ ⟨⟩
        exact hf
      | some f =>
        obtain ⟨more, hweigh, hbetter⟩ := weighed_better (σ := σ) ran lists matcher input best f
        apply Watched.Writes.bind hweigh
        · intro state₁ interrupt state₂ new₁ _ _ _ _
          exact ⟨nofun, nofun⟩
        · rintro state₁ ⟨⟩ state₂ new₁ hmore
          have hothers := ih (fun a ha => hk a (List.mem_cons_of_mem _ ha))
            fun h : given ∧ OnlyRuns (ran ·.matcher) new =>
              hbetter seen _ (hbest h.1) (hx h.2 x f rfl hf)
          apply hothers.mono
          rintro state₃ answer state₄ new₂ h - - hruns hgiven
          obtain ⟨hnew, hruns⟩ := onlyRuns_append.mp hruns
          obtain ⟨hok, herror⟩ := h (onlyRuns_append.mp hruns).2 ⟨hgiven, hnew⟩
          refine ⟨hok, fun best' hbest' => ?_⟩
          obtain ⟨hweighed, hsome⟩ := herror best' hbest'
          rw [notable_append, notable_append, hmore rfl, ← List.append_assoc, ← List.append_assoc]
          exact ⟨hweighed, fun _ => hsome (.inr (Option.some_ne_none _))⟩

/-- A search that reports the best failure of its attempts. -/
lemma fails_offer {α : Type} [Answer κ] {k : α → Watched σ κ} {attempts : List α}
    {Q : κ → Failure → List Event → Prop}
    (hk : ∀ a ∈ attempts,
      (k a).Fails ran fun _ f seen => Arises ran lists (.attempt matcher input) f seen)
    {refused : Option Failure → Failure}
    (hrefused : ran matcher → ∀ best seen, Weighed ran lists matcher input best seen →
      (attempts ≠ [] → best ≠ none) →
      Arises ran lists (.search matcher input) (refused best) seen) :
    Watched.Fails ran
      (do
        match ← watchedOffer k attempts none with
        | .ok x => pure (.passed x)
        | .error best => pure (.own (refused best)))
      (Verdict.AccountedIfRun ran Q lists matcher input) := by
  have hoffer := writes_offer attempts hk
    fun _ : True => show Weighed ran lists matcher input none [] from rfl
  apply Watched.Writes.bind hoffer
  · intro state interrupt state' new _ _ a f ha
    cases ha
  · rintro state (best | x) state' new h
    · apply Watched.writes_pure
      rintro state₁ - hruns _ f ⟨⟩ ⟨⟩ hran
      obtain ⟨-, herror⟩ := h (onlyRuns_append.mp hruns).1 trivial
      obtain ⟨hweighed, hsome⟩ := herror best rfl
      rw [List.nil_append] at hweighed
      rw [List.append_nil]
      exact hrefused hran best _ hweighed fun h => hsome (.inl h)
    · apply Watched.writes_pure
      rintro state₁ - hruns _ f ⟨⟩ hf
      obtain ⟨hok, -⟩ := h (onlyRuns_append.mp hruns).1 trivial
      have hx : failure? x = none := hok x rfl
      have hf' : failure? x = some f := hf
      rw [hx] at hf'
      cases hf'

end Weighed

/-! ### Single items and runs of items -/

lemma accounts_constant (value : Value) :
    AccountsIfRun (σ := σ) ran (.constant value) (searchConstant value) := by
  rintro κ _ lists ⟨shape, items⟩ env k Q hQ hk
  cases items with
  | nil => exact fails_complaint (.constantEnd rfl)
  | cons item others =>
    simp only [searchConstant]
    cases h : item.equal value with
    | true => exact fails_passed (hk env 1 (by simp))
    | false => exact fails_complaint (.unequal rfl h)

lemma accounts_element (name : Text) (only : Option Restriction) :
    AccountsIfRun (σ := σ) ran (.element name only) (searchElement name only) := by
  rintro κ _ lists ⟨shape, items⟩ env k Q hQ hk
  cases items with
  | nil => exact fails_complaint (.elementEnd rfl)
  | cons item others =>
    have hone : 1 ≤ (item :: others).length := by simp
    simp only [searchElement]
    cases hallowed : allowed only item with
    | false => exact fails_complaint (.elementRefused rfl hallowed)
    | true =>
      cases env.get? name with
      | none => exact fails_passed (hk (env.extend name item) 1 hone)
      | some bound =>
        dsimp only
        cases bound.equal item with
        | true => exact fails_passed (hk env 1 hone)
        | false => exact fails_complaint (.elementConflict rfl)

lemma accounts_rest : AccountsIfRun (σ := σ) ran .rest watchedRest := by
  intro κ _ lists input env k Q hQ hk
  apply fails_offer
  · intro n hn
    apply (hk env n (Nat.lt_succ_iff.mp (List.mem_range.mp hn))).mono
    intro state answer state' new h hruns x f hx hf
    exact .answer (hQ x f _ (h hruns x f hx hf))
  · intro hran best seen hweighed hsome
    cases best with
    | none => exact absurd rfl (hsome (by simp))
    | some best => exact .gaveUp hran hweighed .restEnd

lemma complains_of_replayConflict {name : Text} {only : Option Restriction} {input : Input}
    {index : Nat} {expected items : List Value} {f : Failure} (hindex : index ≤ input.items.length)
    (hitems : input.items.drop index = items)
    (h : replayConflict only input index expected items = some f) :
    (Matcher.segment name only).Complains input f := by
  induction expected generalizing index items with
  | nil => cases h
  | cons v expected ih =>
    cases items with
    | nil =>
      obtain rfl : index = input.items.length :=
        Nat.le_antisymm hindex (List.drop_eq_nil_iff.mp hitems)
      cases h
      exact .segmentEnd
    | cons item items =>
      have hitem : input.items[index]? = some item := by
        rw [← List.head?_drop, hitems, List.head?_cons]
      have hlt : index < input.items.length := (List.getElem?_eq_some_iff.mp hitem).1
      have hnext : input.items.drop (index + 1) = items := by
        rw [← List.tail_drop, hitems, List.tail_cons]
      simp only [replayConflict] at h
      cases hequal : item.equal v with
      | false =>
        simp only [hequal, Bool.not_false, if_true] at h
        cases h
        exact .segmentConflict hitem
      | true =>
        cases hallowed : allowed only item with
        | false =>
          simp only [hequal, hallowed, Bool.not_true, Bool.not_false, Bool.false_eq_true, if_false,
            if_true] at h
          cases h
          exact .segmentRefused hitem hallowed
        | true =>
          simp only [hequal, hallowed, Bool.not_true, Bool.false_eq_true, if_false] at h
          exact ih hlt hnext h

lemma allowed_eq_false_of_stop {only : Option Restriction} {items : List Value} {item : Value}
    (h : items[(items.takeWhile (allowed only)).length]? = some item) :
    allowed only item = false := by
  have hsplit : (items.takeWhile (allowed only) ++ items.dropWhile (allowed only))[
      (items.takeWhile (allowed only)).length]? = some item := by
    rwa [List.takeWhile_append_dropWhile]
  rw [List.getElem?_append_right (Nat.le_refl _), Nat.sub_self, ← List.head?_eq_getElem?] at hsplit
  have hstop := List.head?_dropWhile_not (allowed only) items
  rw [hsplit] at hstop
  exact hstop

/-- A segment that cannot grow any further reports the item that it may not take, or the end. -/
lemma gaveUp_segmentStopped {lists : List Input} {matcher : Matcher} {name : Text}
    {only : Option Restriction} {input : Input} {best : Option Failure} {seen : List Event}
    (hcomplains : ∀ f, (Matcher.segment name only).Complains input f → matcher.Complains input f)
    (hgivesUp : ∀ best f, (Matcher.segment name only).GivesUp input best f →
      matcher.GivesUp input best f)
    (hran : ran matcher) (hitems : input.items ≠ [])
    (hweighed : Weighed ran lists matcher input best seen)
    (hsome : segmentLengths only input.items ≠ [] → best ≠ none) :
    Arises ran lists (.search matcher input) (segmentStopped only input best) seen := by
  cases hitem : input.items[(input.items.takeWhile (allowed only)).length]? with
  | some item =>
    have hallowed := allowed_eq_false_of_stop hitem
    simp only [segmentStopped, hitem]
    cases best with
    | none =>
      obtain rfl : seen = [] := hweighed
      exact .complaint hran (hcomplains _ (.segmentRefused hitem hallowed))
    | some best => exact .gaveUp hran hweighed (hgivesUp _ _ (.refused hitem hallowed))
  | none =>
    simp only [segmentStopped, hitem]
    cases best with
    | none =>
      -- a segment that has reached the end of a list has tried a length at least
      refine absurd rfl (hsome fun hlengths => hitems ?_)
      have hlength : (input.items.takeWhile (allowed only)).length = 0 := by
        rw [segmentLengths, List.map_eq_nil_iff] at hlengths
        exact List.range_eq_nil.mp hlengths
      rw [hlength, List.getElem?_eq_none_iff, Nat.le_zero] at hitem
      exact List.length_eq_zero_iff.mp hitem
    | some best => exact .gaveUp hran hweighed (hgivesUp _ _ .segmentEnd)

/-- What a segment does, on its own or as one that must reach the end of its list. It always takes
an item at least. -/
lemma fails_watchedSegment [Answer κ] {lists : List Input} {matcher : Matcher} {name : Text}
    {only : Option Restriction} {input : Input} {env : Environment} {k : Continuation (Watched σ) κ}
    {Q : κ → Failure → List Event → Prop}
    (hcomplains : ∀ f, (Matcher.segment name only).Complains input f → matcher.Complains input f)
    (hgivesUp : ∀ best f, (Matcher.segment name only).GivesUp input best f →
      matcher.GivesUp input best f)
    (hQ : ∀ x f seen, Q x f seen → Arises ran lists (.attempt matcher input) f seen)
    (hk : ∀ env' n, 0 < n → n ≤ input.items.length → (k env' n).Fails ran Q) :
    (watchedSegment name only input env k).Fails ran
      (Verdict.AccountedIfRun ran Q lists matcher input) := by
  obtain ⟨shape, items⟩ := input
  cases items with
  | nil =>
    simp only [watchedSegment, searchSegment]
    exact fails_complaint (hcomplains _ .segmentEnd)
  | cons item others =>
    cases hname : env.get? name with
    | none =>
      simp only [watchedSegment, hname]
      apply fails_offer
      · intro n hn
        obtain ⟨hpos, hlength, -⟩ := mem_segmentLengths.mp hn
        apply (hk _ n hpos hlength).mono
        intro state answer state' new h hruns x f hx hf
        exact hQ x f _ (h hruns x f hx hf)
      · intro hran best seen hweighed hsome
        exact gaveUp_segmentStopped hcomplains hgivesUp hran (List.cons_ne_nil _ _) hweighed hsome
    | some bound =>
      simp only [watchedSegment, searchSegment, hname]
      cases bound with
      | seq _ values =>
        cases values with
        | nil => exact fails_complaint (hcomplains _ (.segmentConflict (n := 0) rfl))
        | cons first rest =>
          dsimp only
          cases hconflict : replayConflict only ⟨shape, item :: others⟩ 0 (first :: rest)
            (item :: others) with
          | some f =>
            exact fails_complaint
              (hcomplains _ (complains_of_replayConflict (Nat.zero_le _) rfl hconflict))
          | none =>
            have hreplays := (replayConflict_eq_none_iff only ⟨shape, item :: others⟩ 0 _ _).mp
              hconflict
            exact fails_passed (hk env _ (Nat.succ_pos _) (length_le_of_replays hreplays))
      | _ => exact fails_complaint (hcomplains _ (.segmentConflict (n := 0) rfl))

lemma accounts_segment (name : Text) (only : Option Restriction) :
    AccountsIfRun (σ := σ) ran (.segment name only) (watchedSegment name only) := by
  intro κ _ lists input env k Q hQ hk
  exact fails_watchedSegment (fun _ h => h) (fun _ _ h => h)
    (fun x f seen h => .answer (hQ x f seen h)) fun env' n _ hn => hk env' n hn

/-- What the continuation of a segment that must reach the end of its list answers with. -/
def Verdict.Short (Q : κ → Failure → List Event → Prop) (input : Input) :
    Verdict κ → Failure → List Event → Prop
  | .own _, f, seen => seen = [] ∧ ∃ n, 0 < n ∧ n < input.items.length ∧
    f = .report .segment .keepTrying input.toValue n none
  | .passed x, f, seen => Q x f seen

lemma accounts_segmentExact (name : Text) (only : Option Restriction) :
    AccountsIfRun (σ := σ) ran (.segmentExact name only) (watchedSegmentExact name only) := by
  intro κ _ lists input env k Q hQ hk
  have hshort (verdict : Verdict κ) (f : Failure) (seen : List Event)
      (h : verdict.Short Q input f seen) :
      Arises ran lists (.attempt (.segmentExact name only) input) f seen := by
    cases verdict with
    | own g =>
      obtain ⟨rfl, n, -, hn, rfl⟩ := h
      exact .fallsShort hn
    | passed x => exact .answer (hQ x f seen h)
  apply Watched.Fails.map (fails_watchedSegment (fun _ h => .exact h) (fun _ _ h => .exact h) hshort
    fun env' n hpos hn => ?_)
  · rintro (g | (g | x)) f hf
    · exact ⟨f, hf, fun _ h => h⟩
    · refine ⟨f, hf, ?_⟩
      intro seen h hran
      obtain ⟨rfl, n, hpos, hn, rfl⟩ := h hran
      exact .complaint hran (.fallsShort hpos hn)
    · exact ⟨f, hf, fun _ h => h⟩
  · split
    · rename_i hend
      exact (hk env' n hn).map fun x f hf => ⟨f, hf, fun _ h => h⟩
    · rename_i hshorter
      apply Watched.fails_pure
      rintro _ ⟨⟩
      exact ⟨rfl, n, hpos, Nat.lt_of_le_of_ne hn hshorter, rfl⟩

/-! ### Combinations -/

section Call

variable {call : Scope → Text → Searcher (Watched σ)} {scope : Scope}

variable (ran call) in
/-- As `Accounts`, for the elements of an array. -/
def AccountsElements [Predicates] (elements : List Matcher) : Prop :=
  ∀ {κ : Type} [Answer κ] (scope : Scope) (lists : List Input) (whole : Input) (offset : Nat)
    (env : Environment) (k : Environment → Watched σ κ) (Q : κ → Failure → List Event → Prop),
    offset ≤ whole.items.length → (∀ x f seen, Q x f seen → Arises ran lists .outside f seen) →
    (∀ env', (k env').Fails ran Q) →
    (watchedElements call elements scope whole offset (whole.drop offset) env k).Fails ran
      (Landing.Accounted ran Q lists whole)

lemma settle_placed (whole : Input) (offset : Nat) (f : Failure) :
    (Landing.settle whole (.placed (f.relocate offset)
      (if f.top.located then (offset : Int) else offset + f.top.offset)) : Verdict κ) =
        .own (f.inArray whole offset) := by
  rw [Landing.settle, Failure.inArray]
  split <;> rfl

/-- For an element of an array, the rest of the array is its continuation. -/
lemma arises_outside_of_landing {lists : List Input} {whole : Input}
    {Q : κ → Failure → List Event → Prop}
    (hQ : ∀ x f seen, Q x f seen → Arises ran lists .outside f seen) {landing : Landing κ}
    {f : Failure} {seen : List Event} (h : landing.Accounted ran Q lists whole f seen) :
    Arises ran (whole :: lists) .outside f seen := by
  cases landing with
  | outer x => exact .beyond (hQ x f seen h)
  | leftover g =>
    obtain ⟨rfl, offset, hoffset, rfl⟩ := h
    exact .leftoverLater hoffset
  | placed g position =>
    obtain ⟨element, offset, g, hoffset, hg, rfl, -⟩ := h
    exact .later hoffset hg

lemma accountsElements_nil : AccountsElements ran call [] := by
  intro κ _ scope lists whole offset env k Q hoffset hQ hk
  rw [watchedElements]
  split
  · apply (hk env).map
    intro x f hf
    exact ⟨f, hf, fun _ h => h⟩
  · rename_i hrest
    apply Watched.fails_pure
    rintro _ ⟨⟩
    refine ⟨rfl, offset, ?_, rfl⟩
    rw [Input.drop, List.isEmpty_iff, List.drop_eq_nil_iff] at hrest
    exact Nat.lt_of_not_le hrest

lemma accountsElements_cons {element : Matcher} {elements : List Matcher}
    (helement : ∀ scope, Accounts ran element (element.watched call scope))
    (helements : AccountsElements ran call elements) :
    AccountsElements ran call (element :: elements) := by
  intro κ _ scope lists whole offset env k Q hoffset hQ hk
  have hothers (env' : Environment) (n : Nat) (hn : n ≤ (whole.drop offset).items.length) :
      (watchedElements call elements scope whole (offset + n) ((whole.drop offset).drop n) env'
        k).Fails ran (Landing.Accounted ran Q lists whole) := by
    have hdrop : (whole.drop offset).drop n = whole.drop (offset + n) := by
      simp only [Input.drop, List.drop_drop]
    rw [Input.drop, List.length_drop] at hn
    rw [hdrop]
    exact helements scope lists whole (offset + n) env' k Q (by omega) hQ hk
  have hsearch := helement scope (whole :: lists) (whole.drop offset) env _ _
    (fun _ _ _ h => arises_outside_of_landing hQ h) hothers
  rw [watchedElements]
  apply hsearch.map
  rintro (g | landing) f hf
  · cases hf
    exact ⟨g, rfl, fun seen h => ⟨element, offset, g, hoffset, h, rfl, rfl⟩⟩
  · exact ⟨f, hf, fun _ h => h⟩

lemma accounts_array {elements : List Matcher} (h : AccountsElements ran call elements) :
    Accounts ran (.array elements) ((Matcher.array elements).watched call scope) := by
  rintro κ _ lists ⟨shape, items⟩ env k Q hQ hk
  simp only [Matcher.watched]
  apply Watched.Fails.called
  cases items with
  | nil => exact fails_complaint (.arrayEnd rfl)
  | cons item others =>
    cases item with
    | seq shape' inner =>
      have hone : 1 ≤ (Value.seq shape' inner :: others).length := by simp
      have hinner := h scope lists ⟨shape', inner⟩ 0 env (fun env' => k env' 1) Q (Nat.zero_le _) hQ
        fun env' => hk env' 1 hone
      apply hinner.map
      rintro (x | g | ⟨g, position⟩) f hf
      · exact ⟨f, hf, fun _ h _ => h⟩
      · refine ⟨f, hf, ?_⟩
        rintro seen ⟨rfl, offset, hoffset, rfl⟩ -
        exact .leftover hoffset
      · refine ⟨g, rfl, ?_⟩
        rintro seen ⟨element, offset, g', hoffset, hg', rfl, rfl⟩ -
        rw [settle_placed] at hf ⊢
        cases hf
        exact .array hoffset hg'
    | _ => exact fails_complaint (.noList rfl rfl)

/-- What alternatives fail with, those before being weighed already. What is known of these may hang
on what was run before. -/
def AccountsAlternatives [Predicates] (ran : Matcher → Prop)
    (call : Scope → Text → Searcher (Watched σ)) (all alternatives : List Matcher) : Prop :=
  ∀ {κ : Type} [Answer κ] (scope : Scope) (lists : List Input) (best : Option Failure)
  (earlier : List Event)
    (input : Input) (env : Environment) (k : Continuation (Watched σ) κ)
    (Q : κ → Failure → List Event → Prop) (given : Prop),
    (given → Weighed ran lists (.choice all) input best earlier) →
    (best = none → alternatives = all) → (best ≠ none → all ≠ []) →
    (∀ x f seen, Q x f seen → Arises ran lists .outside f seen) →
    (∀ env' n, n ≤ input.items.length → (k env' n).Fails ran Q) →
    (watchedAlternatives call alternatives scope best input env k).Fails ran fun verdict f seen =>
      given → verdict.AccountedIfRun ran Q lists (.choice all) input f (earlier ++ seen)

lemma accountsAlternatives_nil {all : List Matcher} : AccountsAlternatives ran call all [] := by
  intro κ _ scope lists best earlier input env k Q given hbest hnone hsome hQ hk
  apply Watched.fails_pure
  rintro _ ⟨⟩ hgiven hran
  rw [List.append_nil]
  cases best with
  | none =>
    obtain rfl : earlier = [] := hbest hgiven
    obtain rfl : [] = all := hnone rfl
    exact .complaint hran .noAlternatives
  | some best => exact .gaveUp hran (hbest hgiven) (.noAlternative (hsome (Option.some_ne_none _)))

lemma accountsAlternatives_cons {all : List Matcher} {alternative : Matcher}
    {alternatives : List Matcher} (hmem : alternative ∈ all)
    (halternative : ∀ scope, Accounts ran alternative (alternative.watched call scope))
    (halternatives : AccountsAlternatives ran call all alternatives) :
    AccountsAlternatives ran call all (alternative :: alternatives) := by
  intro κ _ scope lists best earlier input env k Q given hbest hnone hsome hQ hk
  simp only [watchedAlternatives]
  apply Watched.Writes.bind (halternative scope lists input env k Q hQ hk)
  · intro state interrupt state' new _ _ a f ha
    cases ha
  · intro state verdict state' new hverdict
    cases hf : failure? verdict with
    | none =>
      apply Watched.writes_pure
      rintro state₁ - - _ f ⟨⟩ hf'
      rw [hf] at hf'
      cases hf'
    | some f =>
      have hattempt (hruns : OnlyRuns (ran ·.matcher) new) :
          Arises ran lists (.attempt (.choice all) input) f (notable new) := by
        have haccounted := hverdict hruns verdict f rfl hf
        cases verdict with
        | own g => exact .alternative hmem haccounted
        | passed x => exact .answer (hQ x f _ haccounted)
      obtain ⟨more, hweigh, hbetter⟩ :=
        weighed_better (σ := σ) ran lists (.choice all) input best f
      apply Watched.Writes.bind hweigh
      · intro state₁ interrupt state₂ new₁ _ _ _ a f ha
        cases ha
      · rintro state₁ ⟨⟩ state₂ new₁ hmore
        apply (halternatives scope lists _ _ input env k Q (given ∧ OnlyRuns (ran ·.matcher) new)
          (fun h => hbetter earlier _ (hbest h.1) (hattempt h.2))
          (fun hnone' => absurd hnone' (Option.some_ne_none _))
          (fun _ => List.ne_nil_of_mem hmem) hQ hk).mono
        intro state₃ answer state₄ new₂ hothers _ _ hruns a f' ha hf' hgiven
        obtain ⟨hnew, hruns⟩ := onlyRuns_append.mp hruns
        rw [notable_append, notable_append, hmore rfl, ← List.append_assoc, ← List.append_assoc]
        exact hothers (onlyRuns_append.mp hruns).2 a f' ha hf' ⟨hgiven, hnew⟩

lemma accounts_letrec {rules : List (Value × Matcher)} {body : Matcher}
    (h : ∀ scope, Accounts ran body (body.watched call scope)) :
    Accounts ran (.letrec rules body) ((Matcher.letrec rules body).watched call scope) := by
  intro κ _ lists input env k Q hQ hk
  simp only [Matcher.watched]
  apply Watched.Fails.told _ rfl
  have hbody := h ((rules, body) :: scope) lists input (env.define (namedRules rules)) _ Q hQ
    fun env' n => hk (env'.scopedTo env) n
  apply hbody.mono
  intro state answer state' new hfails hruns verdict f hverdict hf
  have haccounted := hfails hruns verdict f hverdict hf
  cases verdict with
  | own g => exact .letrec haccounted
  | passed x => exact haccounted

mutual

/-- A search accounts for its failures, if every reference does. -/
theorem accounts_watched [Predicates]
    (hcall : ∀ scope name, AccountsIfRun ran (.reference name) (call scope name)) :
    (matcher : Matcher) → (scope : Scope) → Accounts ran matcher (matcher.watched call scope)
  | .constant value, _ => fun lists input env k Q hQ hk =>
    (accounts_constant value lists input env k Q hQ hk).called
  | .element name only, _ => fun lists input env k Q hQ hk =>
    (accounts_element name only lists input env k Q hQ hk).called
  | .segment name only, _ => fun lists input env k Q hQ hk =>
    (accounts_segment name only lists input env k Q hQ hk).called
  | .segmentExact name only, _ => fun lists input env k Q hQ hk =>
    (accounts_segmentExact name only lists input env k Q hQ hk).called
  | .rest, _ => fun lists input env k Q hQ hk =>
    (accounts_rest lists input env k Q hQ hk).called
  | .array elements, _ => accounts_array (accountsElements hcall elements)
  | .choice alternatives, scope => fun lists input env k Q hQ hk =>
    Watched.Fails.called <| (accountsAlternatives hcall alternatives alternatives
      (List.Subset.refl _) scope lists none [] input env k Q True (fun _ => rfl) (fun _ => rfl)
      (fun h => absurd rfl h) hQ hk).mono
        fun _ _ _ _ h hruns verdict f hverdict hf => h hruns verdict f hverdict hf trivial
  | .reference name, scope => fun lists input env k Q hQ hk =>
    (hcall scope name lists input env k Q hQ hk).called
  | .letrec _ body, _ => accounts_letrec (accounts_watched hcall body)
  | .abstract _, _ => fun _ _ _ _ _ _ _ => (Watched.fails_throw _).told rfl

theorem accountsElements [Predicates]
    (hcall : ∀ scope name, AccountsIfRun ran (.reference name) (call scope name)) :
    (elements : List Matcher) → AccountsElements ran call elements
  | [] => accountsElements_nil
  | element :: elements =>
    accountsElements_cons (accounts_watched hcall element) (accountsElements hcall elements)

theorem accountsAlternatives [Predicates]
    (hcall : ∀ scope name, AccountsIfRun ran (.reference name) (call scope name)) :
    (all alternatives : List Matcher) → alternatives ⊆ all →
    AccountsAlternatives ran call all alternatives
  | _, [], _ => accountsAlternatives_nil
  | all, alternative :: alternatives, hsub =>
    accountsAlternatives_cons (hsub List.mem_cons_self) (accounts_watched hcall alternative)
      (accountsAlternatives hcall all alternatives (List.subset_of_cons_subset hsub))

end

end Call

/-! ### References -/

lemma fails_ceiling [Answer κ] {lists : List Input} {input : Input} {name : Text}
    {env : Environment} {Q : κ → Failure → List Event → Prop} :
    Watched.Fails ran
      (do
        Watched.tell (.ceiling name env)
        pure (.own (.report .reference .depthExceeded (.str name) 0 none)) : Watched σ (Verdict κ))
      (Verdict.AccountedIfRun ran Q lists (.reference name) input) := by
  constructor
  rintro state - _ f ⟨⟩ ⟨⟩ -
  exact .ceiling

/-- A reference fails as its rule does, with the continuation of the reference. -/
lemma fails_opened [Answer κ] {call : Scope → Text → Searcher (Watched σ)} {scope : Scope}
    {name : Text} {target : Matcher} (htarget : Accounts ran target (target.watched call scope))
    {lists : List Input} {input : Input} {env : Environment} {k : Continuation (Watched σ) κ}
    {Q : κ → Failure → List Event → Prop}
    (hQ : ∀ x f seen, Q x f seen → Arises ran lists .outside f seen)
    (hk : ∀ env' n, n ≤ input.items.length → (k env' n).Fails ran Q) :
    Watched.Fails ran
      (do
        Watched.tell (.opened name env)
        let verdict ← target.watched call scope input env.descend fun env' n => do
          Watched.tell .left
          let x ← k (env'.atDepth env.depth) n
          Watched.tell .resumed
          pure x
        Watched.tell .closed
        pure verdict)
      (Verdict.AccountedIfRun ran Q lists (.reference name) input) := by
  apply Watched.Fails.told _ rfl
  apply Watched.Fails.tells _ rfl
  apply (htarget lists input env.descend _ Q hQ fun env' n hn => ?_).mono
  · intro state answer state' new h hruns verdict f hverdict hf _
    have haccounted := h hruns verdict f hverdict hf
    cases verdict with
    | own g => exact .reference haccounted
    | passed x => exact haccounted
  · exact ((hk (env'.atDepth env.depth) n hn).tells rfl).told rfl

lemma accounts_watchedCall (stack : Option Nat) (room : Nat) (scope : Scope) (name : Text) :
    AccountsIfRun (σ := σ) ran (.reference name) (watchedCall stack room scope name) := by
  induction room generalizing scope name with
  | zero =>
    intro κ _ lists input env k Q hQ hk
    simp only [watchedCall]
    cases env.matcher? name with
    | none => exact fails_complaint .notFound
    | some target => exact fails_ceiling
  | succ room ih =>
    intro κ _ lists input env k Q hQ hk
    simp only [watchedCall]
    cases env.matcher? name with
    | none => exact fails_complaint .notFound
    | some target =>
      cases env.exhausted with
      | true => exact fails_ceiling
      | false =>
        simp only [Bool.false_eq_true, if_false]
        split
        · exact Watched.fails_throw _
        · exact fails_opened (accounts_watched ih target scope) hQ hk

lemma Matcher.accounts_watchedFrom (stack : Option Nat) (matcher : Matcher) :
    Accounts (σ := σ) ran matcher (matcher.watchedFrom stack) :=
  fun lists input env k Q hQ hk =>
    accounts_watched (accounts_watchedCall stack env.room) matcher [] lists input env k Q hQ hk

/-! ### Failures of a match -/

lemma fails_keep (env : Environment) (n : Nat) :
    ((Success.keep : Continuation (Stateful σ) Success).watched env n).Fails ran
      fun _ _ _ => False := by
  constructor
  rintro state - _ f ⟨⟩ ⟨⟩

/-- The matchers that a match runs. -/
def Matcher.RunsIn [Predicates] (limits : Limits) (matcher : Matcher) (datum : Value)
    (inner : Matcher) : Prop :=
  ∃ visit, .called visit ∈ matcher.traceOf limits datum ∧ visit.matcher = inner

variable {limits : Limits} {matcher : Matcher} {datum : Value} {f : Failure}

lemma arises_of_start
    (h : matcher.start limits datum Success.keep = (.ok (.own f) : Except Interrupt _)) :
    Arises (matcher.RunsIn limits datum) [] (.search matcher (.single datum)) f
      (notable (matcher.traceOf limits datum)) := by
  have hfails : (matcher.watchedFrom limits.stack (.single datum) (.empty limits.maxDepth)
      (Success.keep : Continuation (Stateful Unit) Success).watched).Fails
        (matcher.RunsIn limits datum)
        (Verdict.Accounted _ (fun _ _ _ => False) [] matcher (.single datum)) :=
    matcher.accounts_watchedFrom limits.stack _ _ _ _ _ (fun _ _ _ h => h.elim)
      fun env n _ => fails_keep env n
  have hanswer := hfails.ending ()
  rw [Matcher.ending_watchedFrom, ← Matcher.start_eq_ending, h] at hanswer
  exact hanswer (fun visit hv => ⟨visit, hv, rfl⟩) (.own f) f rfl rfl

/-- The failure of a match comes from its matcher, if the stack was not exhausted. -/
theorem Matcher.arises_of_outcome (h : matcher.outcome limits datum = .ok (.failure f)) :
    Arises (matcher.RunsIn limits datum) [] (.search matcher (.single datum)) f
        (notable (matcher.traceOf limits datum)) ∨
      matcher.start limits datum Success.keep = (.error .stackExhausted : Except Interrupt _) ∧
        ∃ kind, f = .report kind .depthExceeded datum 0 none := by
  cases hstart : matcher.start (m := Except Interrupt) limits datum Success.keep with
  | ok verdict =>
    rw [Matcher.outcome_of_start hstart] at h
    cases verdict with
    | own g =>
      cases h
      exact .inl (arises_of_start hstart)
    | passed result => cases h
  | error interrupt =>
    rw [Matcher.outcome_of_interrupt hstart] at h
    cases interrupt with
    | stackExhausted =>
      rw [Interrupt.failure?] at h
      cases hkind : matcher.kind? with
      | none =>
        rw [hkind, Option.map_none] at h
        cases h
      | some kind =>
        rw [hkind, Option.map_some] at h
        cases h
        exact .inr ⟨rfl, kind, rfl⟩
    | unimplemented => cases h

end Motif
