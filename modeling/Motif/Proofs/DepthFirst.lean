import Motif.Outcome
import Motif.Proofs.Ways

/-!
# Searching is trying the ways in order

A search hands the ways of its matcher to its continuation, one after the other, up to the first
that the continuation accepts, and it ends with that answer. This holds of every continuation,
whatever it does besides answering: the calls come in the order of the ways, and there are no
others.
-/

namespace Motif

section

variable {H : Predicates}

variable {m : Type → Type} [Monad m] {α β κ : Type} [Answer κ]

/-! ### Accepted answers -/

/-- An answer that is no failure. -/
def accepted? (x : κ) : Option κ :=
  match failure? x with
  | none => some x
  | some _ => none

/-- The answer of the continuation that a verdict hands on, if it is no failure. -/
def Verdict.accepted? : Verdict κ → Option κ
  | .own _ => none
  | .passed x => Motif.accepted? x

/-- The answer from outside that the search of an array's contents hands on, if it is no failure. -/
def Landing.accepted? : Landing κ → Option κ
  | .outer x => Motif.accepted? x
  | .leftover _ | .placed .. => none

@[simp] lemma Verdict.accepted?_own (f : Failure) : (Verdict.own f : Verdict κ).accepted? = none :=
  rfl

@[simp] lemma Verdict.accepted?_passed (x : κ) :
    (Verdict.passed x).accepted? = Motif.accepted? x := rfl

lemma accepted?_eq_some_iff {x y : κ} : accepted? x = some y ↔ failure? x = none ∧ x = y := by
  unfold accepted?
  cases failure? x <;> simp

lemma accepted?_eq_none_iff {x : κ} : accepted? x = none ↔ ∃ f, failure? x = some f := by
  unfold accepted?
  cases failure? x <;> simp

/-- A verdict that hands on no accepted answer is a failure. -/
lemma Verdict.accepted?_eq_none_iff {v : Verdict κ} :
    v.accepted? = none ↔ Motif.accepted? v = none := by
  cases v with
  | own f => simp [Motif.accepted?, failure?]
  | passed x =>
    have h : failure? (Verdict.passed x) = failure? x := rfl
    rw [Motif.accepted?_eq_none_iff, h, accepted?_passed, Motif.accepted?_eq_none_iff]

lemma Landing.accepted?_eq_none_iff {landing : Landing κ} :
    landing.accepted? = none ↔ Motif.accepted? landing = none := by
  cases landing with
  | outer x =>
    have h : failure? (Landing.outer x) = failure? x := rfl
    rw [Motif.accepted?_eq_none_iff, h, accepted?, Motif.accepted?_eq_none_iff]
  | leftover f => simp [Landing.accepted?, Motif.accepted?, failure?]
  | placed f position => simp [Landing.accepted?, Motif.accepted?, failure?]

lemma Verdict.accepted?_join (v : Verdict (Verdict κ)) :
    v.join.accepted? = v.accepted?.bind Verdict.accepted? := by
  cases v with
  | own f => rfl
  | passed w =>
    rw [Verdict.accepted?_passed]
    cases h : Motif.accepted? w with
    | none => exact Verdict.accepted?_eq_none_iff.mpr h
    | some w' =>
      obtain ⟨-, rfl⟩ := accepted?_eq_some_iff.mp h
      rfl

lemma Landing.accepted?_ofElement (offset : Nat) (v : Verdict (Landing κ)) :
    (Landing.ofElement offset v).accepted? = v.accepted?.bind Landing.accepted? := by
  cases v with
  | own f => rfl
  | passed landing =>
    rw [Verdict.accepted?_passed]
    cases h : Motif.accepted? landing with
    | none => exact Landing.accepted?_eq_none_iff.mpr h
    | some landing' =>
      obtain ⟨-, rfl⟩ := accepted?_eq_some_iff.mp h
      rfl

lemma Landing.accepted?_settle (whole : Input) (landing : Landing κ) :
    (Landing.settle whole landing).accepted? = landing.accepted? := by
  cases landing with
  | outer x => rfl
  | leftover f => rfl
  | placed f position =>
    simp only [Landing.settle]
    split <;> rfl

/-! ### Finding the first -/

@[simp] lemma findSomeM?_map {γ : Type} (f : β → m (Option γ)) (g : α → β) (as : List α) :
    (as.map g).findSomeM? f = as.findSomeM? fun a => f (g a) := by
  induction as with
  | nil => rfl
  | cons a as ih => simp [ih]

section Find

variable [LawfulMonad m]

@[simp] lemma findSomeM?_singleton (f : α → m (Option β)) (a : α) : [a].findSomeM? f = f a := by
  simp only [List.findSomeM?_cons, List.findSomeM?_nil]
  conv_rhs => rw [← bind_pure (f a)]
  congr 1
  funext b
  cases b <;> rfl

lemma findSomeM?_append (f : α → m (Option β)) (as bs : List α) :
    (as ++ bs).findSomeM? f = as.findSomeM? f >>= fun
      | some b => pure (some b)
      | none => bs.findSomeM? f := by
  induction as with
  | nil => simp
  | cons a as ih =>
    simp only [List.cons_append, List.findSomeM?_cons, ih, bind_assoc]
    congr 1
    funext b
    cases b <;> simp

lemma findSomeM?_filter (p : α → Bool) (f : α → m (Option β)) (as : List α) :
    (as.filter p).findSomeM? f = as.findSomeM? fun a => if p a then f a else pure none := by
  induction as with
  | nil => rfl
  | cons a as ih => cases h : p a <;> simp [h, ih]

lemma accepted?_offer (k : α → m κ) (as : List α) (best : Option Failure) :
    (fun result => result.toOption.bind accepted?) <$> offer k as best =
      as.findSomeM? fun a => accepted? <$> k a := by
  induction as generalizing best with
  | nil => simp [offer, Except.toOption]
  | cons a as ih =>
    simp only [offer, List.findSomeM?_cons, bind_map_left, map_bind]
    congr 1
    funext x
    cases hx : failure? x with
    | none => simp [accepted?, hx, Except.toOption]
    | some f => simp only [ih, accepted?, hx]

/-- An offer whose refusals come to a failure of the search's own. -/
lemma accepted?_offer_refused (k : α → m κ) (as : List α) (refused : Option Failure → Failure) :
    (Verdict.accepted? <$> do
      match ← offer k as none with
      | .ok x => pure (.passed x)
      | .error best => pure (.own (refused best))) =
      as.findSomeM? fun a => accepted? <$> k a := by
  rw [← accepted?_offer k as none, map_bind, map_eq_pure_bind]
  congr 1
  funext result
  cases result <;> simp only [map_pure] <;> rfl

end Find

/-! ### Trying ways -/

variable [MonadExceptOf Interrupt m]

/-- Goes on with `f`, unless there is an interrupt. -/
def attempt (f : α → m (Option β)) : Except Interrupt α → m (Option β)
  | .error interrupt => throwThe Interrupt interrupt
  | .ok a => f a

omit [Monad m] in
@[simp] lemma attempt_ok (f : α → m (Option β)) (a : α) : attempt f (.ok a) = f a := rfl

/-- A search that tries `ways` in order and ends with the first accepted answer. -/
def Tries (search : Searcher m) (ways : List Value → Environment → List Way) : Prop :=
  ∀ {κ : Type} [Answer κ] (input : Input) (env : Environment) (k : Continuation m κ),
    Verdict.accepted? <$> search input env k =
      (ways input.items env).findSomeM? (attempt fun way => accepted? <$> k way.1 way.2)

lemma tries_letrec {search : Searcher m} {ways : List Value → Environment → List Way}
    (rules : Table Matcher) (h : Tries search ways) :
    Tries (m := m)
      (fun input env k => search input (env.define rules) fun env' n => k (env'.scopedTo env) n)
      fun items env => (ways items (env.define rules)).map (Way.leave (·.scopedTo env)) := by
  intro κ _ input env k
  rw [h, findSomeM?_map]
  congr 1
  funext way
  cases way <;> rfl

/-! ### Runs of items and single items -/

variable [LawfulMonad m]

lemma tries_constant (value : Value) :
    Tries (m := m) (searchConstant value) fun items env =>
      (constantWays value items env).map .ok := by
  intro κ _ input env k
  obtain ⟨shape, items⟩ := input
  cases items with
  | nil => simp [searchConstant, constantWays]
  | cons item items => cases h : item.equal value <;> simp [searchConstant, constantWays, h]

lemma tries_element (name : Text) (only : Option Restriction) :
    Tries (m := m) (searchElement name only) fun items env =>
      (elementWays name only items env).map .ok := by
  intro κ _ input env k
  obtain ⟨shape, items⟩ := input
  cases items with
  | nil => simp [searchElement, elementWays]
  | cons item items =>
    simp only [searchElement, elementWays]
    cases allowed only item with
    | false => simp
    | true =>
      cases env.get? name with
      | none => simp
      | some bound => cases h : bound.equal item <;> simp [h]

lemma tries_rest : Tries (m := m) searchRest fun items env => (restWays items env).map .ok := by
  intro κ _ input env k
  simp only [restWays, findSomeM?_map, attempt_ok]
  exact accepted?_offer_refused (k env) _ _

lemma replayConflict_eq_none_iff [Predicates] (only : Option Restriction) (input : Input)
    (index : Nat) (expected items : List Value) :
    replayConflict only input index expected items = none ↔ replays only expected items = true := by
  induction expected generalizing index items with
  | nil => simp [replayConflict, replays]
  | cons v expected ih =>
    cases items with
    | nil => simp [replayConflict, replays]
    | cons item items =>
      cases hv : item.equal v <;> cases ha : allowed only item <;>
        simp [replayConflict, replays, hv, ha, ih]

lemma tries_segment [Predicates] (name : Text) (only : Option Restriction) :
    Tries (m := m) (searchSegment name only) fun items env =>
      (segmentWays name only items env).map .ok := by
  intro κ _ input env k
  obtain ⟨shape, items⟩ := input
  cases items with
  | nil => simp [searchSegment, segmentWays_nil]
  | cons item items =>
    cases h : env.get? name with
    | none =>
      simp only [searchSegment, segmentWays, h, findSomeM?_map, attempt_ok]
      exact accepted?_offer_refused _ _ _
    | some bound =>
      cases bound with
      | seq shape' expected =>
        cases expected with
        | nil => simp [searchSegment, segmentWays, h]
        | cons first others =>
          have hr := replayConflict_eq_none_iff only ⟨shape, item :: items⟩ 0
            (first :: others) (item :: items)
          simp only [searchSegment, segmentWays, h]
          cases hc : replayConflict only ⟨shape, item :: items⟩ 0 (first :: others)
            (item :: items) with
          | none => simp [hr.mp hc]
          | some f =>
            have hreplays : replays only (first :: others) (item :: items) = false := by
              simpa [hc] using hr
            simp [hreplays]
      | _ => simp [searchSegment, segmentWays, h]

/-! ### Combinations -/

section Call

variable {call : Text → Searcher m} {callWays : Text → List Value → Environment → List Way}

variable (call callWays) in
/-- As `Tries`, for the elements of an array. -/
def TriesElements [Predicates] (elements : List Matcher) : Prop :=
  ∀ {κ : Type} [Answer κ] (whole : Input) (offset : Nat) (input : Input) (env : Environment)
    (k : Environment → m κ),
    Landing.accepted? <$> searchElements call elements whole offset input env k =
      (sequenceWays callWays elements input.items env).findSomeM?
        (attempt fun env' => accepted? <$> k env')

lemma triesElements_nil : TriesElements call callWays [] := by
  intro κ _ whole offset input env k
  cases h : input.items.isEmpty with
  | true =>
    simp only [searchElements, sequenceWays, h, if_true, Functor.map_map, findSomeM?_singleton]
    rfl
  | false => simp [searchElements, sequenceWays, h, Landing.accepted?]

lemma tries_array {elements : List Matcher} (h : TriesElements call callWays elements) :
    Tries ((Matcher.array elements).search call) ((Matcher.array elements).ways callWays) := by
  intro κ _ input env k
  obtain ⟨shape, items⟩ := input
  match items with
  | .seq shape' inner :: others =>
    simp only [Matcher.search_array_seq, Matcher.ways, Functor.map_map, Landing.accepted?_settle,
      h ⟨shape', inner⟩, findSomeM?_map]
    congr 1
    funext way
    cases way <;> rfl
  | [] | .null :: _ | .bool _ :: _ | .int _ :: _ | .float _ :: _ | .str _ :: _ | .dict _ :: _
  | .rest :: _ | .form _ :: _ | .matcher _ :: _ => simp [Matcher.search, Matcher.ways]

lemma tries_alternatives_nil (best : Option Failure) :
    Tries (searchAlternatives call [] best) (alternativeWays callWays []) := by
  intro κ _ input env k
  simp [searchAlternatives, alternativeWays]

lemma tries_alternatives_cons {alternative : Matcher} {alternatives : List Matcher}
    (halternative : Tries (alternative.search call) (alternative.ways callWays))
    (halternatives : ∀ best, Tries (searchAlternatives call alternatives best)
      (alternativeWays callWays alternatives)) (best : Option Failure) :
    Tries (searchAlternatives call (alternative :: alternatives) best)
      (alternativeWays callWays (alternative :: alternatives)) := by
  intro κ _ input env k
  have h := halternative input env k
  simp only [searchAlternatives, alternativeWays, findSomeM?_append, ← h, map_bind, bind_map_left]
  congr 1
  funext verdict
  cases hv : verdict.accepted? with
  | none =>
    obtain ⟨f, hf⟩ := accepted?_eq_none_iff.mp (Verdict.accepted?_eq_none_iff.mp hv)
    simp only [hf]
    exact halternatives _ input env k
  | some x =>
    cases hf : failure? verdict with
    | none => simp [hv]
    | some f =>
      rw [Verdict.accepted?_eq_none_iff.mpr (accepted?_eq_none_iff.mpr ⟨f, hf⟩)] at hv
      cases hv

end Call

/-! ### Interrupts -/

/-- Monads in which nothing runs after an interrupt. -/
class LawfulInterrupt (m : Type → Type) [Monad m] [MonadExceptOf Interrupt m] : Prop where
  throw_bind {α β : Type} (interrupt : Interrupt) (next : α → m β) :
    (throwThe Interrupt interrupt : m α) >>= next = throwThe Interrupt interrupt

instance : LawfulInterrupt (Except Interrupt) := ⟨fun _ _ => rfl⟩

instance {n : Type → Type} [Monad n] [LawfulMonad n] : LawfulInterrupt (ExceptT Interrupt n) where
  throw_bind interrupt next := by
    change ExceptT.mk (pure (Except.error interrupt) >>= ExceptT.bindCont next) = _
    rw [pure_bind]
    rfl

variable [LawfulInterrupt m]

lemma map_throw (f : α → β) (interrupt : Interrupt) :
    f <$> (throwThe Interrupt interrupt : m α) = throwThe Interrupt interrupt := by
  rw [map_eq_pure_bind, LawfulInterrupt.throw_bind]

omit [LawfulMonad m] in
@[simp] lemma findSomeM?_error (f : α → m (Option β)) (interrupt : Interrupt)
    (ways : List (Except Interrupt α)) :
    (Except.error interrupt :: ways).findSomeM? (attempt f) = throwThe Interrupt interrupt := by
  simp only [List.findSomeM?_cons, attempt, LawfulInterrupt.throw_bind]

lemma findSomeM?_followed (ways : List Way)
    (next : Environment → Nat → List (Except Interrupt α)) (f : α → m (Option β)) :
    (followed ways next).findSomeM? (attempt f) =
      ways.findSomeM? (attempt fun way => (next way.1 way.2).findSomeM? (attempt f)) := by
  induction ways with
  | nil => rfl
  | cons way ways ih =>
    cases way with
    | error interrupt =>
      simp only [followed, List.flatMap_cons, List.singleton_append, findSomeM?_error]
    | ok way =>
      simp only [followed, List.flatMap_cons, findSomeM?_append, List.findSomeM?_cons, attempt_ok]
      congr 1
      funext b
      cases b with
      | none => exact ih
      | some b => rfl

/-- Where answers hold the answers of another continuation, as `outer` reads them, the first
accepted answer holds the first accepted one of the other. -/
lemma map_bind_findSomeM? (outer : κ → Option β) (h : ∀ x, outer x = none ↔ accepted? x = none)
    (k : α → m κ) (ways : List (Except Interrupt α)) :
    (·.bind outer) <$> ways.findSomeM? (attempt fun a => accepted? <$> k a) =
      ways.findSomeM? (attempt fun a => outer <$> k a) := by
  induction ways with
  | nil => simp
  | cons way ways ih =>
    cases way with
    | error interrupt => simp only [findSomeM?_error, map_throw]
    | ok a =>
      simp only [List.findSomeM?_cons, attempt_ok, bind_map_left, map_bind]
      congr 1
      funext x
      cases hx : accepted? x with
      | none => rw [(h x).mpr hx, ih]
      | some y =>
        obtain ⟨-, rfl⟩ := accepted?_eq_some_iff.mp hx
        cases ho : outer x with
        | none => rw [(h x).mp ho] at hx; cases hx
        | some z => simp [ho]

/-! ### The whole search -/

lemma tries_segmentExact (name : Text) (only : Option Restriction) :
    Tries (m := m) (searchSegmentExact name only) fun items env =>
      ((segmentWays name only items env).filter fun way => way.2 = items.length).map .ok := by
  intro κ _ input env k
  have h := tries_segment (m := m) name only input env fun env' n =>
    if n = input.items.length then Verdict.passed <$> k env' n
    else pure (.own (.report .segment .keepTrying input.toValue n none))
  simp only [searchSegmentExact, Functor.map_map, Verdict.accepted?_join]
  -- the segment's own answers are verdicts, of which those that fall short are failures
  rw [← Functor.map_map Verdict.accepted? (·.bind Verdict.accepted?), h,
    map_bind_findSomeM? _ fun _ => Verdict.accepted?_eq_none_iff]
  simp only [findSomeM?_map, findSomeM?_filter, attempt_ok, decide_eq_true_eq]
  congr 1
  funext way
  split <;> simp

section Call

variable {call : Text → Searcher m} {callWays : Text → List Value → Environment → List Way}

lemma triesElements_cons {element : Matcher} {elements : List Matcher}
    (helement : Tries (element.search call) (element.ways callWays))
    (helements : TriesElements call callWays elements) :
    TriesElements call callWays (element :: elements) := by
  intro κ _ whole offset input env k
  have h := helement input env fun env' n =>
    searchElements call elements whole (offset + n) (input.drop n) env' k
  simp only [searchElements_cons, Functor.map_map, Landing.accepted?_ofElement]
  -- the answers of the element's continuation are landings of the other elements
  rw [← Functor.map_map Verdict.accepted? (·.bind Landing.accepted?), h,
    map_bind_findSomeM? _ fun _ => Landing.accepted?_eq_none_iff, sequenceWays,
    findSomeM?_followed]
  congr 2
  funext way
  exact helements whole _ _ _ k

lemma tries_abstract (stamp : Nat) :
    Tries ((Matcher.abstract stamp).search call) ((Matcher.abstract stamp).ways callWays) := by
  intro κ _ input env k
  rw [Matcher.ways, findSomeM?_error]
  exact map_throw _ _

omit [LawfulInterrupt m] in
mutual

/-- A search tries the ways of its matcher, if every reference tries those of the rule. -/
theorem Matcher.tries_search [LawfulInterrupt m]
    (hcall : ∀ name, Tries (call name) (callWays name)) :
    (matcher : Matcher) → Tries (matcher.search call) (matcher.ways callWays)
  | .constant value => tries_constant value
  | .element name only => tries_element name only
  | .segment name only => tries_segment name only
  | .segmentExact name only => tries_segmentExact name only
  | .rest => tries_rest
  | .array elements => tries_array (triesElements hcall elements)
  | .choice alternatives => tries_alternatives hcall alternatives none
  | .reference name => hcall name
  | .letrec rules body => tries_letrec (namedRules rules) (Matcher.tries_search hcall body)
  | .abstract stamp => tries_abstract stamp

theorem triesElements [LawfulInterrupt m]
    (hcall : ∀ name, Tries (call name) (callWays name)) :
    (elements : List Matcher) → TriesElements call callWays elements
  | [] => triesElements_nil
  | element :: elements =>
    triesElements_cons (Matcher.tries_search hcall element) (triesElements hcall elements)

theorem tries_alternatives [LawfulInterrupt m]
    (hcall : ∀ name, Tries (call name) (callWays name)) :
    (alternatives : List Matcher) → (best : Option Failure) →
    Tries (searchAlternatives call alternatives best) (alternativeWays callWays alternatives)
  | [], best => tries_alternatives_nil best
  | alternative :: alternatives, best =>
    tries_alternatives_cons (Matcher.tries_search hcall alternative)
      (tries_alternatives hcall alternatives) best

end

end Call

/-- A reference tries the ways of the rule, however many references may still be opened. -/
lemma tries_callRule (stack : Option Nat) (room : Nat) (name : Text) :
    Tries (m := m) (callRule stack room name) (callWays stack room name) := by
  -- a rule may be any matcher, so the induction is on the references that are left to open
  induction room generalizing name with
  | zero =>
    intro κ _ input env k
    cases h : env.matcher? name <;> simp [callRule, callWays, h]
  | succ room ih =>
    intro κ _ input env k
    cases h : env.matcher? name with
    | none => simp [callRule, callWays, h]
    | some target =>
      have htarget := Matcher.tries_search (H := H) ih target input env.descend fun env' n =>
        k (env'.atDepth env.depth) n
      simp only [callRule, callWays, h]
      split
      · simp
      · split
        · rw [findSomeM?_error]
          exact map_throw _ _
        · rw [htarget, findSomeM?_map]
          congr 1
          funext way
          cases way <;> rfl

lemma Matcher.tries_searchFrom [Predicates] (stack : Option Nat) (matcher : Matcher) :
    Tries (m := m) (matcher.searchFrom stack) (matcher.waysFrom stack) :=
  fun input env k => Matcher.tries_search (tries_callRule stack env.room) matcher input env k

/-- A search calls its continuation for the ways of the matcher in order, up to the first that it
accepts, and hands that answer on; if it accepts none, the search ends with a failure. -/
theorem Matcher.searchFrom_eq_findSomeM? (stack : Option Nat) (matcher : Matcher) (input : Input)
    (env : Environment) (k : Continuation m κ) :
    Verdict.accepted? <$> matcher.searchFrom stack input env k =
      (matcher.waysFrom stack input.items env).findSomeM?
        (attempt fun way => accepted? <$> k way.1 way.2) :=
  Matcher.tries_searchFrom stack matcher input env k

end

/-- A continuation that counts its calls and accepts the second. -/
theorem Matcher.searchFrom_eq_findSomeM?_second :
    let name : Text := [.char 'x']
    let second : Continuation (ExceptT Interrupt (StateM Nat)) (Verdict Success) := fun env n => do
      modify (· + 1)
      return if (← get) = 2 then .passed ⟨env, n⟩ else .own default
    let search := (Matcher.array [.segment name none, .rest]).searchFrom none
      (.single (.list [.int 1, .int 2])) (.empty 5) second
    let grown := (Environment.empty 5).extend name (.list [.int 1, .int 2])
    LawfulMonad (ExceptT Interrupt (StateM Nat)) ∧
      LawfulInterrupt (ExceptT Interrupt (StateM Nat)) ∧
      (Verdict.accepted? <$> search).run.run 0 = (.ok (some (.passed ⟨grown, 1⟩)), 2) := by
  intro name second search grown
  refine ⟨inferInstance, inferInstance, ?_⟩
  rw [Matcher.searchFrom_eq_findSomeM? none _ _ _ second]
  rfl

end Motif
