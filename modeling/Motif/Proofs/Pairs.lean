import Motif.Proofs.Outcome
import Mathlib

/-!
# Searches side by side

Two runs can be compared step by step when their inputs, environments and continuations correspond.
A `Pairing` says which data correspond, and what has to be known of them: equality does not tell
them apart, and lists correspond item by item. Then the failures of the two runs correspond as well,
rank the same, and are placed in the same way.

The rules below, one for each kind of matcher, leave open how environments correspond, and so which
rules are in scope on either side.
-/

namespace Motif

variable {H : Predicates}

open Failure (Entry)

/-! ### Two runs -/

section

variable {ends : Interrupt → Prop} {α β γ δ : Type} {R : α → β → Prop} {S : γ → δ → Prop}
  {x : Except Interrupt α} {y : Except Interrupt β}

variable (ends) in
/-- Two runs end alike: with answers that correspond, or with the same interrupt, one of `ends`. -/
def Agree (R : α → β → Prop) : Except Interrupt α → Except Interrupt β → Prop
  | .ok a, .ok b => R a b
  | .error i, .error j => i = j ∧ ends i
  | _, _ => False

lemma agree_pure {a : α} {b : β} (h : R a b) :
    Agree ends R (pure a : Except Interrupt α) (pure b : Except Interrupt β) := h

/-- Runs that end alike end with the same interrupt or with answers that correspond. -/
lemma Agree.ends_or_answers (h : Agree ends R x y) :
    (∃ interrupt, x = .error interrupt ∧ y = .error interrupt ∧ ends interrupt) ∨
      ∃ a b, x = .ok a ∧ y = .ok b ∧ R a b := by
  cases x with
  | error interrupt =>
    cases y with
    | error interrupt' =>
      obtain ⟨rfl, hends⟩ := h
      exact .inl ⟨interrupt, rfl, rfl, hends⟩
    | ok b => cases h
  | ok a =>
    cases y with
    | error interrupt' => cases h
    | ok b => exact .inr ⟨a, b, rfl, rfl, h⟩

lemma Agree.bind (h : Agree ends R x y) {f : α → Except Interrupt γ} {g : β → Except Interrupt δ}
    (hfg : ∀ a b, R a b → Agree ends S (f a) (g b)) : Agree ends S (x >>= f) (y >>= g) := by
  rcases h.ends_or_answers with ⟨interrupt, rfl, rfl, hends⟩ | ⟨a, b, rfl, rfl, hab⟩
  · exact ⟨rfl, hends⟩
  · exact hfg a b hab

lemma Agree.and_left (h : Agree ends R x y) {Q : α → Prop} (hQ : ∀ a, x = .ok a → Q a) :
    Agree ends (fun a b => Q a ∧ R a b) x y := by
  rcases h.ends_or_answers with ⟨interrupt, rfl, rfl, hends⟩ | ⟨a, b, rfl, rfl, hab⟩
  · exact ⟨rfl, hends⟩
  · exact ⟨hQ a rfl, hab⟩

end

/-- A way to compare computations that goes along with their composition. -/
structure Comparison (m n : Type → Type) [Monad m] [Monad n] where
  Holds {α β : Type} : (α → β → Prop) → m α → n β → Prop
  pure {α β : Type} {R : α → β → Prop} {a : α} {b : β} (h : R a b) :
    Holds R (Pure.pure a) (Pure.pure b)
  bind {α β γ δ : Type} {R : α → β → Prop} {S : γ → δ → Prop} {x : m α} {y : n β} {f : α → m γ}
    {g : β → n δ} (h : Holds R x y) (hfg : ∀ a b, R a b → Holds S (f a) (g b)) :
    Holds S (x >>= f) (y >>= g)

section

variable {m n : Type → Type} [Monad m] [LawfulMonad m] [Monad n] [LawfulMonad n]
  (C : Comparison m n) {α β γ δ : Type} {x : m α} {y : n β}

lemma Comparison.map {R : α → β → Prop} {S : γ → δ → Prop} {f : α → γ} {g : β → δ}
    (h : C.Holds R x y) (hfg : ∀ a b, R a b → S (f a) (g b)) : C.Holds S (f <$> x) (g <$> y) := by
  rw [map_eq_pure_bind, map_eq_pure_bind]
  exact C.bind h fun a b hab => C.pure (hfg a b hab)

lemma Comparison.mono {R S : α → β → Prop} (h : C.Holds R x y) (hRS : ∀ a b, R a b → S a b) :
    C.Holds S x y := by
  have hid := C.map h (f := id) (g := id) hRS
  rwa [id_map, id_map] at hid

end

/-- Runs that end alike. -/
def Comparison.agree (ends : Interrupt → Prop) :
    Comparison (Except Interrupt) (Except Interrupt) where
  Holds := Agree ends
  pure := agree_pure
  bind h hfg := h.bind hfg

/-- Runs that end with answers that correspond, unless the first one is cut off for lack of stack
where this may happen. -/
def Comparison.unlessCutOff (cut : Prop) : Comparison (Except Interrupt) (Except Interrupt) where
  Holds R x y := (cut ∧ x = .error .stackExhausted) ∨ Agree (fun _ => False) R x y
  pure h := .inr (agree_pure h)
  bind h hfg := by
    rcases h with ⟨hcut, rfl⟩ | h
    · exact .inl ⟨hcut, rfl⟩
    · rcases h.ends_or_answers with ⟨_, -, -, hends⟩ | ⟨a, b, rfl, rfl, hab⟩
      · exact hends.elim
      · exact hfg a b hab

/-- Matches that end alike come to outcomes that correspond, where the interrupts that may end them
count as failures. -/
lemma exists_outcomes_of_agree {ends : Interrupt → Prop}
    {V : Verdict Success → Verdict Success → Prop} {R : Outcome → Outcome → Prop}
    {limits limits' : Limits} {m m' : Matcher} {datum datum' : Value}
    (h : Agree ends V (m.start limits datum Success.keep) (m'.start limits' datum' Success.keep))
    (hV : ∀ v v', V v v' → R (.ofVerdict v) (.ofVerdict v'))
    (hends : ∀ interrupt, ends interrupt → ∃ f f', interrupt.failure? m datum = some f ∧
      interrupt.failure? m' datum' = some f' ∧ R (.failure f) (.failure f')) :
    ∃ outcome outcome', m.outcome limits datum = .ok outcome ∧
      m'.outcome limits' datum' = .ok outcome' ∧ R outcome outcome' := by
  rcases h.ends_or_answers with
    ⟨interrupt, hstart, hstart', hinterrupt⟩ | ⟨verdict, verdict', hstart, hstart', hverdict⟩
  · obtain ⟨f, f', hf, hf', hR⟩ := hends interrupt hinterrupt
    refine ⟨.failure f, .failure f', ?_, ?_, hR⟩
    · rw [Matcher.outcome_of_interrupt hstart, hf]
    · rw [Matcher.outcome_of_interrupt hstart', hf']
  · exact ⟨_, _, Matcher.outcome_of_start hstart, Matcher.outcome_of_start hstart',
      hV _ _ hverdict⟩

/-! ### Lists that correspond -/

section

variable {α β : Type} {R : α → β → Prop} {as : List α} {bs : List β}

lemma forall₂_getLastD (h : List.Forall₂ R as bs) {a : α} {b : β} (hab : R a b) :
    R (as.getLastD a) (bs.getLastD b) := by
  induction h generalizing a b with
  | nil => exact hab
  | cons hab' _ ih =>
    rw [List.getLastD_cons, List.getLastD_cons]
    exact ih hab'

lemma forall₂_getElem? (h : List.Forall₂ R as bs) (n : Nat) : Option.Rel R as[n]? bs[n]? := by
  induction h generalizing n with
  | nil => exact .none
  | cons hab _ ih =>
    cases n with
    | zero => exact .some hab
    | succ n => exact ih n

lemma length_takeWhile_eq {p : α → Bool} {q : β → Bool} (hpq : ∀ a b, R a b → p a = q b)
    (h : List.Forall₂ R as bs) : (as.takeWhile p).length = (bs.takeWhile q).length := by
  induction h with
  | nil => rfl
  | cons hab _ ih =>
    simp only [List.takeWhile_cons, hpq _ _ hab]
    split
    · rw [List.length_cons, List.length_cons, ih]
    · rfl

/-- Segments may take as many items of lists that a restriction does not tell apart. -/
lemma segmentLengths_eq {R : Value → Value → Prop} {only : Option Restriction}
    (hallowed : ∀ v w, R v w → allowed only v = allowed only w) {vs ws : List Value}
    (h : List.Forall₂ R vs ws) : segmentLengths only vs = segmentLengths only ws := by
  rw [segmentLengths, segmentLengths, length_takeWhile_eq hallowed h]

end

/-! ### Offers and choices -/

/-- What two offers come to: answers that correspond, or failures kept that do. -/
inductive Offered {κ : Type} (F : Failure → Failure → Prop) (A : κ → κ → Prop) :
    Except (Option Failure) κ → Except (Option Failure) κ → Prop where
  | accepted {x x' : κ} (h : A x x') : Offered F A (.ok x) (.ok x')
  | refused {best best' : Option Failure} (h : Option.Rel F best best') :
    Offered F A (.error best) (.error best')

section

variable {m n : Type → Type} [Monad m] [Monad n] (C : Comparison m n) {κ : Type} [Answer κ]
  {F : Failure → Failure → Prop} {A : κ → κ → Prop} {best best' : Option Failure}
  (hbetter : ∀ {best best' f f'}, Option.Rel F best best' → F f f' →
    F (Failure.better best f) (Failure.better best' f'))
include hbetter

lemma Comparison.offered (hA : ∀ x x', A x x' → Option.Rel F (failure? x) (failure? x'))
    {α : Type} {k : α → m κ} {k' : α → n κ} {attempts : List α}
    (hk : ∀ a ∈ attempts, C.Holds A (k a) (k' a))
    (hbest : Option.Rel F best best') :
    C.Holds (Offered F A) (offer k attempts best) (offer k' attempts best') := by
  induction attempts generalizing best best' with
  | nil => exact C.pure (.refused hbest)
  | cons a attempts ih =>
    simp only [offer]
    apply C.bind (hk a List.mem_cons_self)
    intro x x' hx
    have hfailures := hA x x' hx
    generalize failure? x = failed, failure? x' = failed' at hfailures
    cases hfailures with
    | none => exact C.pure (.accepted hx)
    | some hfailures =>
      exact ih (fun a ha => hk a (List.mem_cons_of_mem _ ha)) (.some (hbetter hbest hfailures))

/-- Two searches that report the best failures of their attempts. -/
lemma Comparison.offer (hA : ∀ x x', A x x' → Option.Rel F (failure? x) (failure? x'))
    {α : Type} {k : α → m κ} {k' : α → n κ} {attempts : List α}
    (hk : ∀ a ∈ attempts, C.Holds A (k a) (k' a))
    (hbest : Option.Rel F best best') {V : Verdict κ → Verdict κ → Prop}
    {refused refused' : Option Failure → Failure}
    (hpassed : ∀ x x', A x x' → V (.passed x) (.passed x'))
    (hrefused : ∀ b b', Option.Rel F b b' → V (.own (refused b)) (.own (refused' b'))) :
    C.Holds V
      (do
        match ← Motif.offer k attempts best with
        | .ok x => Pure.pure (.passed x)
        | .error b => Pure.pure (.own (refused b)))
      (do
        match ← Motif.offer k' attempts best' with
        | .ok x => Pure.pure (.passed x)
        | .error b => Pure.pure (.own (refused' b))) := by
  apply C.bind (C.offered hbetter hA hk hbest)
  intro tried tried' h
  cases h with
  | accepted hx => exact C.pure (hpassed _ _ hx)
  | refused hb => exact C.pure (hrefused _ _ hb)

/-- Two choices come to verdicts that correspond if their alternatives do one by one. -/
lemma Comparison.searchAlternatives [MonadExceptOf Interrupt m] [MonadExceptOf Interrupt n]
    {V : Verdict κ → Verdict κ → Prop}
    (hV : ∀ v v', V v v' → Option.Rel F (failure? v) (failure? v'))
    {call : Text → Searcher m} {call' : Text → Searcher n} {ms ms' : List Matcher}
    {input input' : Input} {env env' : Environment} {k : Continuation m κ} {k' : Continuation n κ}
    (h : List.Forall₂ (fun matcher matcher' => C.Holds V (matcher.search call input env k)
      (matcher'.search call' input' env' k')) ms ms')
    (hrefused : ∀ b b', Option.Rel F b b' →
      V (.own (.report .choice .noAlternative input.toValue 0 b))
        (.own (.report .choice .noAlternative input'.toValue 0 b')))
    (hbest : Option.Rel F best best') :
    C.Holds V (Motif.searchAlternatives call ms best input env k)
      (Motif.searchAlternatives call' ms' best' input' env' k') := by
  induction h generalizing best best' with
  | nil => exact C.pure (hrefused _ _ hbest)
  | cons halternative _ ih =>
    simp only [Motif.searchAlternatives]
    apply C.bind halternative
    intro verdict verdict' hverdict
    have hfailures := hV verdict verdict' hverdict
    generalize failure? verdict = failed, failure? verdict' = failed' at hfailures
    cases hfailures with
    | none => exact C.pure hverdict
    | some hfailures => exact ih (.some (hbetter hbest hfailures))

end

/-! ### Data that correspond -/

/-- How two runs are compared, which of their items correspond, and which values that they show in
failures. The items are equal to the same values, fall under the same of the
restrictions in `respects`, and are lists of items that correspond if they are lists at all. -/
structure Pairing [Predicates] where
  runs : Comparison (Except Interrupt) (Except Interrupt)
  item : Value → Value → Prop
  shown : Value → Value → Prop
  respects : Option Restriction → Prop
  equal_left {v w : Value} (h : item v w) (u : Value) : v.equal u = w.equal u
  equal_right {v w : Value} (h : item v w) (u : Value) : u.equal v = u.equal w
  allowed_eq {only : Option Restriction} {v w : Value} (hrespects : respects only) (h : item v w) :
    allowed only v = allowed only w
  items_rel {v w : Value} (h : item v w) :
    (∃ shape vs ws, v = .seq shape vs ∧ w = .seq shape ws ∧ List.Forall₂ item vs ws) ∨
      v.items? = none ∧ w.items? = none
  list {vs ws : List Value} (h : List.Forall₂ item vs ws) : item (.list vs) (.list ws)
  shown_refl (v : Value) : shown v v
  shown_item {v w : Value} (h : item v w) : shown v w
  shown_seq {shape : Shape} {vs ws : List Value} (h : List.Forall₂ item vs ws) :
    shown (.seq shape vs) (.seq shape ws)
  shown_pair {v w v' w' : Value} (h : item v w ∨ v = w) (h' : item v' w' ∨ v' = w') :
    shown (.tuple [v, v']) (.tuple [w, w'])
  shown_empty {v w : Value} (h : shown v w) : v = .tuple [] ↔ w = .tuple []

namespace Pairing

variable (P : Pairing)

/-- What a variable stands for in two runs: items that correspond, or the same. -/
def Like (v w : Value) : Prop := P.item v w ∨ v = w

/-- Inputs of the same shape whose items correspond. -/
structure Inputs (input input' : Input) : Prop where
  shape : input.shape = input'.shape
  items : List.Forall₂ P.item input.items input'.items

/-- Entries that differ in what they show alone. -/
structure Entries (e e' : Entry) : Prop where
  matcher : e.matcher = e'.matcher
  reason : e.reason = e'.reason
  shown : P.shown e.fragment e'.fragment
  offset : e.offset = e'.offset
  located : e.located = e'.located

/-- Failures whose entries correspond one by one. -/
def Failures (f f' : Failure) : Prop := List.Forall₂ P.Entries f.chain f'.chain

variable {P} {v w v' w' : Value} {input input' : Input} {f f' : Failure}

lemma equal_eq (h : P.Like v w) (h' : P.Like v' w') : v.equal v' = w.equal w' := by
  calc v.equal v' = w.equal v' := by
        rcases h with h | rfl
        · exact P.equal_left h v'
        · rfl
    _ = w.equal w' := by
        rcases h' with h' | rfl
        · exact P.equal_right h' w
        · rfl

lemma Inputs.drop (h : P.Inputs input input') (n : Nat) : P.Inputs (input.drop n) (input'.drop n) :=
  ⟨h.shape, List.forall₂_drop n h.items⟩

lemma Inputs.length_eq (h : P.Inputs input input') : input.items.length = input'.items.length :=
  h.items.length_eq

lemma Inputs.shown (h : P.Inputs input input') : P.shown input.toValue input'.toValue := by
  obtain ⟨shape, items⟩ := input
  obtain ⟨shape', items'⟩ := input'
  obtain ⟨rfl, hitems⟩ := h
  exact P.shown_seq hitems

lemma Inputs.isEmptyTuple_eq (h : P.Inputs input input') :
    input.isEmptyTuple = input'.isEmptyTuple := by
  obtain ⟨shape, items⟩ := input
  obtain ⟨shape', items'⟩ := input'
  obtain ⟨rfl, hitems⟩ := h
  cases hitems with
  | nil => rfl
  | cons => cases shape <;> rfl

/-! ### Failures that correspond -/

lemma failures_iff :
    P.Failures f f' ↔ P.Entries f.top f'.top ∧ List.Forall₂ P.Entries f.causes f'.causes :=
  List.forall₂_cons

lemma failures_report (k : MatcherKind) (r : Reason) (h : P.shown v w) (n : Nat)
    {cause cause' : Option Failure} (hcause : Option.Rel P.Failures cause cause') :
    P.Failures (.report k r v n cause) (.report k r w n cause') := by
  refine failures_iff.mpr ⟨⟨rfl, rfl, h, rfl, rfl⟩, ?_⟩
  cases hcause with
  | none => exact .nil
  | some hcause => exact hcause

lemma Failures.relocate (h : P.Failures f f') (base : Int) :
    P.Failures (f.relocate base) (f'.relocate base) := by
  obtain ⟨htop, hcauses⟩ := failures_iff.mp h
  unfold Failure.relocate
  rw [htop.located]
  split
  · exact h
  · exact failures_iff.mpr
      ⟨⟨htop.matcher, htop.reason, htop.shown, congrArg (base + ·) htop.offset, rfl⟩, hcauses⟩

lemma Failures.rank_eq (h : P.Failures f f') : f.rank = f'.rank := by
  obtain ⟨htop, hcauses⟩ := failures_iff.mp h
  have hroot : P.Entries f.root f'.root := forall₂_getLastD hcauses htop
  rw [Failure.rank, Failure.rank, hroot.reason, hroot.offset, h.length_eq]

lemma Failures.better {best best' : Option Failure} (hbest : Option.Rel P.Failures best best')
    (h : P.Failures f f') : P.Failures (Failure.better best f) (Failure.better best' f') := by
  cases hbest with
  | none => exact h
  | some hbest =>
    rw [Failure.better, Failure.better, hbest.rank_eq, h.rank_eq]
    split
    · exact h
    · exact hbest

lemma speaksOf_iff {whole : Input} : Landing.speaksOf whole f = true ↔
    f.top.matcher = .array ∧ whole.isEmptyTuple = true ∧ f.top.fragment = .tuple [] := by
  rw [Landing.speaksOf, Bool.and_eq_true, Bool.and_eq_true, beq_iff_eq, and_assoc]
  refine and_congr_right fun _ => and_congr_right fun _ => ?_
  split
  · rename_i hfragment
    exact iff_of_true rfl hfragment
  · rename_i hfragment
    exact iff_of_false Bool.false_ne_true hfragment

lemma Failures.speaksOf_eq (h : P.Failures f f') (hinput : P.Inputs input input') :
    Landing.speaksOf input f = Landing.speaksOf input' f' := by
  have htop := (failures_iff.mp h).1
  rw [Bool.eq_iff_iff, speaksOf_iff, speaksOf_iff, htop.matcher, hinput.isEmptyTuple_eq,
    P.shown_empty htop.shown]

lemma failures_leftoverAt (h : P.Inputs input input') (offset : Nat) :
    P.Failures (Landing.leftoverAt input offset) (Landing.leftoverAt input' offset) :=
  failures_iff.mpr ⟨⟨rfl, rfl, h.shown, rfl, rfl⟩, .nil⟩

/-! ### Answers that correspond -/

section

variable {κ : Type} [Answer κ] {A : κ → κ → Prop}

variable (P A) in
/-- Answers that correspond are failures that correspond, or both none. -/
def Keeps : Prop := ∀ x x', A x x' → Option.Rel P.Failures (failure? x) (failure? x')

variable (P A) in
/-- Verdicts of which both are answers that correspond, or own failures that do. -/
inductive Verdicts : Verdict κ → Verdict κ → Prop where
  | own {f f' : Failure} (h : P.Failures f f') : Verdicts (.own f) (.own f')
  | passed {x x' : κ} (h : A x x') : Verdicts (.passed x) (.passed x')

variable (P A) in
/-- The same for the ways in which arrays end. -/
inductive Landings : Landing κ → Landing κ → Prop where
  | outer {x x' : κ} (h : A x x') : Landings (.outer x) (.outer x')
  | leftover {f f' : Failure} (h : P.Failures f f') : Landings (.leftover f) (.leftover f')
  | placed {f f' : Failure} (h : P.Failures f f') (position : Int) :
    Landings (.placed f position) (.placed f' position)

lemma Keeps.verdicts (h : P.Keeps A) : P.Keeps (P.Verdicts A) := by
  rintro _ _ (hown | hpassed)
  · exact .some hown
  · exact h _ _ hpassed

lemma Keeps.landings (h : P.Keeps A) : P.Keeps (P.Landings A) := by
  rintro _ _ (houter | hleftover | ⟨hplaced, -⟩)
  · exact h _ _ houter
  · exact .some hleftover
  · exact .some hplaced

omit [Answer κ] in
lemma Verdicts.join {x x' : Verdict (Verdict κ)} (h : P.Verdicts (P.Verdicts A) x x') :
    P.Verdicts A x.join x'.join := by
  cases h with
  | own h => exact .own h
  | passed h => exact h

omit [Answer κ] in
lemma Verdicts.ofElement {x x' : Verdict (Landing κ)} (h : P.Verdicts (P.Landings A) x x')
    (offset : Nat) : P.Landings A (Landing.ofElement offset x) (Landing.ofElement offset x') := by
  cases h with
  | own h =>
    have htop := (failures_iff.mp h).1
    rw [Landing.ofElement, Landing.ofElement, htop.located, htop.offset]
    exact .placed (h.relocate offset) _
  | passed h => exact h

omit [Answer κ] in
lemma Landings.settle {x x' : Landing κ} (h : P.Landings A x x') {whole whole' : Input}
    (hwhole : P.Inputs whole whole') :
    P.Verdicts A (Landing.settle whole x) (Landing.settle whole' x') := by
  cases h with
  | outer h => exact .passed h
  | leftover h => exact .own h
  | placed h position =>
    rw [Landing.settle, Landing.settle, h.speaksOf_eq hwhole]
    split
    · exact .own h
    · exact .own (failures_iff.mpr ⟨⟨rfl, rfl, hwhole.shown, rfl, rfl⟩, h⟩)

/-! ### Attempts -/

lemma holds_offer (hA : P.Keeps A) {α : Type} {k k' : α → Except Interrupt κ} {attempts : List α}
    (hk : ∀ a ∈ attempts, P.runs.Holds A (k a) (k' a)) {best best' : Option Failure}
    (hbest : Option.Rel P.Failures best best') {refused refused' : Option Failure → Failure}
    (hrefused : ∀ b b', Option.Rel P.Failures b b' → P.Failures (refused b) (refused' b')) :
    P.runs.Holds (P.Verdicts A)
      (do
        match ← offer k attempts best with
        | .ok x => pure (.passed x)
        | .error b => pure (.own (refused b)))
      (do
        match ← offer k' attempts best' with
        | .ok x => pure (.passed x)
        | .error b => pure (.own (refused' b))) :=
  P.runs.offer Failures.better hA hk hbest (fun _ _ => Verdicts.passed)
    fun b b' hb => Verdicts.own (hrefused b b' hb)

end

/-! ### Searches in step -/

variable (P) in
/-- Environments correspond in a way that is kept when a variable of `names` is bound to items that
correspond, and by which these variables stand for such. -/
structure Tracks (names : Text → Prop) (E : Environment → Environment → Prop) : Prop where
  get? {env env' : Environment} {name : Text} (h : E env env') (hname : names name) :
    Option.Rel P.Like (env.get? name) (env'.get? name)
  extend {env env' : Environment} {name : Text} {v w : Value} (h : E env env') (hname : names name)
    (hvalue : P.item v w) : E (env.extend name v) (env'.extend name w)

variable (P) in
/-- Two searches that go in step: whenever their inputs, environments and continuations correspond,
so do their verdicts. -/
structure InStep (E : Environment → Environment → Prop)
    (search search' : Searcher (Except Interrupt)) : Prop where
  holds {κ : Type} [Answer κ] {A : κ → κ → Prop} {input input' : Input} {env env' : Environment}
    {k k' : Continuation (Except Interrupt) κ} (hA : P.Keeps A) (hinput : P.Inputs input input')
    (henv : E env env') (hk : ∀ env env' n, E env env' → P.runs.Holds A (k env n) (k' env' n)) :
    P.runs.Holds (P.Verdicts A) (search input env k) (search' input' env' k')

variable {names : Text → Prop} {E : Environment → Environment → Prop}

section

variable {κ : Type} [Answer κ] {A : κ → κ → Prop}

omit [Answer κ] in
/-- Two searches may fail at once. -/
lemma holds_report (k : MatcherKind) (r : Reason) (h : P.shown v w) (n : Nat) :
    P.runs.Holds (P.Verdicts A) (pure (.own (.report k r v n none)))
      (pure (.own (.report k r w n none))) :=
  P.runs.pure (.own (failures_report k r h n .none))

omit [Answer κ] in
/-- Two searches may hand on what their continuations answer. -/
lemma holds_passed {x x' : Except Interrupt κ} (h : P.runs.Holds A x x') :
    P.runs.Holds (P.Verdicts A) (.passed <$> x) (.passed <$> x') :=
  P.runs.map h fun _ _ => .passed

end

lemma inStep_constant (value : Value) :
    P.InStep E (searchConstant value) (searchConstant value) := by
  constructor
  rintro κ _ A ⟨shape, items⟩ ⟨shape', items'⟩ env env' k k' hA ⟨rfl, hitems⟩ hE hk
  cases hitems with
  | nil => exact holds_report _ _ (P.shown_refl _) 0
  | @cons item item' _ _ hitem _ =>
    simp only [searchConstant, P.equal_left hitem value]
    cases item'.equal value with
    | true => exact holds_passed (hk _ _ 1 hE)
    | false => exact holds_report _ _ (P.shown_pair (.inl hitem) (.inr rfl)) 0

lemma inStep_element (hE : P.Tracks names E) {name : Text} (hname : names name)
    {only : Option Restriction} (hrespects : P.respects only) :
    P.InStep E (searchElement name only) (searchElement name only) := by
  constructor
  rintro κ _ A ⟨shape, items⟩ ⟨shape', items'⟩ env env' k k' hA ⟨rfl, hitems⟩ henv hk
  cases hitems with
  | nil => exact holds_report _ _ (P.shown_refl _) 0
  | @cons item item' _ _ hitem _ =>
    simp only [searchElement, P.allowed_eq hrespects hitem]
    cases allowed only item' with
    | false => exact holds_report _ _ (P.shown_item hitem) 0
    | true =>
      have hbound := hE.get? henv hname
      generalize env.get? name = bound, env'.get? name = bound' at hbound
      cases hbound with
      | none => exact holds_passed (hk _ _ 1 (hE.extend henv hname hitem))
      | @some bound bound' hbound =>
        simp only [Bool.not_true, Bool.false_eq_true, if_false, equal_eq hbound (.inl hitem)]
        cases bound'.equal item' with
        | true => exact holds_passed (hk _ _ 1 henv)
        | false => exact holds_report _ _ (P.shown_pair (.inl hitem) hbound) 0

lemma inStep_rest : P.InStep E searchRest searchRest := by
  constructor
  intro κ _ A input input' env env' k k' hA hinput henv hk
  simp only [searchRest, hinput.length_eq]
  apply holds_offer hA (fun n _ => hk env env' n henv) .none
  intro b b' hb
  exact failures_report _ _ hinput.shown _ hb

/-! ### Runs of items in step -/

section

variable {only : Option Restriction} {vs ws : List Value}

lemma failures_segmentStopped (hrespects : P.respects only) (h : P.Inputs input input')
    {best best' : Option Failure} (hbest : Option.Rel P.Failures best best') :
    P.Failures (segmentStopped only input best) (segmentStopped only input' best') := by
  have hlength := length_takeWhile_eq (fun _ _ hitem => P.allowed_eq hrespects hitem) h.items
  simp only [segmentStopped, hlength, h.length_eq]
  have hitem := forall₂_getElem? h.items (input'.items.takeWhile (allowed only)).length
  generalize (input'.items.takeWhile (allowed only)).length = n at hitem ⊢
  generalize input.items[n]? = item, input'.items[n]? = item' at hitem
  cases hitem with
  | none => exact failures_report _ _ h.shown _ hbest
  | some hitem => exact failures_report _ _ (P.shown_item hitem) _ hbest

lemma failures_replayConflict (hrespects : P.respects only) (h : P.Inputs input input')
    {expected expected' : List Value} (hexpected : List.Forall₂ P.Like expected expected')
    (hitems : List.Forall₂ P.item vs ws) (index : Nat) :
    Option.Rel P.Failures (replayConflict only input index expected vs)
      (replayConflict only input' index expected' ws) := by
  induction hexpected generalizing vs ws index with
  | nil => exact .none
  | cons hvalue _ ih =>
    cases hitems with
    | nil => exact .some (failures_report _ _ h.shown _ .none)
    | @cons _ item' _ _ hitem hitems =>
      simp only [replayConflict, equal_eq (.inl hitem) hvalue, P.allowed_eq hrespects hitem]
      split
      · exact .some (failures_report _ _ (P.shown_pair (.inl hitem) hvalue) _ .none)
      · split
        · exact .some (failures_report _ _ (P.shown_item hitem) _ .none)
        · exact ih hitems _

end

/-- What a variable stands for in two runs is a list of what corresponds or is the same, or no list
in either. -/
lemma like_items_rel (h : P.Like v w) :
    (∃ shape vs ws, v = .seq shape vs ∧ w = .seq shape ws ∧ List.Forall₂ P.Like vs ws) ∨
      v.items? = none ∧ w.items? = none := by
  rcases h with h | rfl
  · exact (P.items_rel h).imp_left fun ⟨shape, vs, ws, hv, hw, hitems⟩ =>
      ⟨shape, vs, ws, hv, hw, hitems.imp fun _ _ => .inl⟩
  · cases v with
    | seq shape vs =>
      exact .inl ⟨shape, vs, vs, rfl, rfl, List.forall₂_same.mpr fun _ _ => .inr rfl⟩
    | _ => exact .inr ⟨rfl, rfl⟩

lemma inStep_segment (hE : P.Tracks names E) {name : Text} (hname : names name)
    {only : Option Restriction} (hrespects : P.respects only) :
    P.InStep E (searchSegment name only) (searchSegment name only) := by
  constructor
  rintro κ _ A ⟨shape, items⟩ ⟨shape', items'⟩ env env' k k' hA ⟨rfl, hitems⟩ henv hk
  cases hitems with
  | nil => exact holds_report _ _ (P.shown_refl _) 0
  | @cons item item' others others' hitem hothers =>
    have hinput : P.Inputs ⟨shape, item :: others⟩ ⟨shape, item' :: others'⟩ :=
      ⟨rfl, .cons hitem hothers⟩
    have hbound := hE.get? henv hname
    simp only [searchSegment]
    generalize env.get? name = bound, env'.get? name = bound' at hbound
    cases hbound with
    | none =>
      simp only [segmentLengths_eq (fun _ _ hitem => P.allowed_eq hrespects hitem) hinput.items]
      refine holds_offer hA (fun n _ => hk _ _ n ?_) .none fun b b' hb =>
        failures_segmentStopped hrespects hinput hb
      exact hE.extend henv hname (P.list (List.forall₂_take n hinput.items))
    | @some bound bound' hbound =>
      rcases like_items_rel hbound with ⟨_, vs, ws, rfl, rfl, hexpected⟩ | ⟨hbare, hbare'⟩
      · cases hexpected with
        | nil => exact holds_report _ _ (P.shown_pair (.inl hitem) hbound) 0
        | @cons v w vs ws hfirst hrest =>
          have hreplay := failures_replayConflict hrespects hinput (.cons hfirst hrest)
            hinput.items 0
          dsimp only
          generalize replayConflict only ⟨shape, item :: others⟩ 0 (v :: vs) (item :: others) =
            conflict at hreplay ⊢
          generalize replayConflict only ⟨shape, item' :: others'⟩ 0 (w :: ws) (item' :: others') =
            conflict' at hreplay ⊢
          cases hreplay with
          | none =>
            rw [hrest.length_eq]
            exact holds_passed (hk _ _ _ henv)
          | some hconflict => exact P.runs.pure (.own hconflict)
      · dsimp only
        split
        · cases hbare
        · split
          · cases hbare'
          · exact holds_report _ _ (P.shown_pair (.inl hitem) hbound) 0

lemma inStep_segmentExact (hE : P.Tracks names E) {name : Text} (hname : names name)
    {only : Option Restriction} (hrespects : P.respects only) :
    P.InStep E (searchSegmentExact name only) (searchSegmentExact name only) := by
  constructor
  intro κ _ A input input' env env' k k' hA hinput henv hk
  simp only [searchSegmentExact, hinput.length_eq]
  refine P.runs.map ((inStep_segment hE hname hrespects).holds hA.verdicts hinput henv ?_)
    fun _ _ => Verdicts.join
  intro env env' n henv
  split
  · exact holds_passed (hk env env' n henv)
  · exact P.runs.pure (.own (failures_report _ _ hinput.shown _ .none))

/-! ### Combinations in step -/

section

variable {call call' : Text → Searcher (Except Interrupt)} {m m' : Matcher} {ms ms' : List Matcher}

lemma holds_elements
    (h : List.Forall₂ (fun m m' => P.InStep E (m.search call) (m'.search call')) ms ms')
    {κ : Type} [Answer κ] {A : κ → κ → Prop} (hA : P.Keeps A) {whole whole' input input' : Input}
    (hwhole : P.Inputs whole whole') (hinput : P.Inputs input input') {env env' : Environment}
    (henv : E env env') {k k' : Environment → Except Interrupt κ}
    (hk : ∀ env env', E env env' → P.runs.Holds A (k env) (k' env')) (offset : Nat) :
    P.runs.Holds (P.Landings A) (searchElements call ms whole offset input env k)
      (searchElements call' ms' whole' offset input' env' k') := by
  induction h generalizing input input' env env' offset with
  | nil =>
    obtain ⟨shape, items⟩ := input
    obtain ⟨shape', items'⟩ := input'
    cases hinput.items with
    | nil => exact P.runs.map (hk env env' henv) fun _ _ => .outer
    | cons => exact P.runs.pure (.leftover (failures_leftoverAt hwhole offset))
  | cons helement _ ih =>
    rw [searchElements_cons, searchElements_cons]
    refine P.runs.map (helement.holds hA.landings hinput henv fun env env' n henv => ?_)
      fun _ _ h => h.ofElement offset
    exact ih (hinput.drop n) henv (offset + n)

lemma search_array_bare {item : Value} (hitem : item.items? = none) {κ : Type} [Answer κ]
    {shape : Shape} {others : List Value} {env : Environment}
    {k : Continuation (Except Interrupt) κ} :
    (Matcher.array ms).search call ⟨shape, item :: others⟩ env k =
      pure (.own (.report .array .unexpectedValue item 0 none)) := by
  cases item with
  | seq => cases hitem
  | _ => rfl

/-- Two arrays go in step if their elements do. -/
lemma inStep_array
    (h : List.Forall₂ (fun m m' => P.InStep E (m.search call) (m'.search call')) ms ms') :
    P.InStep E ((Matcher.array ms).search call) ((Matcher.array ms').search call') := by
  constructor
  rintro κ _ A ⟨shape, items⟩ ⟨shape', items'⟩ env env' k k' hA ⟨rfl, hitems⟩ henv hk
  cases hitems with
  | nil => exact holds_report _ _ (P.shown_refl _) 0
  | @cons item item' others others' hitem hothers =>
    rcases P.items_rel hitem with ⟨shape', vs, ws, rfl, rfl, hinner⟩ | ⟨hbare, hbare'⟩
    · have hwhole : P.Inputs ⟨shape', vs⟩ ⟨shape', ws⟩ := ⟨rfl, hinner⟩
      simp only [Matcher.search_array_seq]
      exact P.runs.map (holds_elements h hA hwhole hwhole henv
        (fun env env' henv => hk env env' 1 henv) 0) fun _ _ h => h.settle hwhole
    · simp only [search_array_bare hbare, search_array_bare hbare']
      exact holds_report _ _ (P.shown_item hitem) 0

/-- Two choices go in step if their alternatives do. -/
lemma inStep_choice
    (h : List.Forall₂ (fun m m' => P.InStep E (m.search call) (m'.search call')) ms ms') :
    P.InStep E ((Matcher.choice ms).search call) ((Matcher.choice ms').search call') := by
  constructor
  intro κ _ A input input' env env' k k' hA hinput henv hk
  refine P.runs.searchAlternatives Failures.better hA.verdicts
    (h.imp fun m m' hstep => hstep.holds hA hinput henv hk) (fun b b' hb => ?_) .none
  exact .own (failures_report _ _ hinput.shown 0 hb)

end

/-! ### Outcomes that correspond -/

variable (P E) in
/-- Outcomes of which both are successes that use as many items and end in environments that
correspond, or failures that do. -/
inductive Outcomes : Outcome → Outcome → Prop where
  | success {result result' : Success} (henv : E result.environment result'.environment)
    (hconsumed : result.consumed = result'.consumed) :
    Outcomes (.success result) (.success result')
  | failure {f f' : Failure} (h : P.Failures f f') : Outcomes (.failure f) (.failure f')

/-- Searches in step begin in step. -/
lemma InStep.holds_start {limits : Limits} {m m' : Matcher} {datum datum' : Value}
    (hstep : P.InStep E (m.searchFrom limits.stack) (m'.searchFrom limits.stack))
    (hdatum : P.item datum datum') (hempty : E (.empty limits.maxDepth) (.empty limits.maxDepth)) :
    P.runs.Holds (P.Verdicts fun result result' : Success =>
        E result.environment result'.environment ∧ result.consumed = result'.consumed)
      (m.start limits datum Success.keep) (m'.start limits datum' Success.keep) := by
  have hinput : P.Inputs (.single datum) (.single datum') := ⟨rfl, .cons hdatum .nil⟩
  exact hstep.holds (fun _ _ _ => .none) hinput hempty fun _ _ _ henv => P.runs.pure ⟨henv, rfl⟩

/-- Matches that end alike come to outcomes that correspond, where the interrupts that may end them
count as failures. -/
lemma exists_outcomes {ends : Interrupt → Prop} {limits : Limits} {m m' : Matcher}
    {datum datum' : Value}
    (hstarts : Agree ends (P.Verdicts fun result result' : Success =>
        E result.environment result'.environment ∧ result.consumed = result'.consumed)
      (m.start limits datum Success.keep) (m'.start limits datum' Success.keep))
    (hends : ∀ interrupt, ends interrupt → ∃ f f', interrupt.failure? m datum = some f ∧
      interrupt.failure? m' datum' = some f' ∧ P.Failures f f') :
    ∃ outcome outcome', m.outcome limits datum = .ok outcome ∧
      m'.outcome limits datum' = .ok outcome' ∧ P.Outcomes E outcome outcome' := by
  refine exists_outcomes_of_agree hstarts (fun _ _ hverdict => ?_) fun interrupt hinterrupt => ?_
  · cases hverdict with
    | own h => exact .failure h
    | passed h => exact .success h.1 h.2
  · obtain ⟨f, f', hf, hf', h⟩ := hends interrupt hinterrupt
    exact ⟨f, f', hf, hf', .failure h⟩

end Pairing

end Motif
