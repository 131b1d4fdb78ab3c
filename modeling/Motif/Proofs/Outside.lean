import Motif.Proofs.Calls
import Motif.Proofs.Chains
import Motif.Proofs.Pairs
import Mathlib

/-!
# Failures from outside of an array

A failure with which the continuation of an array answers is no failure of the array. It is handed
on as it is or dropped, unless a matcher inside of the array that makes several attempts keeps it as
the best one: then it stands in the array's failure, as the cause with which that matcher gives up.

Where such a failure ends up is seen by comparing two runs whose continuations answer alike but for
their failures. All that may be looked at in these is their rank.
-/

namespace Motif

open Failure (Entry)

section

variable {H : Predicates}

/-! ### Failures around others -/

namespace Failure

/-- An entry is the report of a matcher that gives up after attempts. -/
def Entry.GaveUp (e : Entry) : Prop := (e.matcher, e.reason) ∈ wrappers ∧ e.matcher ≠ .array

/-- Two failures are the same but for failures from outside in them, which correspond by `R` and are
causes of matchers that gave up. -/
inductive Around (R : Failure → Failure → Prop) : Failure → Failure → Prop where
  | same (f : Failure) : Around R f f
  | kept {e : Entry} {g g' : Failure} (he : e.GaveUp) (h : R g g') :
    Around R (causedBy e g) (causedBy e g')
  | under (e : Entry) {f f' : Failure} (h : Around R f f') :
    Around R (causedBy e f) (causedBy e f')

/-- Failures from outside that correspond, or failures around them. -/
def Akin (R : Failure → Failure → Prop) (f f' : Failure) : Prop := R f f' ∨ Around R f f'

variable {R : Failure → Failure → Prop} {f f' : Failure}

/-- Placing an entry has nothing to do with its causes. -/
lemma relocate_causedBy (e : Entry) (base : Int) : ∃ placed : Entry, placed.matcher = e.matcher ∧
    placed.reason = e.reason ∧ ∀ g, (causedBy e g).relocate base = causedBy placed g := by
  cases hlocated : e.located with
  | true => exact ⟨e, rfl, rfl, fun g => if_pos hlocated⟩
  | false =>
    refine ⟨{ e with offset := base + e.offset, located := true }, rfl, rfl, fun g => ?_⟩
    exact if_neg (ne_true_of_eq_false hlocated)

namespace Around

lemma top_eq (h : Around R f f') : f.top = f'.top := by
  cases h <;> rfl

lemma relocate (h : Around R f f') (base : Int) :
    Around R (f.relocate base) (f'.relocate base) := by
  cases h with
  | same => exact .same _
  | @kept e _ _ he h =>
    obtain ⟨placed, hmatcher, hreason, hrelocate⟩ := relocate_causedBy e base
    rw [hrelocate, hrelocate]
    refine .kept ?_ h
    rwa [Entry.GaveUp, hmatcher, hreason]
  | under e h =>
    obtain ⟨placed, -, -, hrelocate⟩ := relocate_causedBy e base
    rw [hrelocate, hrelocate]
    exact .under placed h

lemma exists_kept (h : Around R f f') : f = f' ∨ ∃ before e g g', Entry.GaveUp e ∧ R g g' ∧
    f.chain = before ++ e :: g.chain ∧ f'.chain = before ++ e :: g'.chain := by
  induction h with
  | same => exact .inl rfl
  | @kept e g g' he h => exact .inr ⟨[], e, g, g', he, h, rfl, rfl⟩
  | under first _ ih =>
    rcases ih with rfl | ⟨before, e, g, g', he, h, hf, hf'⟩
    · exact .inl rfl
    · refine .inr ⟨first :: before, e, g, g', he, h, ?_, ?_⟩
      · rw [chain_causedBy, hf, List.cons_append]
      · rw [chain_causedBy, hf', List.cons_append]

end Around

lemma rank_causedBy (e : Entry) (h : f.rank = f'.rank) :
    (causedBy e f).rank = (causedBy e f').rank := by
  simp only [rank, root_causedBy, chain_causedBy, List.length_cons, Rank.mk.injEq] at h ⊢
  exact ⟨h.1, congrArg (· + 1) h.2.1, h.2.2⟩

section

variable (hR : ∀ g g', R g g' → g.rank = g'.rank)
include hR

lemma Around.rank_eq (h : Around R f f') : f.rank = f'.rank := by
  induction h with
  | same => rfl
  | kept _ h => exact rank_causedBy _ (hR _ _ h)
  | under e _ ih => exact rank_causedBy e ih

lemma Akin.rank_eq (h : Akin R f f') : f.rank = f'.rank :=
  h.elim (hR f f') (Around.rank_eq hR)

lemma Akin.better {best best' : Option Failure} (hbest : Option.Rel (Akin R) best best')
    (h : Akin R f f') : Akin R (Failure.better best f) (Failure.better best' f') := by
  cases hbest with
  | none => exact h
  | some hbest =>
    rw [Failure.better, Failure.better, hbest.rank_eq hR, h.rank_eq hR]
    split
    · exact h
    · exact hbest

end

/-- A matcher gives up after attempts. -/
lemma Around.report {kind : MatcherKind} {reason : Reason} {fragment : Value} {n : Nat}
    (hgaveUp : Entry.GaveUp ⟨kind, reason, fragment, n, false⟩) {best best' : Option Failure}
    (hbest : Option.Rel (Akin R) best best') :
    Around R (.report kind reason fragment n best) (.report kind reason fragment n best') := by
  cases hbest with
  | none => exact .same _
  | some hbest => exact hbest.elim (.kept hgaveUp) (.under _)

end Failure

open Failure (Akin Around)

lemma around_segmentStopped {R : Failure → Failure → Prop} (only : Option Restriction)
    (input : Input) {best best' : Option Failure} (hbest : Option.Rel (Akin R) best best') :
    Around R (segmentStopped only input best) (segmentStopped only input best') := by
  simp only [segmentStopped]
  split
  · exact .report (by simp [Failure.Entry.GaveUp, Failure.wrappers]) hbest
  · exact .report (by simp [Failure.Entry.GaveUp, Failure.wrappers]) hbest

/-! ### Answers that correspond -/

section

variable {κ : Type} [Answer κ] (R : Failure → Failure → Prop) (A : κ → κ → Prop)

/-- Answers that correspond are failures from outside that do or failures around such, or both
none. -/
def Reveals : Prop := ∀ x x', A x x' → Option.Rel (Akin R) (failure? x) (failure? x')

/-- Verdicts of which both are answers that correspond, or own failures around such. -/
inductive Verdict.Relayed : Verdict κ → Verdict κ → Prop where
  | own {f f' : Failure} (h : Around R f f') : Relayed (.own f) (.own f')
  | passed {x x' : κ} (h : A x x') : Relayed (.passed x) (.passed x')

/-- The same for the ways in which arrays end. -/
inductive Landing.Relayed : Landing κ → Landing κ → Prop where
  | outer {x x' : κ} (h : A x x') : Relayed (.outer x) (.outer x')
  | leftover (whole : Input) (offset : Nat) :
    Relayed (.leftover (leftoverAt whole offset)) (.leftover (leftoverAt whole offset))
  | placed {f f' : Failure} (h : Around R f f') (position : Int) :
    Relayed (.placed f position) (.placed f' position)

/-- Verdicts that correspond and of which the own failures are reports of an array. -/
def Verdict.Enclosed (v v' : Verdict κ) : Prop :=
  v.Relayed R A v' ∧ ∀ f, v = .own f → f.top.matcher = .array

variable {R A}

lemma Reveals.verdicts (h : Reveals R A) : Reveals R (Verdict.Relayed R A) := by
  rintro _ _ (hown | hpassed)
  · exact .some (.inr hown)
  · exact h _ _ hpassed

lemma Reveals.landings (h : Reveals R A) : Reveals R (Landing.Relayed R A) := by
  rintro _ _ (houter | ⟨whole, offset⟩ | ⟨hplaced, -⟩)
  · exact h _ _ houter
  · exact .some (.inr (.same _))
  · exact .some (.inr hplaced)

omit [Answer κ] in
lemma Verdict.Relayed.join {v v' : Verdict (Verdict κ)}
    (h : Verdict.Relayed R (Verdict.Relayed R A) v v') : Verdict.Relayed R A v.join v'.join := by
  cases h with
  | own h => exact .own h
  | passed h => exact h

omit [Answer κ] in
lemma Verdict.Relayed.ofElement {v v' : Verdict (Landing κ)}
    (h : Verdict.Relayed R (Landing.Relayed R A) v v') (offset : Nat) :
    Landing.Relayed R A (Landing.ofElement offset v) (Landing.ofElement offset v') := by
  cases h with
  | own h =>
    rw [Landing.ofElement, Landing.ofElement, h.top_eq]
    exact .placed (h.relocate offset) _
  | passed h => exact h

lemma Landing.speaksOf_eq {f f' : Failure} (h : f.top = f'.top) (whole : Input) :
    Landing.speaksOf whole f = Landing.speaksOf whole f' := by
  rw [Landing.speaksOf, Landing.speaksOf, h]

omit [Answer κ] in
/-- An array hands on what comes from outside, and has the first word in what does not. -/
lemma Landing.Relayed.settle {landing landing' : Landing κ}
    (h : Landing.Relayed R A landing landing') (whole : Input) :
    Verdict.Enclosed R A (Landing.settle whole landing) (Landing.settle whole landing') := by
  cases h with
  | outer h => exact ⟨.passed h, nofun⟩
  | leftover inner offset =>
    refine ⟨.own (.same _), ?_⟩
    rintro f ⟨⟩
    rfl
  | @placed f f' h position =>
    simp only [Landing.settle, ← Landing.speaksOf_eq h.top_eq]
    -- only what an array reports on the same list stays without a report of this one
    split
    · rename_i hspeaks
      refine ⟨.own h, ?_⟩
      rintro g ⟨⟩
      exact (Pairing.speaksOf_iff.mp hspeaks).1
    · refine ⟨.own (.under _ h), ?_⟩
      rintro g ⟨⟩
      rfl

end

/-! ### Discreet searches -/

section

variable {m : Type → Type} [Monad m]

/-- A search looks at the failures of its continuation only to rank them: whenever continuations
correspond, so do the verdicts. -/
def Discreet (C : Comparison m m) (R : Failure → Failure → Prop) (search : Searcher m) : Prop :=
  ∀ {κ : Type} [Answer κ] {A : κ → κ → Prop} (input : Input) (env : Environment)
    {k k' : Continuation m κ}, Reveals R A → (∀ env' n, C.Holds A (k env' n) (k' env' n)) →
    C.Holds (Verdict.Relayed R A) (search input env k) (search input env k')

variable {C : Comparison m m} {R : Failure → Failure → Prop} {κ : Type} {A : κ → κ → Prop}

lemma holds_own (f : Failure) :
    C.Holds (Verdict.Relayed R A) (pure (.own f)) (pure (.own f)) :=
  C.pure (.own (.same f))

variable [LawfulMonad m]

lemma holds_passed {x x' : m κ} (h : C.Holds A x x') :
    C.Holds (Verdict.Relayed R A) (.passed <$> x) (.passed <$> x') :=
  C.map h fun _ _ => .passed

lemma discreet_constant (value : Value) : Discreet C R (searchConstant value) := by
  rintro κ _ A ⟨shape, items⟩ env k k' hA hk
  cases items with
  | nil => exact holds_own _
  | cons item items =>
    simp only [searchConstant]
    split
    · exact holds_passed (hk env 1)
    · exact holds_own _

lemma discreet_element (name : Text) (only : Option Restriction) :
    Discreet C R (searchElement name only) := by
  rintro κ _ A ⟨shape, items⟩ env k k' hA hk
  cases items with
  | nil => exact holds_own _
  | cons item items =>
    simp only [searchElement]
    split
    · exact holds_own _
    · cases env.get? name with
      | none => exact holds_passed (hk _ 1)
      | some bound =>
        dsimp only
        split
        · exact holds_passed (hk env 1)
        · exact holds_own _

section

variable (hR : ∀ g g', R g g' → g.rank = g'.rank)
include hR

lemma discreet_segment (name : Text) (only : Option Restriction) :
    Discreet C R (searchSegment name only) := by
  rintro κ _ A ⟨shape, items⟩ env k k' hA hk
  cases items with
  | nil => exact holds_own _
  | cons item others =>
    simp only [searchSegment]
    cases env.get? name with
    | none =>
      exact C.offer (Akin.better hR) hA (fun n _ => hk _ n) .none (fun _ _ => .passed)
        fun b b' hb => .own (around_segmentStopped only _ hb)
    | some bound =>
      dsimp only
      split
      · split
        · exact holds_own _
        · exact holds_passed (hk env _)
      · exact holds_own _

lemma discreet_segmentExact (name : Text) (only : Option Restriction) :
    Discreet C R (searchSegmentExact name only) := by
  intro κ _ A input env k k' hA hk
  simp only [searchSegmentExact]
  refine C.map (discreet_segment hR name only input env hA.verdicts fun env' n => ?_)
    fun _ _ => Verdict.Relayed.join
  split
  · exact holds_passed (hk env' n)
  · exact holds_own _

omit [LawfulMonad m] in
lemma discreet_rest : Discreet C R searchRest := by
  intro κ _ A input env k k' hA hk
  exact C.offer (Akin.better hR) hA (fun n _ => hk env n) .none (fun _ _ => .passed) fun b b' hb =>
    .own (.report (by simp [Failure.Entry.GaveUp, Failure.wrappers]) hb)

end

variable [MonadExceptOf Interrupt m] {call : Text → Searcher m}

lemma holds_elements [Answer κ] {elements : List Matcher}
    (helements : ∀ element ∈ elements, Discreet C R (element.search call)) (hA : Reveals R A)
    (whole : Input) (offset : Nat) (input : Input) (env : Environment)
    {k k' : Environment → m κ} (hk : ∀ env', C.Holds A (k env') (k' env')) :
    C.Holds (Landing.Relayed R A) (searchElements call elements whole offset input env k)
      (searchElements call elements whole offset input env k') := by
  induction elements generalizing offset input env with
  | nil =>
    simp only [searchElements]
    split
    · exact C.map (hk env) fun _ _ => .outer
    · exact C.pure (.leftover whole offset)
  | cons element elements ih =>
    rw [searchElements_cons, searchElements_cons]
    refine C.map (helements element List.mem_cons_self input env hA.landings fun env' n => ?_)
      fun _ _ h => h.ofElement offset
    exact ih (fun element helement => helements element (List.mem_cons_of_mem _ helement)) _ _ _

lemma holds_array [Answer κ] {elements : List Matcher}
    (helements : ∀ element ∈ elements, Discreet C R (element.search call)) (hA : Reveals R A)
    (input : Input) (env : Environment) {k k' : Continuation m κ}
    (hk : ∀ env' n, C.Holds A (k env' n) (k' env' n)) :
    C.Holds (Verdict.Enclosed R A) ((Matcher.array elements).search call input env k)
      ((Matcher.array elements).search call input env k') := by
  obtain ⟨shape, items⟩ := input
  have hown (reason : Reason) (fragment : Value) :
      C.Holds (Verdict.Enclosed R A) (pure (.own (.report .array reason fragment 0 none)))
        (pure (.own (.report .array reason fragment 0 none))) := by
    refine C.pure ⟨.own (.same _), ?_⟩
    rintro f ⟨⟩
    rfl
  cases items with
  | nil => exact hown _ _
  | cons item others =>
    cases item with
    | seq shape' inner =>
      rw [Matcher.search_array_seq, Matcher.search_array_seq]
      exact C.map (holds_elements helements hA _ 0 _ env fun env' => hk env' 1) fun _ _ h =>
        h.settle _
    | _ => exact hown _ _

lemma discreet_array {elements : List Matcher}
    (helements : ∀ element ∈ elements, Discreet C R (element.search call)) :
    Discreet C R ((Matcher.array elements).search call) := fun input env _ _ hA hk =>
  C.mono (holds_array helements hA input env hk) fun _ _ h => h.1

variable (hR : ∀ g g', R g g' → g.rank = g'.rank)
include hR

omit [LawfulMonad m] in
lemma discreet_choice {alternatives : List Matcher}
    (halternatives : ∀ alternative ∈ alternatives, Discreet C R (alternative.search call)) :
    Discreet C R ((Matcher.choice alternatives).search call) := by
  intro κ _ A input env k k' hA hk
  refine C.searchAlternatives (Akin.better hR) hA.verdicts
    (List.forall₂_same.mpr fun alternative hmem => halternatives alternative hmem input env hA hk)
    (fun b b' hb => ?_) .none
  exact .own (.report (by simp [Failure.Entry.GaveUp, Failure.wrappers]) hb)

omit [LawfulMonad m] hR in
mutual

/-- A search is discreet if every reference is. -/
theorem discreet_search [LawfulMonad m] (hR : ∀ g g', R g g' → g.rank = g'.rank)
    (hthrow : ∀ {α β : Type} (S : α → β → Prop) (interrupt : Interrupt),
      C.Holds S (throwThe Interrupt interrupt) (throwThe Interrupt interrupt))
    (hcall : ∀ name, Discreet C R (call name)) :
    (matcher : Matcher) → Discreet C R (matcher.search call)
  | .constant value => discreet_constant value
  | .element name only => discreet_element name only
  | .segment name only => discreet_segment hR name only
  | .segmentExact name only => discreet_segmentExact hR name only
  | .rest => discreet_rest hR
  | .array elements => discreet_array (discreet_all hR hthrow hcall elements)
  | .choice alternatives => discreet_choice hR (discreet_all hR hthrow hcall alternatives)
  | .reference name => hcall name
  | .letrec _ body => fun input _ _ _ hA hk =>
    discreet_search hR hthrow hcall body input _ hA fun env' n => hk (env'.scopedTo _) n
  | .abstract _ => fun _ _ _ _ _ _ => hthrow _ _

theorem discreet_all [LawfulMonad m] (hR : ∀ g g', R g g' → g.rank = g'.rank)
    (hthrow : ∀ {α β : Type} (S : α → β → Prop) (interrupt : Interrupt),
      C.Holds S (throwThe Interrupt interrupt) (throwThe Interrupt interrupt))
    (hcall : ∀ name, Discreet C R (call name)) :
    (matchers : List Matcher) → ∀ matcher ∈ matchers, Discreet C R (matcher.search call)
  | [] => nofun
  | first :: others => List.forall_mem_cons.mpr
    ⟨discreet_search hR hthrow hcall first, discreet_all hR hthrow hcall others⟩

end

variable (hthrow : ∀ {α β : Type} (S : α → β → Prop) (interrupt : Interrupt),
  C.Holds S (throwThe Interrupt interrupt) (throwThe Interrupt interrupt))
include hthrow

lemma discreet_callRule (stack : Option Nat) (room : Nat) (name : Text) :
    Discreet C R (callRule stack room name) := by
  -- the references in a rule have one less to open than the one that runs it
  induction room generalizing name with
  | zero =>
    intro κ _ A input env k k' hA hk
    simp only [callRule]
    cases env.matcher? name with
    | none => exact holds_own _
    | some target => exact holds_own _
  | succ room ih =>
    intro κ _ A input env k k' hA hk
    simp only [callRule]
    cases env.matcher? name with
    | none => exact holds_own _
    | some target =>
      dsimp only
      split
      · exact holds_own _
      · split
        · exact hthrow _ _
        · exact discreet_search hR hthrow ih target input _ hA fun env' n =>
            hk (env'.atDepth env.depth) n

end

/-! ### Other failures from outside -/

/-- Computations with a state that end alike and in the same state, whatever the state before. -/
def Comparison.stateful (σ : Type) : Comparison (Stateful σ) (Stateful σ) where
  Holds R x y := ∀ state, Agree (fun _ => True) R (x.ending state).1 (y.ending state).1 ∧
    (x.ending state).2 = (y.ending state).2
  pure h _ := ⟨h, rfl⟩
  bind {_ _ _ _ _ _ x y _ _} h hfg state := by
    have hxy := h state
    rw [Stateful.ending_bind, Stateful.ending_bind]
    generalize x.ending state = ending, y.ending state = ending' at hxy
    obtain ⟨answer, after⟩ := ending
    obtain ⟨answer', after'⟩ := ending'
    obtain ⟨hagree, rfl⟩ : Agree _ _ answer answer' ∧ after = after' := hxy
    rcases hagree.ends_or_answers with ⟨interrupt, rfl, rfl, -⟩ | ⟨a, b, rfl, rfl, hab⟩
    · exact ⟨⟨rfl, trivial⟩, rfl⟩
    · exact hfg a b hab after

section

variable {σ κ : Type}

lemma holds_throw {α β : Type} (R : α → β → Prop) (interrupt : Interrupt) :
    (Comparison.stateful σ).Holds R (throwThe Interrupt interrupt) (throwThe Interrupt interrupt) :=
  fun _ => ⟨⟨rfl, trivial⟩, rfl⟩

lemma holds_map (relabel : κ → κ) (x : Stateful σ κ) :
    (Comparison.stateful σ).Holds (fun a b => b = relabel a) x (relabel <$> x) := by
  intro state
  rw [Stateful.ending_map]
  refine ⟨?_, rfl⟩
  cases (Stateful.ending x state).1 with
  | error interrupt => exact ⟨rfl, trivial⟩
  | ok a => exact rfl

variable [Answer κ] {mark : Failure → Failure} {relabel : κ → κ}

lemma reveals_relabel (hrelabel : ∀ x, failure? (relabel x) = (failure? x).map mark) :
    Reveals (fun g g' => g' = mark g) fun x x' => x' = relabel x := by
  rintro x _ rfl
  rw [hrelabel]
  cases failure? x with
  | none => exact .none
  | some g => exact .some (.inl rfl)

/-- If all failures with which the continuation of an array answers are replaced by others of the
same rank, the array ends as before. An answer of the continuation that it hands on is replaced, and
a failure of its own stays as it is, unless there is a failure of the continuation in it as the
cause with which a matcher inside of the array gives up after attempts. -/
theorem Matcher.outer_failures_of_array (hmark : ∀ g, (mark g).rank = g.rank)
    (hrelabel : ∀ x, failure? (relabel x) = (failure? x).map mark) (stack : Option Nat)
    (elements : List Matcher) (input : Input) (env : Environment)
    (k : Continuation (Stateful σ) κ) (state : σ) :
    let search := (Matcher.array elements).searchFrom stack input env
    let ending := Stateful.ending (search k) state
    let ending' := Stateful.ending (search fun env' n => relabel <$> k env' n) state
    ending.2 = ending'.2 ∧
      ((∃ interrupt, ending.1 = .error interrupt ∧ ending'.1 = .error interrupt) ∨
        (∃ x, ending.1 = .ok (.passed x) ∧ ending'.1 = .ok (.passed (relabel x))) ∨
        ∃ f f', ending.1 = .ok (.own f) ∧ ending'.1 = .ok (.own f') ∧ f.top.matcher = .array ∧
          (f = f' ∨ ∃ before e g, Entry.GaveUp e ∧ f.chain = before ++ e :: g.chain ∧
            f'.chain = before ++ e :: (mark g).chain)) := by
  intro search ending ending'
  have hrank (g g' : Failure) (h : g' = mark g) : g.rank = g'.rank := by rw [h, hmark]
  have hcall (name : Text) :
      Discreet (Comparison.stateful σ) (fun g g' => g' = mark g) (callRule stack env.room name) :=
    discreet_callRule hrank holds_throw stack env.room name
  obtain ⟨hagree, hstate⟩ : Agree (fun _ => True) (Verdict.Enclosed _ _) ending.1 ending'.1 ∧
      ending.2 = ending'.2 :=
    holds_array (discreet_all hrank holds_throw hcall elements) (reveals_relabel hrelabel) input env
      (fun env' n => holds_map relabel (k env' n)) state
  refine ⟨hstate, ?_⟩
  rcases hagree.ends_or_answers with
    ⟨interrupt, hanswer, hanswer', -⟩ | ⟨verdict, verdict', hanswer, hanswer', hrelayed, harray⟩
  · exact .inl ⟨interrupt, hanswer, hanswer'⟩
  · -- an array's own failure can differ below a report of a matcher that gave up only
    cases hrelayed with
    | passed hx =>
      obtain rfl := hx
      exact .inr (.inl ⟨_, hanswer, hanswer'⟩)
    | @own f f' h =>
      refine .inr (.inr ⟨f, f', hanswer, hanswer', harray f rfl, ?_⟩)
      rcases h.exists_kept with rfl | ⟨before, e, g, _, he, rfl, hf, hf'⟩
      · exact .inl rfl
      · exact .inr ⟨before, e, g, he, hf, hf'⟩

end

end

/-- A segment keeps the failure with which the continuation of its array answers, and another one
that is put in its place. -/
theorem Matcher.outer_failures_of_array_segment :
    let matcher := Matcher.array [.segment [.char 's'] none]
    let input := Input.single (.list [.int 1])
    let outer : Failure := ⟨⟨.constant, .unexpectedValue, .bool true, 0, false⟩, []⟩
    let other : Failure := ⟨⟨.constant, .unexpectedValue, .bool false, 0, false⟩, []⟩
    let mark (g : Failure) : Failure := { g with top.fragment := .bool false }
    let relabel : Verdict Success → Verdict Success
      | .own g => .own (mark g)
      | .passed x => .passed x
    let k : Continuation (Stateful Unit) (Verdict Success) := fun _ _ => pure (.own outer)
    let top : Entry := ⟨.array, .unexpectedInput, .list [.int 1], 1, true⟩
    let e : Entry := ⟨.segment, .indexOutOfRange, .list [.int 1], 1, true⟩
    let search (k : Continuation (Stateful Unit) (Verdict Success)) :=
      matcher.searchFrom none input (.empty 1) k
    (∀ g, (mark g).rank = g.rank) ∧
      (∀ x, failure? (relabel x) = (failure? x).map mark) ∧
      Stateful.ending (search k) () = (.ok (.own ⟨top, e :: outer.chain⟩), ()) ∧
      Stateful.ending (search fun env n => relabel <$> k env n) () =
        (.ok (.own ⟨top, e :: other.chain⟩), ()) ∧
      ∃ before e' g, Entry.GaveUp e' ∧ top :: e :: outer.chain = before ++ e' :: g.chain ∧
        top :: e :: other.chain = before ++ e' :: (mark g).chain := by
  intro matcher input outer other mark relabel k top e search
  have hmark (g : Failure) : (mark g).rank = g.rank := by
    obtain ⟨first, causes⟩ := g
    cases causes <;> rfl
  have hrelabel (x : Verdict Success) : failure? (relabel x) = (failure? x).map mark := by
    cases x <;> rfl
  have hending : Stateful.ending (search k) () = (.ok (.own ⟨top, e :: outer.chain⟩), ()) := by
    dsimp only [search, matcher, input, k, outer, top, e]
    cbv
  have hending' : Stateful.ending (search fun env n => relabel <$> k env n) () =
      (.ok (.own ⟨top, e :: other.chain⟩), ()) := by
    dsimp only [search, matcher, input, k, outer, relabel, mark, other, top, e]
    cbv
  refine ⟨hmark, hrelabel, hending, hending', ?_⟩
  obtain ⟨-, ⟨interrupt, hinterrupt, -⟩ | ⟨x, hpassed, -⟩ | ⟨f, f', hf, hf', -, hkept⟩⟩ :=
    Matcher.outer_failures_of_array hmark hrelabel none [.segment [.char 's'] none] input (.empty 1)
      k ()
  · cases (congrArg Prod.fst hending).symm.trans hinterrupt
  · cases (congrArg Prod.fst hending).symm.trans hpassed
  · cases (congrArg Prod.fst hending).symm.trans hf
    cases (congrArg Prod.fst hending').symm.trans hf'
    rcases hkept with hsame | hkept
    · cases hsame
    · exact hkept

/-- The failure with which the continuation of an array answers stands in a failure of the array. -/
theorem Matcher.outer_failure_kept :
    let items : List Value := [.int 1]
    let outer : Failure := ⟨⟨.constant, .unexpectedValue, .bool true, 0, false⟩, []⟩
    let k : Continuation (Stateful Unit) (Verdict Success) := fun _ _ => pure (.own outer)
    let top : Entry := ⟨.array, .unexpectedInput, .list items, 1, true⟩
    let e : Entry := ⟨.segment, .indexOutOfRange, .list items, 1, true⟩
    Stateful.ending ((Matcher.array [.segment [.char 's'] none]).searchFrom none
        (.single (.list items)) (.empty 1) k) () =
      (.ok (.own ⟨top, e :: outer.chain⟩), ()) := by
  intro items outer k top e
  dsimp only [items, outer, k, top, e]
  cbv

end Motif
