import Motif.Proofs.Origins
import Mathlib

/-!
# The grammar of failure chains

Few reports have causes: that of an array on one of its elements, and those with which a segment,
filler or a choice gives up after attempts. What else stands in a chain ends it. An attempt has
always been made before a matcher gives up, so reports of the second sort never lack a cause, but
for a choice without alternatives.
-/

namespace Motif

open Failure (Entry)

section

variable {H : Predicates}

/-- The matchers and reasons of reports that can have a cause. -/
def Failure.wrappers : List (MatcherKind × Reason) :=
  [(.array, .unexpectedInput), (.segment, .indexOutOfRange), (.segment, .restrictionNotSatisfied),
    (.rest, .indexOutOfRange), (.choice, .noAlternative)]

/-- Whether a reason speaks neither of attempts nor of the elements of a list. -/
def Reason.plain : Reason → Bool
  | .indexOutOfRange | .noAlternative | .unexpectedInput | .keepTrying => false
  | _ => true

/-- An entry has causes as its sort of report has them, in a run of the matchers of `ran`. -/
structure Failure.Entry.Formed (ran : Matcher → Prop) (e : Entry) (causes : List Entry) : Prop where
  wraps : causes ≠ [] → (e.matcher, e.reason) ∈ wrappers
  outOfRange : e.reason = .indexOutOfRange → causes ≠ []
  noAlternative : e.reason = .noAlternative → ∃ (alternatives : List Matcher) (input : Input),
    ran (.choice alternatives) ∧ e.fragment = input.toValue ∧ (causes = [] ↔ alternatives = [])
  leftover : e.reason = .unexpectedInput → causes = [] → ∃ (whole : Input) (offset : Nat),
    offset < whole.items.length ∧ e = (Landing.leftoverAt whole offset).top
  not_letrec : e.matcher ≠ .letrec
  not_rest : causes = [] → e.matcher ≠ .rest
  falls_short : e.reason = .keepTrying → e.matcher = .segment

/-- All entries of a chain have causes as their sorts of reports have them. -/
def Failure.Formed (ran : Matcher → Prop) (f : Failure) : Prop :=
  ∀ e causes, e :: causes <:+ f.chain → e.Formed ran causes

variable {ran : Matcher → Prop}

namespace Failure

/-- What holds of all entries of a chain with what is below them holds of the first and of all
others. -/
lemma forall_suffix_cons {P : Entry → List Entry → Prop} {first : Entry} {others : List Entry} :
    (∀ e causes, e :: causes <:+ first :: others → P e causes) ↔
      P first others ∧ ∀ e causes, e :: causes <:+ others → P e causes := by
  constructor
  · intro h
    exact ⟨h first others List.suffix_rfl, fun e causes he =>
      h e causes (he.trans (List.suffix_cons ..))⟩
  · rintro ⟨hfirst, hothers⟩ e causes he
    rcases List.suffix_cons_iff.mp he with heq | hsuffix
    · cases heq
      exact hfirst
    · exact hothers e causes hsuffix

lemma formed_iff {f : Failure} :
    f.Formed ran ↔ f.top.Formed ran f.causes ∧
      ∀ e causes, e :: causes <:+ f.causes → e.Formed ran causes :=
  forall_suffix_cons

lemma formed_single {e : Entry} : Formed ran ⟨e, []⟩ ↔ e.Formed ran [] := by
  rw [formed_iff, and_iff_left_iff_imp]
  intro _ c causes hc
  cases List.suffix_nil.mp hc

lemma formed_causedBy {e : Entry} {f : Failure} :
    (causedBy e f).Formed ran ↔ e.Formed ran f.chain ∧ f.Formed ran :=
  formed_iff

/-! ### Placing and wrapping -/

/-- Where an entry stands says nothing about its causes, except for leftovers, which stay where they
are. -/
lemma Entry.Formed.relocate {f : Failure} (h : f.top.Formed ran f.causes) (base : Int) :
    (f.relocate base).top.Formed ran f.causes := by
  rw [Failure.relocate]
  split
  · exact h
  · rename_i hlocated
    refine ⟨h.wraps, h.outOfRange, h.noAlternative, ?_, h.not_letrec, h.not_rest, h.falls_short⟩
    intro hreason hcauses
    obtain ⟨whole, offset, -, htop⟩ := h.leftover hreason hcauses
    rw [htop] at hlocated
    exact absurd rfl hlocated

lemma Formed.relocate {f : Failure} (h : f.Formed ran) (base : Int) :
    (f.relocate base).Formed ran := by
  obtain ⟨htop, hcauses⟩ := formed_iff.mp h
  rw [formed_iff, relocate_causes]
  exact ⟨htop.relocate base, hcauses⟩

lemma Formed.better {best f : Failure} (hbest : best.Formed ran) (h : f.Formed ran) :
    (Failure.better (some best) f).Formed ran := by
  rw [Failure.better]
  split
  · exact h
  · exact hbest

/-- The report of an array that gives the position of its element's failure. -/
lemma Entry.formed_array {fragment : Value} {offset : Int} {causes : List Entry}
    (h : causes ≠ []) :
    (⟨.array, .unexpectedInput, fragment, offset, true⟩ : Entry).Formed ran causes where
  wraps _ := .head _
  outOfRange := nofun
  noAlternative := nofun
  leftover _ hcauses := absurd hcauses h
  not_letrec := nofun
  not_rest _ := nofun
  falls_short := nofun

lemma Formed.inArray {f : Failure} (h : f.Formed ran) (whole : Input) (offset : Nat) :
    (f.inArray whole offset).Formed ran := by
  rw [Failure.inArray]
  split
  · exact h.relocate offset
  · exact formed_causedBy.mpr ⟨Entry.formed_array (List.cons_ne_nil _ _), h.relocate offset⟩

/-- An array's list is where trying ends. -/
lemma Formed.reason_inArray_ne_keepTrying {f : Failure} (h : f.Formed ran) (whole : Input)
    (offset : Nat) : (f.inArray whole offset).top.reason ≠ .keepTrying := by
  have htop := (formed_iff.mp (h.relocate offset)).1
  rw [Failure.inArray]
  split
  · rename_i hspeaks
    intro hreason
    rw [Landing.speaksOf, htop.falls_short hreason] at hspeaks
    cases hspeaks
  · exact ne_of_beq_false rfl

lemma formed_leftoverAt {whole : Input} {offset : Nat} (h : offset < whole.items.length) :
    (Landing.leftoverAt whole offset).Formed ran :=
  formed_single.mpr
    { wraps := fun hcauses => absurd rfl hcauses
      outOfRange := nofun
      noAlternative := nofun
      leftover := fun _ _ => ⟨whole, offset, h, rfl⟩
      not_letrec := nofun
      not_rest := fun _ => nofun
      falls_short := nofun }

/-! ### Reports -/

lemma Entry.formed_of_plain {e : Entry} (hreason : e.reason.plain = true)
    (hletrec : e.matcher ≠ .letrec) (hrest : e.matcher ≠ .rest) : e.Formed ran [] := by
  have hne (reason : Reason) (h : reason.plain = false) : e.reason ≠ reason := by
    rintro rfl
    rw [hreason] at h
    cases h
  exact
    { wraps := fun hcauses => absurd rfl hcauses
      outOfRange := fun h => absurd h (hne _ rfl)
      noAlternative := fun h => absurd h (hne _ rfl)
      leftover := fun h => absurd h (hne _ rfl)
      not_letrec := hletrec
      not_rest := fun _ => hrest
      falls_short := fun h => absurd h (hne _ rfl) }

lemma Entry.formed_fallsShort {fragment : Value} {n : Nat} :
    (⟨.segment, .keepTrying, fragment, n, false⟩ : Entry).Formed ran [] where
  wraps hcauses := absurd rfl hcauses
  outOfRange := nofun
  noAlternative := nofun
  leftover := nofun
  not_letrec := nofun
  not_rest _ := nofun
  falls_short _ := rfl

lemma Entry.formed_noAlternative {alternatives : List Matcher} {input : Input}
    {causes : List Entry} (hran : ran (.choice alternatives))
    (h : causes = [] ↔ alternatives = []) :
    (⟨.choice, .noAlternative, input.toValue, 0, false⟩ : Entry).Formed ran causes where
  wraps _ := by simp [wrappers]
  outOfRange := nofun
  noAlternative _ := ⟨alternatives, input, hran, rfl, h⟩
  leftover := nofun
  not_letrec := nofun
  not_rest _ := nofun
  falls_short := nofun

end Failure

open Failure

lemma Matcher.Complains.formed {matcher : Matcher} {input : Input} {f : Failure}
    (h : matcher.Complains input f)
    (hran : ∀ alternatives, matcher = .choice alternatives → ran matcher) : f.Formed ran := by
  induction h with
  | exact _ ih => exact ih nofun
  | fallsShort => exact formed_single.mpr Entry.formed_fallsShort
  | noAlternatives =>
    exact formed_single.mpr (Entry.formed_noAlternative (hran [] rfl) (iff_of_true rfl rfl))
  | _ => exact formed_single.mpr (Entry.formed_of_plain rfl nofun nofun)

lemma Matcher.GivesUp.formed {matcher : Matcher} {input : Input} {best f : Failure}
    (h : matcher.GivesUp input best f) (hbest : best.Formed ran)
    (hran : ∀ alternatives, matcher = .choice alternatives → ran matcher) : f.Formed ran := by
  have hchain : best.chain ≠ [] := List.cons_ne_nil _ _
  induction h with
  | exact _ ih => exact ih nofun
  | noAlternative halternatives =>
    exact formed_causedBy.mpr ⟨Entry.formed_noAlternative (hran _ rfl)
      (iff_of_false hchain halternatives), hbest⟩
  | _ =>
    refine formed_causedBy.mpr ⟨?_, hbest⟩
    exact
      { wraps := fun _ => by simp [wrappers]
        outOfRange := fun _ => hchain
        noAlternative := nofun
        leftover := nofun
        not_letrec := nofun
        not_rest := fun hcauses => absurd hcauses hchain
        falls_short := nofun }

/-- Only an item after those that a segment took asks to keep trying. -/
lemma Matcher.Complains.reason_ne_keepTrying {matcher : Matcher} {input : Input} {f : Failure}
    (h : matcher.Complains input f) (hinput : input.items.length ≤ 1) :
    f.top.reason ≠ .keepTrying := by
  induction h with
  | exact _ ih => exact ih
  | fallsShort hpos hlength => omega
  | _ => nofun

lemma Matcher.GivesUp.reason_ne_keepTrying {matcher : Matcher} {input : Input} {best f : Failure}
    (h : matcher.GivesUp input best f) : f.top.reason ≠ .keepTrying := by
  induction h with
  | exact _ ih => exact ih
  | _ => nofun

/-! ### Failures of searches -/

/-- In every failure that a search comes to, all entries have the causes of their sort of report. -/
theorem Arises.formed {lists : List Input} {origin : Origin} {f : Failure} {seen : List Event}
    (h : Arises ran lists origin f seen) : f.Formed ran := by
  induction h with
  | complaint hran h => exact h.formed fun _ _ => hran
  | ceiling => exact formed_single.mpr (Entry.formed_of_plain rfl nofun nofun)
  | gaveUp hran _ h ih => exact h.formed ih fun _ _ => hran
  | leftover hoffset => exact formed_leftoverAt hoffset
  | array _ _ ih => exact ih.inArray _ _
  | letrec _ ih => exact ih
  | reference _ ih => exact ih
  | alternative _ _ ih => exact ih
  | fallsShort => exact formed_single.mpr Entry.formed_fallsShort
  | answer _ ih => exact ih
  | first _ ih => exact ih
  | better _ _ ihbest ih => exact ihbest.better ih
  | leftoverLater hoffset => exact formed_leftoverAt hoffset
  | later _ _ ih => exact ih.relocate _
  | beyond _ ih => exact ih

/-- The own failure of a search of at most one item does not say to keep trying. -/
theorem Arises.reason_ne_keepTrying {lists : List Input} {origin : Origin} {f : Failure}
    {seen : List Event} (h : Arises ran lists origin f seen) {matcher : Matcher} {input : Input}
    (horigin : origin = .search matcher input) (hinput : input.items.length ≤ 1) :
    f.top.reason ≠ .keepTrying := by
  induction h generalizing matcher input with
  | complaint _ h =>
    cases horigin
    exact h.reason_ne_keepTrying hinput
  | ceiling => nofun
  | gaveUp _ _ h => exact h.reason_ne_keepTrying
  | leftover => nofun
  | array _ h => exact h.formed.reason_inArray_ne_keepTrying _ _
  | letrec _ ih =>
    cases horigin
    exact ih rfl hinput
  | reference _ ih =>
    cases horigin
    exact ih rfl hinput
  | alternative | fallsShort | answer | first | better | leftoverLater | later | beyond =>
    cases horigin

/-! ### Failures of a match -/

section

variable {κ : Type} [Answer κ] {call : Text → Searcher (Except Interrupt)}
  {alternatives : List Matcher} {input : Input} {env : Environment}
  {k : Continuation (Except Interrupt) κ} {f : Failure}

lemma own_of_searchAlternatives {best : Option Failure}
    (h : searchAlternatives call alternatives best input env k = .ok (.own f)) :
    ∃ cause, f = .report .choice .noAlternative input.toValue 0 cause ∧
      (cause = none ↔ best = none ∧ alternatives = []) := by
  induction alternatives generalizing best with
  | nil =>
    cases h
    exact ⟨best, rfl, by simp⟩
  | cons alternative alternatives ih =>
    simp only [searchAlternatives] at h
    cases hverdict : alternative.search call input env k with
    | error interrupt =>
      rw [hverdict] at h
      cases h
    | ok verdict =>
      rw [hverdict] at h
      dsimp only [bind, Except.bind] at h
      cases hf : failure? verdict with
      | none =>
        rw [hf] at h
        cases h
        cases hf
      | some g =>
        rw [hf] at h
        obtain ⟨cause, rfl, hcause⟩ := ih h
        exact ⟨cause, rfl, by simp [hcause]⟩

/-- A choice that fails has no alternative that matches, and its report has a cause unless it has no
alternatives at all. -/
lemma Matcher.own_of_search_choice
    (h : (Matcher.choice alternatives).search call input env k = .ok (.own f)) :
    f.top = ⟨.choice, .noAlternative, input.toValue, 0, false⟩ ∧
      (f.causes = [] ↔ alternatives = []) := by
  obtain ⟨cause, rfl, hcause⟩ := own_of_searchAlternatives h
  refine ⟨rfl, ?_⟩
  cases cause with
  | none => exact iff_of_true rfl (hcause.mp rfl).2
  | some g => exact iff_of_false (List.cons_ne_nil _ _) fun hnil => nomatch hcause.mpr ⟨rfl, hnil⟩

end

/-- The chain of a failed match has a fixed grammar: every entry below which others stand is one of
five sorts of report; giving up after attempts has a cause, but for a choice without alternatives;
leftovers, reported in their list, end a chain; nothing is reported by rules, and filler does not
end a chain. The first entry does not say to keep trying. -/
theorem Matcher.formed_of_outcome {limits : Limits} {matcher : Matcher} {datum : Value}
    {f : Failure} (h : matcher.outcome limits datum = .ok (.failure f))
    (hstack : matcher.start limits datum Success.keep ≠
      (.error .stackExhausted : Except Interrupt _)) :
    f.Formed (matcher.RunsIn limits datum) ∧ f.top.reason ≠ .keepTrying ∧
      ∀ {κ : Type} [Answer κ] (call : Text → Searcher (Except Interrupt))
        (alternatives : List Matcher) (input : Input) (env : Environment)
        (k : Continuation (Except Interrupt) κ) (g : Failure),
        (Matcher.choice alternatives).search call input env k = .ok (.own g) →
          g.top = ⟨.choice, .noAlternative, input.toValue, 0, false⟩ ∧
            (g.causes = [] ↔ alternatives = []) := by
  rcases Matcher.arises_of_outcome h with harises | ⟨hexhausted, -⟩
  · exact ⟨harises.formed, harises.reason_ne_keepTrying rfl (Nat.le_refl _),
      fun _ _ _ _ _ _ hown => Matcher.own_of_search_choice hown⟩
  · exact absurd hexhausted hstack

end

/-- A segment that falls short of the end of its list before an item that it may not take keeps that
as its cause. -/
theorem Matcher.formed_of_outcome_short :
    let name : Text := [.char 'x']
    let items : List Value := [.int 1, .null]
    let matcher : Matcher := .array [.segmentExact name (some .integer)]
    let top : Entry := ⟨.array, .unexpectedInput, .list items, 1, true⟩
    let causes : List Entry := [⟨.segment, .restrictionNotSatisfied, .null, 1, true⟩,
      ⟨.segment, .keepTrying, .list items, 1, false⟩]
    matcher.outcome {} (.list items) = .ok (.failure ⟨top, causes⟩) ∧
      matcher.start {} (.list items) Success.keep ≠
        (.error .stackExhausted : Except Interrupt _) ∧
      Failure.Formed (matcher.RunsIn {} (.list items)) ⟨top, causes⟩ ∧
        top.reason ≠ .keepTrying := by
  intro name items matcher top causes
  have houtcome : matcher.outcome {} (.list items) = .ok (.failure ⟨top, causes⟩) := by
    dsimp only [matcher, name, items, top, causes]
    cbv
  have hstart : matcher.start {} (.list items) Success.keep =
      (.ok (.own ⟨top, causes⟩) : Except Interrupt _) := by
    dsimp only [matcher, name, items, top, causes]
    cbv
  have hstack : matcher.start {} (.list items) Success.keep ≠
      (.error .stackExhausted : Except Interrupt _) := by
    rw [hstart]
    simp
  obtain ⟨hformed, hreason, -⟩ := Matcher.formed_of_outcome houtcome hstack
  exact ⟨houtcome, hstack, hformed, hreason⟩

end Motif
