import Motif.Proofs.Positions
import Motif.Proofs.RunningBest
import Mathlib

/-!
# The alternative that got furthest

A choice keeps the best failure of its alternatives, and of failures with roots as good and chains
as long this is the one whose root has the largest offset. Whether it is also the one that got
furthest in the list depends on where the offsets count from: a root that has been placed gives its
position in the list, any other counts from further right.
-/

namespace Motif

open Failure (Entry)

section

variable {H : Predicates}

/-- The root of a failure stands at position `p` of a list. It gives this position, or has not been
placed and counts from `start`. -/
structure Failure.RootAt (items : List Value) (start : Nat) (p : Int) (f : Failure) : Prop where
  placed : f.root.located = true → start = 0
  position : p = start + f.root.offset
  stands : f.root.Stands (items.drop start)

/-- A root about an item stands where the item is. -/
lemma Failure.rootAt_of_item {items : List Value} {f : Failure} {start n : Nat} {v : Value}
    (hlocated : f.root.located = true → start = 0) (hoffset : f.root.offset = n)
    (hfragment : f.root.item? = some v) (hitem : (items.drop start)[n]? = some v)
    (hend : f.root.atEnd = false) (hleft : f.root.left? = none) :
    f.RootAt items start (start + n) where
  placed := hlocated
  position := by rw [hoffset]
  stands := by
    have hn := (List.getElem?_eq_some_iff.mp hitem).1
    refine .of_report hoffset (Nat.le_of_lt hn) (fun w hw => ?_) (by simp [hend]) (by simp [hleft])
    rw [hitem, ← hfragment, hw]

/-- Of two failures with roots as good and chains as long, the first got no further than the second
unless it outranks it, and less far if it is outranked, as far as its offset does not count from
further right. -/
lemma Failure.RootAt.le {items : List Value} {start start' : Nat} {p q : Int} {f g : Failure}
    (hf : f.RootAt items start p) (hg : g.RootAt items start' q)
    (hroot : f.root.reason.informative = g.root.reason.informative)
    (hlength : f.chain.length = g.chain.length) (hstart : start ≤ start') :
    (¬ g.rank < f.rank → p ≤ q) ∧ (f.rank < g.rank → p < q) := by
  rw [Rank.lt_iff, Rank.lt_iff, hf.position, hg.position]
  dsimp only [rank]
  rw [hroot, hlength]
  constructor
  · intro h
    by_contra hlt
    exact h (.inr ⟨rfl, .inr ⟨rfl, by omega⟩⟩)
  · rintro (⟨hfalse, htrue⟩ | ⟨-, hlt | ⟨-, hlt⟩⟩)
    · rw [hfalse] at htrue
      cases htrue
    · omega
    · omega

/-! ### Choices without success -/

section

variable {σ κ : Type} [Answer κ] {call : Text → Searcher (Stateful σ)} {input : Input}
  {env : Environment} {k : Continuation (Stateful σ) κ} {alternatives elements : List Matcher}
  {state state' : σ} {fs : List Failure}

variable (call input env k) in
/-- All alternatives fail, one after the other, each from the state in which the one before it
ended. -/
inductive Refused [Predicates] : List Matcher → σ → List Failure → σ → Prop where
  | nil {state : σ} : Refused [] state [] state
  | cons {alternative : Matcher} {alternatives : List Matcher} {state state' state'' : σ}
    {verdict : Verdict κ} {f : Failure} {fs : List Failure}
    (hrun : Stateful.ending (alternative.search call input env k) state = (.ok verdict, state'))
    (hf : failure? verdict = some f) (h : Refused alternatives state' fs state'') :
    Refused (alternative :: alternatives) state (f :: fs) state''

lemma Refused.allFail (h : Refused call input env k alternatives state fs state') :
    AllFail (fun alternative : Matcher => alternative.search call input env k) alternatives state
      fs state' := by
  induction h with
  | nil => exact .nil
  | cons hrun hf _ ih => exact .cons hrun hf ih

lemma Refused.ending_choice (h : Refused call input env k alternatives state fs state')
    (halternatives : alternatives ≠ []) :
    ∃ kept, kept.Leads fs ∧
      Stateful.ending ((Matcher.choice alternatives).search call input env k) state =
        (.ok (.own (.report .choice .noAlternative input.toValue 0 (some kept))), state') := by
  have hfs : fs ≠ [] := by
    cases h with
    | nil => exact absurd rfl halternatives
    | cons => exact List.cons_ne_nil _ _
  obtain ⟨kept, hkept, hleads⟩ := Failure.exists_leads hfs
  refine ⟨kept, hleads, ?_⟩
  rw [← hkept]
  exact (keepsBest_search_choice state state' _).mpr ⟨fs, h.allFail, rfl⟩

/-- If all alternatives of a choice at position `base` of an array's list fail, the array's failure
has the best of their failures as the cause of the choice. None of the others outranks it, and those
before it rank lower. Of the failures with roots as good and chains as long, it is the one that got
furthest in the list, the earliest of equals, as far as their offsets do not count from further
right than its own. -/
theorem Matcher.furthest_of_choice {whole : Input} {base : Nat} {k : Environment → Stateful σ κ}
    (halternatives : alternatives ≠ [])
    (h : Refused call (whole.drop base) env
      (fun env' n =>
        searchElements call elements whole (base + n) ((whole.drop base).drop n) env' k)
      alternatives state fs state') :
    ∃ before kept after, fs = before ++ kept :: after ∧
      Stateful.ending
          (searchElements call (.choice alternatives :: elements) whole base (whole.drop base) env
            k)
          state =
        (.ok (.placed (.causedBy ⟨.choice, .noAlternative, (whole.drop base).toValue, base, true⟩
          kept) base), state') ∧
      (∀ f ∈ before, f.rank < kept.rank) ∧ (∀ f ∈ after, ¬ kept.rank < f.rank) ∧
      ∀ f ∈ fs, f.root.reason.informative = kept.root.reason.informative →
        f.chain.length = kept.chain.length → ∀ start start' p q,
          f.RootAt whole.items start p → kept.RootAt whole.items start' q → start ≤ start' →
            p ≤ q ∧ (f ∈ before → p < q) := by
  obtain ⟨kept, ⟨before, after, rfl, hbefore, hafter⟩, hending⟩ := h.ending_choice halternatives
  refine ⟨before, kept, after, rfl, ?_, hbefore, hafter, ?_⟩
  · rw [searchElements_cons, Stateful.ending_map, hending]
    simp [Except.map, Landing.ofElement, Failure.relocate, Failure.report, Failure.causedBy,
      Failure.chain]
  · intro f hf hroot hlength start start' p q hp hq hstart
    have hle := hp.le hq hroot hlength hstart
    refine ⟨hle.1 ?_, fun hearlier => hle.2 (hbefore f hearlier)⟩
    rcases List.mem_append.mp hf with hearlier | hlater
    · exact fun hlt => Failure.Rank.lt_irrefl _ (Failure.Rank.lt_trans (hbefore f hearlier) hlt)
    · rcases List.mem_cons.mp hlater with rfl | hlater
      · exact Failure.Rank.lt_irrefl _
      · exact hafter f hlater

end

end

/-- The second alternative gets one item further than the first. -/
theorem Matcher.furthest_of_choice_second :
    let name : Text := [.char 's']
    let whole : Input := ⟨.list, [.int 0, .int 1, .int 3]⟩
    let env := (Environment.empty 1).extend name (.list [.int 1, .int 2])
    let call : Text → Searcher (Stateful Unit) := callRule none 1
    let k : Continuation (Stateful Unit) (Landing Success) := fun env' n =>
      searchElements call [] whole (1 + n) ((whole.drop 1).drop n) env' (Success.keep · 1)
    let alternatives := [Matcher.constant (.int 5), .segment name none]
    let first : Failure := ⟨⟨.constant, .unexpectedValue, .tuple [.int 1, .int 5], 0, false⟩, []⟩
    let second : Failure := ⟨⟨.segment, .bindingConflict, .tuple [.int 3, .int 2], 1, false⟩, []⟩
    alternatives ≠ [] ∧ Refused call (whole.drop 1) env k alternatives () [first, second] () ∧
      first.RootAt whole.items 1 1 ∧ second.RootAt whole.items 1 2 ∧
      Stateful.ending (searchElements call [.choice alternatives] whole 1 (whole.drop 1) env
          (Success.keep · 1)) () =
        (.ok (.placed (.causedBy ⟨.choice, .noAlternative, (whole.drop 1).toValue, 1, true⟩ second)
          1), ()) := by
  intro name whole env call k alternatives first second
  have hrun : Stateful.ending ((Matcher.constant (.int 5)).search call (whole.drop 1) env k) () =
      (.ok (.own first), ()) := by
    dsimp only [name, whole, env, call, k, first]
    cbv
  have hrun' : Stateful.ending ((Matcher.segment name none).search call (whole.drop 1) env k) () =
      (.ok (.own second), ()) := by
    dsimp only [name, whole, env, call, k, second]
    cbv
  have hrefused : Refused call (whole.drop 1) env k alternatives () [first, second] () :=
    .cons hrun rfl (.cons hrun' rfl .nil)
  have hfirst : first.RootAt whole.items 1 1 :=
    Failure.rootAt_of_item (n := 0) (absurd · Bool.false_ne_true) rfl rfl rfl rfl rfl
  have hsecond : second.RootAt whole.items 1 2 :=
    Failure.rootAt_of_item (n := 1) (absurd · Bool.false_ne_true) rfl rfl rfl rfl rfl
  have halternatives : alternatives ≠ [] := List.cons_ne_nil _ _
  refine ⟨halternatives, hrefused, hfirst, hsecond, ?_⟩
  obtain ⟨before, kept, after, hfs, hending, hbefore, hafter, hle⟩ :=
    Matcher.furthest_of_choice halternatives hrefused
  -- the first failure is not kept: the second one gets further
  cases before with
  | nil =>
    obtain ⟨rfl, rfl⟩ := List.cons.inj hfs
    exact absurd (show first.rank < second.rank by decide) (hafter second List.mem_cons_self)
  | cons _ before =>
    obtain ⟨rfl, hsecond⟩ := List.cons.inj hfs
    cases before with
    | nil =>
      obtain ⟨rfl, -⟩ := List.cons.inj hsecond
      exact hending
    | cons _ before =>
      have := congrArg List.length (List.cons.inj hsecond).2
      simp at this

/-- A segment that is bound gets further than the element after the choice, but its offset counts
from where the choice stands, and the failure of the element is kept. -/
theorem Matcher.nearer_of_choice :
    let name : Text := [.char 's']
    let whole : Input := ⟨.list, [.list [.int 1, .int 2, .int 3], .int 0, .int 1, .int 2, .int 9]⟩
    let alternatives := [Matcher.segment name none, .constant (.int 1)]
    let last := Matcher.constant (.int 7)
    let matcher := Matcher.array
      [.element name none, .constant (.int 0), .choice alternatives, last]
    let env := (Environment.empty 50).extend name (.list [.int 1, .int 2, .int 3])
    let call : Text → Searcher (Stateful Unit) := callRule (some 1000) 50
    let k : Continuation (Stateful Unit) (Landing Success) := fun env' n =>
      searchElements call [last] whole (2 + n) ((whole.drop 2).drop n) env' (Success.keep · 1)
    let top : Entry := ⟨.array, .unexpectedInput, whole.toValue, 2, true⟩
    let cause : Entry := ⟨.choice, .noAlternative, (whole.drop 2).toValue, 2, true⟩
    let further : Failure :=
      ⟨⟨.segment, .bindingConflict, .tuple [.int 9, .int 3], 2, false⟩, []⟩
    let nearer : Failure := ⟨⟨.constant, .unexpectedValue, .tuple [.int 2, .int 7], 3, true⟩, []⟩
    matcher.outcome {} whole.toValue = .ok (.failure ⟨top, cause :: nearer.chain⟩) ∧
      Refused call (whole.drop 2) env k alternatives () [further, nearer] () ∧
      further.root.reason.informative = nearer.root.reason.informative ∧
      further.chain.length = nearer.chain.length ∧
      further.RootAt whole.items 2 4 ∧ nearer.RootAt whole.items 0 3 := by
  intro name whole alternatives last matcher env call k top cause further nearer
  have hrun : Stateful.ending ((Matcher.segment name none).search call (whole.drop 2) env k) () =
      (.ok (.own further), ()) := by
    dsimp only [name, whole, env, call, k, last, further]
    cbv
  have hrun' : Stateful.ending
      ((Matcher.constant (.int 1)).search call (whole.drop 2) env k) () =
        (.ok (.passed (.placed nearer 3)), ()) := by
    dsimp only [name, whole, env, call, k, last, nearer]
    cbv
  refine ⟨?_, .cons hrun rfl (.cons hrun' rfl .nil), rfl, rfl, ?_, ?_⟩
  · dsimp only [matcher, alternatives, last, name, whole, top, cause, nearer]
    cbv
  · exact Failure.rootAt_of_item (n := 2) (absurd · Bool.false_ne_true) rfl rfl rfl rfl rfl
  · exact Failure.rootAt_of_item (n := 3) (fun _ => rfl) rfl rfl rfl rfl rfl

end Motif
