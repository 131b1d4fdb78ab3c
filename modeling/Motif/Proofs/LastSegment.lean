import Motif.Proofs.Scope

/-!
# Segments at the end of a list

A segment that must own what is left of its list is an ordinary segment wherever it stands last in
an array: the array refuses what an ordinary segment leaves over. The two arrays have the same ways,
so that a search of the one makes the calls that a search of the other makes and ends with the same
answer, unless both fail. Their failures are not the same, since in the one it is the segment that
refuses and in the other the array.
-/

namespace Motif

variable {H : Predicates}

/-! ### Ways -/

/-- Ways after which nothing comes may be left out. -/
lemma followed_filter {α : Type} {p : Environment × Nat → Bool} {ways : List (Environment × Nat)}
    {next : Environment → Nat → List (Except Interrupt α)}
    (h : ∀ way ∈ ways, p way = false → next way.1 way.2 = []) :
    followed ((ways.filter p).map .ok) next = followed (ways.map .ok) next := by
  simp only [followed, List.flatMap_map]
  induction ways with
  | nil => rfl
  | cons way ways ih =>
    obtain ⟨hway, hways⟩ := List.forall_mem_cons.mp h
    cases hp : p way with
    | true => rw [List.filter_cons_of_pos hp, List.flatMap_cons, List.flatMap_cons, ih hways]
    | false =>
      rw [List.filter_cons_of_neg (by simp [hp]), List.flatMap_cons, hway hp, List.nil_append,
        ih hways]

section

variable {call : Text → List Value → Environment → List Way}

/-- What stands at the end of an array counts only for its ways. -/
lemma sequenceWays_append_congr {last last' : List Matcher}
    (h : ∀ items env, sequenceWays call last items env = sequenceWays call last' items env)
    (elements : List Matcher) (items : List Value) (env : Environment) :
    sequenceWays call (elements ++ last) items env =
      sequenceWays call (elements ++ last') items env := by
  induction elements generalizing items env with
  | nil => exact h items env
  | cons element elements ih => simp only [List.cons_append, sequenceWays, ih]

/-- At the end of a list only the runs that reach it are left, whether the segment asks for them or
not. -/
lemma sequenceWays_segmentExact (name : Text) (only : Option Restriction) (items : List Value)
    (env : Environment) : sequenceWays call [.segmentExact name only] items env =
      sequenceWays call [.segment name only] items env := by
  simp only [sequenceWays, Matcher.ways]
  refine followed_filter fun way hway hshort => if_neg fun hempty => ?_
  have hlength : way.2 ≤ items.length := (grow_segmentWays hway).1
  have hreach : items.length ≤ way.2 := List.drop_eq_nil_iff.mp (List.isEmpty_iff.mp hempty)
  exact of_decide_eq_false hshort (Nat.le_antisymm hlength hreach)

lemma Matcher.waysFrom_segmentExact_last (stack : Option Nat) (elements : List Matcher)
    (name : Text) (only : Option Restriction) :
    (Matcher.array (elements ++ [.segmentExact name only])).waysFrom stack =
      (Matcher.array (elements ++ [.segment name only])).waysFrom stack := by
  funext items env
  simp only [waysFrom, ways,
    sequenceWays_append_congr (sequenceWays_segmentExact name only) elements]

end

/-! ### Searches -/

/-- Last in an array a segment that must reach the end of its list is searched like any other: the
calls of the continuation are the same and come in the same order, and so do the state afterwards
and the answer, if it is no failure. If the one search fails, so does the other. -/
theorem Matcher.search_segmentExact_last {σ κ : Type} [Answer κ] (stack : Option Nat)
    (elements : List Matcher) (name : Text) (only : Option Restriction) (input : Input)
    (env : Environment) (k : Continuation (Stateful σ) κ) (state : σ) :
    let whole := Matcher.array (elements ++ [.segmentExact name only])
    let free := Matcher.array (elements ++ [.segment name only])
    whole.calls stack input env k state = free.calls stack input env k state ∧
      Stateful.ending (Verdict.accepted? <$> whole.searchFrom stack input env k) state =
        Stateful.ending (Verdict.accepted? <$> free.searchFrom stack input env k) state := by
  intro whole free
  have hsearch {τ : Type} (k : Continuation (Stateful τ) κ) :
      Verdict.accepted? <$> whole.searchFrom stack input env k =
        Verdict.accepted? <$> free.searchFrom stack input env k := by
    rw [whole.tries_searchFrom, free.tries_searchFrom, Matcher.waysFrom_segmentExact_last]
  refine ⟨?_, by rw [hsearch]⟩
  have hrecorded := congrArg (fun x => (Stateful.ending x (state, [])).2.2) (hsearch k.recorded)
  simp only [Stateful.ending_map] at hrecorded
  exact hrecorded

end Motif
