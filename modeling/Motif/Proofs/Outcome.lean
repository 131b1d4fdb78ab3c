import Motif.Proofs.DepthFirst

/-!
# The outcome is the first way

Matching a datum keeps the first of the ways in which its matcher can match it. Where nothing
interrupts a matcher, the datum matches if and only if there is a way at all.
-/

namespace Motif

variable {H : Predicates}

/-! ### Matchers of some kinds -/

mutual

/-- Whether a matcher and all matchers in it are of some kinds. -/
def Matcher.builtFrom (kinds : List MatcherKind) : Matcher → Bool
  | .array elements => kinds.contains .array && allBuiltFrom kinds elements
  | .choice alternatives => kinds.contains .choice && allBuiltFrom kinds alternatives
  | .letrec rules body =>
    kinds.contains .letrec && rulesBuiltFrom kinds rules && body.builtFrom kinds
  | matcher => matcher.kind?.any kinds.contains

/-- As `Matcher.builtFrom`, for matchers. -/
def allBuiltFrom (kinds : List MatcherKind) : List Matcher → Bool
  | [] => true
  | matcher :: matchers => matcher.builtFrom kinds && allBuiltFrom kinds matchers

/-- As `Matcher.builtFrom`, for the matchers of rules. -/
def rulesBuiltFrom (kinds : List MatcherKind) : List (Value × Matcher) → Bool
  | [] => true
  | (_, matcher) :: rules => matcher.builtFrom kinds && rulesBuiltFrom kinds rules

end

/-! ### Ways without interrupts -/

section Call

variable {call : Text → List Value → Environment → List Way} {kinds : List MatcherKind}

mutual

/-- A matcher without references, all of whose parts have a search of their own, is not
interrupted. -/
theorem Matcher.not_error_mem_ways (hkinds : .reference ∉ kinds) : (matcher : Matcher) →
    matcher.builtFrom kinds = true →
    {items : List Value} → {env : Environment} → {interrupt : Interrupt} →
    .error interrupt ∉ matcher.ways call items env
  | .constant _, _, _, _, _ => by simp [Matcher.ways]
  | .element .., _, _, _, _ => by simp [Matcher.ways]
  | .segment .., _, _, _, _ => by simp [Matcher.ways]
  | .segmentExact .., _, _, _, _ => by simp [Matcher.ways]
  | .rest, _, _, _, _ => by simp [Matcher.ways]
  | .array elements, hbuilt, items, env, interrupt => by
    simp only [Matcher.builtFrom, Bool.and_eq_true] at hbuilt
    intro hway
    unfold Matcher.ways at hway
    split at hway
    · obtain ⟨interrupt' | _, hway, heq⟩ := List.mem_map.mp hway
      · exact not_error_mem_sequenceWays hkinds elements hbuilt.2 hway
      · cases heq
    · simp at hway
  | .choice alternatives, hbuilt, items, env, interrupt => by
    simp only [Matcher.builtFrom, Bool.and_eq_true] at hbuilt
    exact not_error_mem_alternativeWays hkinds alternatives hbuilt.2
  | .reference name, hbuilt, items, env, interrupt => by
    simp [Matcher.builtFrom, Matcher.kind?, hkinds] at hbuilt
  | .letrec rules body, hbuilt, items, env, interrupt => by
    simp only [Matcher.builtFrom, Bool.and_eq_true] at hbuilt
    intro hway
    obtain ⟨interrupt' | _, hway, heq⟩ := List.mem_map.mp hway
    · exact Matcher.not_error_mem_ways hkinds body hbuilt.2 hway
    · cases heq
  | .abstract _, hbuilt, _, _, _ => by simp [Matcher.builtFrom, Matcher.kind?] at hbuilt

theorem not_error_mem_sequenceWays (hkinds : .reference ∉ kinds) : (elements : List Matcher) →
    allBuiltFrom kinds elements = true → {items : List Value} → {env : Environment} →
    {interrupt : Interrupt} → .error interrupt ∉ sequenceWays call elements items env
  | [], _, items, env, interrupt => by
    simp only [sequenceWays]
    split <;> simp
  | element :: elements, hbuilt, items, env, interrupt => by
    simp only [allBuiltFrom, Bool.and_eq_true] at hbuilt
    intro hway
    obtain ⟨interrupt' | ⟨env', n⟩, hfirst, hrest⟩ := List.mem_flatMap.mp hway
    · exact Matcher.not_error_mem_ways hkinds element hbuilt.1 hfirst
    · exact not_error_mem_sequenceWays hkinds elements hbuilt.2 hrest

theorem not_error_mem_alternativeWays (hkinds : .reference ∉ kinds) :
    (alternatives : List Matcher) →
    allBuiltFrom kinds alternatives = true → {items : List Value} → {env : Environment} →
    {interrupt : Interrupt} → .error interrupt ∉ alternativeWays call alternatives items env
  | [], _, _, _, _ => by simp [alternativeWays]
  | alternative :: alternatives, hbuilt, items, env, interrupt => by
    simp only [allBuiltFrom, Bool.and_eq_true] at hbuilt
    intro hway
    rcases List.mem_append.mp hway with hway | hway
    · exact Matcher.not_error_mem_ways hkinds alternative hbuilt.1 hway
    · exact not_error_mem_alternativeWays hkinds alternatives hbuilt.2 hway

end

end Call

/-! ### The first way -/

/-- The ways in which a matcher can match one datum. -/
def Matcher.waysOf [Predicates] (limits : Limits) (matcher : Matcher) (datum : Value) : List Way :=
  matcher.waysFrom limits.stack [datum] (.empty limits.maxDepth)

section Outcome

variable (limits : Limits) (matcher : Matcher) (datum : Value)

lemma accepted?_start [Predicates] : Verdict.accepted? <$> matcher.start limits datum Success.keep =
    (matcher.waysOf limits datum).findSomeM? (m := Except Interrupt)
      (attempt fun way => pure (some ⟨way.1, way.2⟩)) :=
  Matcher.tries_searchFrom limits.stack matcher (.single datum) (.empty limits.maxDepth)
    Success.keep

variable {limits matcher datum}

lemma Matcher.outcome_of_start {v : Verdict Success}
    (h : matcher.start limits datum Success.keep = (.ok v : Except Interrupt _)) :
    matcher.outcome limits datum = .ok (.ofVerdict v) := by
  simp only [Matcher.outcome, Matcher.run, h]
  rfl

lemma Matcher.outcome_of_nil (h : matcher.waysOf limits datum = []) :
    ∃ f, matcher.outcome limits datum = .ok (.failure f) := by
  have hstart := accepted?_start limits matcher datum
  rw [h] at hstart
  cases hv : matcher.start (m := Except Interrupt) limits datum Success.keep with
  | error interrupt => rw [hv] at hstart; cases hstart
  | ok v =>
    rw [hv] at hstart
    cases v with
    | own f => exact ⟨f, Matcher.outcome_of_start hv⟩
    | passed result => cases hstart

lemma Matcher.outcome_of_cons {env : Environment} {n : Nat} {others : List Way}
    (h : matcher.waysOf limits datum = .ok (env, n) :: others) :
    matcher.outcome limits datum = .ok (.success ⟨env, n⟩) := by
  have hstart := accepted?_start limits matcher datum
  rw [h] at hstart
  cases hv : matcher.start (m := Except Interrupt) limits datum Success.keep with
  | error interrupt => rw [hv] at hstart; cases hstart
  | ok v =>
    rw [hv] at hstart
    cases v with
    | own f => cases hstart
    | passed result =>
      cases hstart
      exact Matcher.outcome_of_start hv

lemma Matcher.outcome_of_interrupt {interrupt : Interrupt}
    (h : matcher.start limits datum Success.keep = (.error interrupt : Except Interrupt _)) :
    matcher.outcome limits datum =
      match interrupt.failure? matcher datum with
      | some f => .ok (.failure f)
      | none => .error interrupt := by
  simp only [Matcher.outcome, Matcher.run, h]
  change Outcome.ofVerdict <$> (match interrupt.failure? matcher datum with
    | some f => pure (.own f)
    | none => throw interrupt : Except Interrupt _) = _
  cases interrupt.failure? matcher datum <;> rfl

/-- A match is interrupted by an interrupt that comes first, and by no other. -/
lemma Matcher.start_eq_error_iff {interrupt : Interrupt} :
    matcher.start limits datum Success.keep = (.error interrupt : Except Interrupt _) ↔
      ∃ others, matcher.waysOf limits datum = .error interrupt :: others := by
  have hstart := accepted?_start limits matcher datum
  constructor
  · intro h
    rw [h] at hstart
    cases hways : matcher.waysOf limits datum with
    | nil => rw [hways] at hstart; cases hstart
    | cons way others =>
      rw [hways] at hstart
      cases way with
      | ok way => cases hstart
      | error interrupt' =>
        rw [findSomeM?_error] at hstart
        cases hstart
        exact ⟨others, rfl⟩
  · rintro ⟨others, hways⟩
    rw [hways, findSomeM?_error] at hstart
    cases hv : matcher.start (m := Except Interrupt) limits datum Success.keep with
    | ok v => rw [hv] at hstart; cases hstart
    | error interrupt' =>
      rw [hv] at hstart
      cases hstart
      rfl

lemma Matcher.outcome_of_error {interrupt : Interrupt} {others : List Way}
    (h : matcher.waysOf limits datum = .error interrupt :: others) :
    matcher.outcome limits datum =
      match interrupt.failure? matcher datum with
      | some f => .ok (.failure f)
      | none => .error interrupt :=
  outcome_of_interrupt (start_eq_error_iff.mpr ⟨others, h⟩)

/-- A match that succeeds takes the first way. -/
lemma Matcher.exists_waysOf_eq_cons {result : Success}
    (h : matcher.outcome limits datum = .ok (.success result)) :
    ∃ env n others, matcher.waysOf limits datum = .ok (env, n) :: others := by
  cases hways : matcher.waysOf limits datum with
  | nil =>
    obtain ⟨f, hf⟩ := Matcher.outcome_of_nil hways
    rw [hf] at h
    cases h
  | cons way others =>
    cases way with
    | ok way => exact ⟨way.1, way.2, others, rfl⟩
    | error interrupt =>
      rw [Matcher.outcome_of_error hways] at h
      split at h <;> cases h

/-- What a match succeeds with is one of the ways. -/
lemma Matcher.mem_waysOf_of_outcome {result : Success}
    (h : matcher.outcome limits datum = .ok (.success result)) :
    .ok (result.environment, result.consumed) ∈ matcher.waysOf limits datum := by
  obtain ⟨env, n, others, hways⟩ := exists_waysOf_eq_cons h
  cases (outcome_of_cons hways).symm.trans h
  exact hways ▸ List.mem_cons_self

variable (limits matcher datum) in
/-- Without interrupts there is an outcome, which is a success if there is a way to match; the
success is such a way. -/
lemma Matcher.exists_outcome [Predicates]
    (h : ∀ interrupt, .error interrupt ∉ matcher.waysOf limits datum) :
    ∃ outcome, matcher.outcome limits datum = .ok outcome ∧
      (outcome.matched = true ↔ ∃ env n, .ok (env, n) ∈ matcher.waysOf limits datum) ∧
      ∀ result, outcome = .success result →
        .ok (result.environment, result.consumed) ∈ matcher.waysOf limits datum := by
  cases hways : matcher.waysOf limits datum with
  | nil =>
    obtain ⟨f, hf⟩ := Matcher.outcome_of_nil hways
    exact ⟨.failure f, hf, by simp [Outcome.matched], by simp⟩
  | cons way others =>
    cases way with
    | error interrupt => exact absurd (hways ▸ List.mem_cons_self) (h interrupt)
    | ok way =>
      obtain ⟨env, n⟩ := way
      refine ⟨.success ⟨env, n⟩, Matcher.outcome_of_cons hways, ?_, ?_⟩
      · simp only [Outcome.matched, true_iff]
        exact ⟨env, n, List.mem_cons_self⟩
      · rintro result ⟨⟩
        exact List.mem_cons_self

end Outcome

end Motif
