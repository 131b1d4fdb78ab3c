import Motif.Proofs.Paths
import Mathlib

/-!
# First mismatches

A pattern of constants, variables and arrays can match in one way at most. Whether it does is found
by walking pattern and datum together, and a match fails where the walk ends: the report names the
lists on the way to the first mismatch, with the positions in them, and what is wrong there. What
comes after it is never looked at.
-/

namespace Motif

open Failure (Entry)

section

variable {H : Predicates}

/-! ### Walking pattern and datum together -/

/-- What is wrong where a pattern and a datum differ. -/
inductive Difference where
  /-- The list ends where there should be an item for an element of this kind. -/
  | ended (kind : MatcherKind)
  /-- An item is not equal to the value of a constant. -/
  | unequal (item value : Value)
  /-- An item is not allowed by the restriction of a variable. -/
  | refused (item : Value)
  /-- An item is not equal to what a variable is bound to. -/
  | conflict (item bound : Value)
  /-- An item is no list, and an array stands in its place. -/
  | noList (item : Value)
  /-- There are more items than elements. -/
  | leftover

/-- Where a pattern and a datum first differ: the positions in the lists on the way, from the
outside in, and what is wrong at the last of them. -/
structure Mismatch where
  path : List Nat
  difference : Difference

/-- A mismatch in the list that is at position `n` of another one. -/
def Mismatch.inside (n : Nat) (mismatch : Mismatch) : Mismatch :=
  { mismatch with path := n :: mismatch.path }

mutual

/-- Walks a matcher and an item, if there is one, up to the first mismatch. The environment keeps
what is bound on the way. Matchers of other kinds are passed over. -/
def Matcher.walk [Predicates] : Matcher → Option Value → Environment → Except Mismatch Environment
  | .constant value, item?, env =>
    match item? with
    | none => .error ⟨[], .ended .constant⟩
    | some item => if item.equal value then .ok env else .error ⟨[], .unequal item value⟩
  | .element name only, item?, env =>
    match item? with
    | none => .error ⟨[], .ended .element⟩
    | some item =>
      if !allowed only item then .error ⟨[], .refused item⟩
      else
        match env.get? name with
        | none => .ok (env.extend name item)
        | some bound =>
          if bound.equal item then .ok env else .error ⟨[], .conflict item bound⟩
  | .array elements, item?, env =>
    match item? with
    | none => .error ⟨[], .ended .array⟩
    | some (.seq _ items) => walkAll elements 0 items env
    | some item => .error ⟨[], .noList item⟩
  | _, _, env => .ok env

/-- Walks elements and the items from position `n` of a list on. -/
def walkAll [Predicates] : List Matcher → (n : Nat) → List Value → Environment →
    Except Mismatch Environment
  | [], n, items, env => if items.isEmpty then .ok env else .error ⟨[n], .leftover⟩
  | element :: elements, n, items, env =>
    match element.walk items.head? env with
    | .ok env' => walkAll elements (n + 1) items.tail env'
    | .error mismatch => .error (mismatch.inside n)

end

/-! ### Reports of mismatches -/

namespace Difference

/-- The entry that tells what is wrong. Items that are left over need none. -/
def entry? : Difference → Option Entry
  | .ended kind => some ⟨kind, .unexpectedEnd, .list [], 0, false⟩
  | .unequal item value => some ⟨.constant, .unexpectedValue, .tuple [item, value], 0, false⟩
  | .refused item => some ⟨.element, .restrictionNotSatisfied, item, 0, false⟩
  | .conflict item bound => some ⟨.element, .bindingConflict, .tuple [item, bound], 0, false⟩
  | .noList item => some ⟨.array, .unexpectedValue, item, 0, false⟩
  | .leftover => none

/-- The report of a difference at the end of a path into a value: one entry of an array for each
list on the path, with the position in it, and then what is wrong at the last position. -/
def chain (difference : Difference) : Value → List Nat → List Entry
  | _, [] => difference.entry?.toList
  | v, n :: path =>
    ⟨.array, .unexpectedInput, v, n, true⟩ ::
      match path with
      | [] => (difference.entry?.map fun e => { e with offset := n, located := true }).toList
      | _ :: _ => difference.chain ((v.at? [n]).getD .null) path

lemma counts_of_entry? {difference : Difference} {e : Entry} (h : difference.entry? = some e) :
    e.offset = 0 ∧ e.located = false := by
  cases difference with
  | leftover => cases h
  | _ =>
    cases h
    exact ⟨rfl, rfl⟩

end Difference

/-- The report of a mismatch in a value. -/
def Mismatch.chain (mismatch : Mismatch) (v : Value) : List Entry :=
  mismatch.difference.chain v mismatch.path

/-- An array reports the mismatch of an element at the position of the element. -/
lemma chain_inArray {whole : Input} (hwhole : whole.TupleFree) {offset : Nat} {f : Failure}
    {mismatch : Mismatch} (h : f.chain = mismatch.chain ((whole.toValue.at? [offset]).getD .null)) :
    (f.inArray whole offset).chain = (mismatch.inside offset).chain whole.toValue := by
  obtain ⟨path, difference⟩ := mismatch
  rw [Failure.inArray, hwhole.speaksOf_eq_false, if_neg Bool.false_ne_true,
    Failure.chain_causedBy]
  cases path with
  | nil =>
    -- what is wrong has not been placed yet
    have hentry : f.chain = difference.entry?.toList := h
    cases he : difference.entry? with
    | none =>
      rw [he] at hentry
      cases hentry
    | some e =>
      rw [he] at hentry
      obtain ⟨rfl, hcauses⟩ : f.top = e ∧ f.causes = [] := List.cons.inj hentry
      obtain ⟨hoffset, hlocated⟩ := Difference.counts_of_entry? he
      simp [Mismatch.chain, Mismatch.inside, Difference.chain, he, Failure.chain,
        Failure.relocate, hlocated, hoffset, hcauses]
  | cons n path =>
    have hlocated : f.top.located = true := by
      rw [(List.cons.inj h).1]
    rw [hlocated, if_pos rfl, Failure.relocate_of_located hlocated, h]
    rfl

/-! ### Searches that can go one way only -/

section

variable {m : Type → Type} [Monad m] {κ : Type}

/-- A search ends as a walk does: it hands on the environment that the walk ends with, and nothing
else, or fails by itself with the report of the mismatch in `v`. -/
def Settles (walked : Except Mismatch Environment) (v : Value) (next : Environment → m κ)
    (x : m (Verdict κ)) : Prop :=
  match walked with
  | .ok env => x = .passed <$> next env
  | .error mismatch => ∃ f, x = pure (.own f) ∧ f.chain = mismatch.chain v

lemma settles_own {mismatch : Mismatch} {v : Value} {next : Environment → m κ} {f : Failure}
    (h : f.chain = mismatch.chain v) :
    Settles (.error mismatch) v next (pure (.own f)) := ⟨f, rfl, h⟩

variable [Answer κ]

lemma settles_constant (value : Value) (input : Input) (hinput : input.TupleFree)
    (env : Environment) (k : Continuation m κ) :
    Settles ((Matcher.constant value).walk input.items.head? env) (input.items.head?.getD .null)
      (k · 1) (searchConstant value input env k) := by
  obtain ⟨shape, items⟩ := input
  obtain rfl : shape = .list := hinput.shape
  cases items with
  | nil => exact settles_own rfl
  | cons item items =>
    simp only [Matcher.walk, List.head?_cons, searchConstant]
    split
    · exact rfl
    · exact settles_own rfl

lemma settles_element (name : Text) (only : Option Restriction) (input : Input)
    (hinput : input.TupleFree) (env : Environment) (k : Continuation m κ) :
    Settles ((Matcher.element name only).walk input.items.head? env)
      (input.items.head?.getD .null) (k · 1) (searchElement name only input env k) := by
  obtain ⟨shape, items⟩ := input
  obtain rfl : shape = .list := hinput.shape
  cases items with
  | nil => exact settles_own rfl
  | cons item items =>
    simp only [Matcher.walk, List.head?_cons, searchElement]
    split
    · exact settles_own rfl
    · cases env.get? name with
      | none => exact rfl
      | some bound =>
        dsimp only
        split
        · exact rfl
        · exact settles_own rfl

variable [MonadExceptOf Interrupt m] {call : Text → Searcher m}

variable (call) in
/-- The contents of an array's list are searched as they are walked. -/
def SettleAll [Predicates] (elements : List Matcher) : Prop :=
  ∀ {κ : Type} [Answer κ] (whole : Input) (offset : Nat) (env : Environment)
    (k : Environment → m κ), whole.TupleFree →
    Settles (walkAll elements offset (whole.items.drop offset) env) whole.toValue k
      (Landing.settle whole <$>
        searchElements call elements whole offset (whole.drop offset) env k)

lemma settles_array {elements : List Matcher} (h : SettleAll call elements) (input : Input)
    (hinput : input.TupleFree) (env : Environment) (k : Continuation m κ) :
    Settles ((Matcher.array elements).walk input.items.head? env) (input.items.head?.getD .null)
      (k · 1) ((Matcher.array elements).search call input env k) := by
  obtain ⟨shape, items⟩ := input
  obtain rfl : shape = .list := hinput.shape
  match items with
  | .seq shape inner :: others =>
    rw [Matcher.search_array_seq]
    exact h ⟨shape, inner⟩ 0 env (k · 1) (hinput.inside List.mem_cons_self)
  | [] | .null :: _ | .bool _ :: _ | .int _ :: _ | .float _ :: _ | .str _ :: _ | .dict _ :: _
  | .rest :: _ | .form _ :: _ | .matcher _ :: _ => exact settles_own rfl

variable [LawfulMonad m]

lemma settleAll_nil : SettleAll call [] := by
  intro κ _ whole offset env k hwhole
  rw [walkAll, searchElements, Input.drop]
  by_cases hempty : (whole.items.drop offset).isEmpty = true
  · rw [if_pos hempty, if_pos hempty, Functor.map_map]
    rfl
  · rw [if_neg hempty, if_neg hempty, map_pure]
    exact settles_own rfl

lemma settleAll_cons {element : Matcher} {elements : List Matcher}
    (helement : ∀ {κ : Type} [Answer κ] (input : Input) (env : Environment) (k : Continuation m κ),
      input.TupleFree → Settles (element.walk input.items.head? env)
        (input.items.head?.getD .null) (k · 1) (element.search call input env k))
    (helements : SettleAll call elements) : SettleAll call (element :: elements) := by
  intro κ _ whole offset env k hwhole
  let next : Continuation m (Landing κ) := fun env' n =>
    searchElements call elements whole (offset + n) ((whole.drop offset).drop n) env' k
  have hsearch : Settles (element.walk (whole.items.drop offset).head? env)
      ((whole.items.drop offset).head?.getD .null) (next · 1)
      (element.search call (whole.drop offset) env next) :=
    helement (whole.drop offset) env next (hwhole.drop offset)
  have hhead : (whole.items.drop offset).head?.getD .null =
      (whole.toValue.at? [offset]).getD .null := by
    rw [List.head?_drop]
    cases h : whole.items[offset]? <;> simp [Value.at?, Input.toValue, Value.items?, h]
  rw [searchElements_cons]
  change Settles _ _ _ (Landing.settle whole <$> Landing.ofElement offset <$>
    element.search call (whole.drop offset) env next)
  rw [walkAll]
  cases hwalk : element.walk (whole.items.drop offset).head? env with
  | ok env' =>
    rw [hwalk] at hsearch
    have hpassed : element.search call (whole.drop offset) env next = .passed <$> next env' 1 :=
      hsearch
    have hdrop : (whole.drop offset).drop 1 = whole.drop (offset + 1) := by
      simp only [Input.drop, List.drop_drop]
    have hothers := helements whole (offset + 1) env' k hwhole
    rw [← List.tail_drop, ← hdrop] at hothers
    rw [hpassed, Functor.map_map, Functor.map_map]
    exact hothers
  | error mismatch =>
    rw [hwalk, hhead] at hsearch
    obtain ⟨f, hf, hchain⟩ := hsearch
    rw [hf, map_pure, map_pure, Landing.ofElement, settle_placed]
    exact settles_own (chain_inArray hwhole hchain)

end

/-- The kinds of matchers that take one item each, in one way only. -/
def MatcherKind.itemwise : List MatcherKind := [.constant, .element, .array]

section

variable {m : Type → Type} [Monad m] [MonadExceptOf Interrupt m]
  {call : Text → Searcher m}

mutual

/-- A matcher of constants, variables and arrays is searched as it is walked. -/
theorem Matcher.settles [LawfulMonad m] : (matcher : Matcher) →
    matcher.builtFrom MatcherKind.itemwise = true →
    ∀ {κ : Type} [Answer κ] (input : Input) (env : Environment) (k : Continuation m κ),
      input.TupleFree → Settles (matcher.walk input.items.head? env)
        (input.items.head?.getD .null) (k · 1) (matcher.search call input env k)
  | .constant value, _ => fun input env k hinput => settles_constant value input hinput env k
  | .element name only, _ => fun input env k hinput =>
    settles_element name only input hinput env k
  | .array elements, hbuilt => fun input env k hinput => by
    simp only [Matcher.builtFrom, Bool.and_eq_true] at hbuilt
    exact settles_array (settleAll elements hbuilt.2) input hinput env k
  | .segment .., hbuilt | .segmentExact .., hbuilt | .rest, hbuilt | .reference _, hbuilt
  | .abstract _, hbuilt => by cases hbuilt
  | .choice _, hbuilt => by simp [Matcher.builtFrom, MatcherKind.itemwise] at hbuilt
  | .letrec .., hbuilt => by simp [Matcher.builtFrom, MatcherKind.itemwise] at hbuilt

theorem settleAll [LawfulMonad m] : (elements : List Matcher) →
    allBuiltFrom MatcherKind.itemwise elements = true → SettleAll call elements
  | [], _ => settleAll_nil
  | element :: elements, hbuilt => by
    simp only [allBuiltFrom, Bool.and_eq_true] at hbuilt
    exact settleAll_cons (Matcher.settles element hbuilt.1) (settleAll elements hbuilt.2)

end

end

/-! ### What comes after a mismatch -/

/-- A value without all that comes after the end of a path into it. -/
def Value.upTo : List Nat → Value → Value
  | n :: path, .seq shape items =>
    .seq shape (items.take n ++ (items[n]?.map (Value.upTo path)).toList)
  | _, v => v

/-- A matcher without all that comes after the end of a path into it. -/
def Matcher.upTo : List Nat → Matcher → Matcher
  | n :: path, .array elements =>
    .array (elements.take n ++ (elements[n]?.map (Matcher.upTo path)).toList)
  | _, matcher => matcher

/-- The matcher at a path of positions in a matcher. -/
def Matcher.at? : Matcher → List Nat → Option Matcher
  | matcher, [] => some matcher
  | .array elements, n :: path => do
    let element ← elements[n]?
    element.at? path
  | _, _ :: _ => none

section

variable {matcher : Matcher} {elements : List Matcher} {items : List Value} {item? : Option Value}
  {env : Environment} {n : Nat} {path : List Nat} {difference : Difference}

/-- A walk through a list ends where items are left over, or in the walk of an element. -/
lemma walkAll_error {mismatch : Mismatch} (h : walkAll elements n items env = .error mismatch) :
    mismatch = ⟨[n + elements.length], .leftover⟩ ∨
      ∃ (i : Nat) (element : Matcher) (env' : Environment) (inner : Mismatch),
        elements[i]? = some element ∧ element.walk items[i]? env' = .error inner ∧
          mismatch = inner.inside (n + i) := by
  induction elements generalizing n items env with
  | nil =>
    rw [walkAll] at h
    split at h
    · cases h
    · cases h
      exact .inl rfl
  | cons element elements ih =>
    rw [walkAll] at h
    cases hwalk : element.walk items.head? env with
    | ok env' =>
      rw [hwalk] at h
      have hnext (i : Nat) : n + 1 + i = n + (i + 1) := by omega
      rcases ih h with rfl | ⟨i, other, env'', inner, hother, hinner, rfl⟩
      · exact .inl (by rw [hnext, List.length_cons])
      · rw [List.getElem?_tail] at hinner
        exact .inr ⟨i + 1, other, env'', inner, hother, hinner, by rw [hnext]⟩
    | error inner =>
      rw [hwalk] at h
      cases h
      rw [List.head?_eq_getElem?] at hwalk
      exact .inr ⟨0, element, env, inner, rfl, hwalk, rfl⟩

/-- A walk from a position on comes to no mismatch before it. -/
lemma le_of_walkAll {k : Nat} (h : walkAll elements n items env = .error ⟨k :: path, difference⟩) :
    n ≤ k := by
  rcases walkAll_error h with heq | ⟨i, _, _, inner, -, -, heq⟩
  · obtain ⟨rfl, -⟩ := List.cons.inj (congrArg Mismatch.path heq)
    exact Nat.le_add_right _ _
  · obtain ⟨rfl, -⟩ := List.cons.inj (congrArg Mismatch.path heq)
    exact Nat.le_add_right _ _

/-- A mismatch at the first position is one of the first element. -/
lemma walkAll_cons_here {element : Matcher} :
    walkAll (element :: elements) n items env = .error ⟨n :: path, difference⟩ ↔
      element.walk items.head? env = .error ⟨path, difference⟩ := by
  rw [walkAll]
  cases element.walk items.head? env with
  | ok env' =>
    refine iff_of_false (fun h => ?_) nofun
    have := le_of_walkAll h
    omega
  | error inner =>
    obtain ⟨path', difference'⟩ := inner
    simp [Mismatch.inside]

/-- A mismatch at a later position comes after the first element has matched. -/
lemma walkAll_cons_later {element : Matcher} {i : Nat} :
    walkAll (element :: elements) n items env = .error ⟨(n + (i + 1)) :: path, difference⟩ ↔
      ∃ env', element.walk items.head? env = .ok env' ∧
        walkAll elements (n + 1) items.tail env' = .error ⟨(n + 1 + i) :: path, difference⟩ := by
  have hposition : n + (i + 1) = n + 1 + i := by omega
  rw [walkAll, hposition]
  cases element.walk items.head? env with
  | ok env' => simp
  | error inner =>
    refine iff_of_false (fun h => ?_) (by simp)
    have hpath : n :: inner.path = (n + 1 + i) :: path :=
      congrArg Mismatch.path (Except.error.inj h)
    have := (List.cons.inj hpath).1
    omega

/-- A mismatch is one of the item itself, unless an array has walked a list to it. -/
lemma walk_error {mismatch : Mismatch} (h : matcher.walk item? env = .error mismatch) :
    (mismatch.path = [] ∧ mismatch.difference ≠ .leftover) ∨
      ∃ elements shape items, matcher = .array elements ∧ item? = some (.seq shape items) ∧
        walkAll elements 0 items env = .error mismatch := by
  cases matcher with
  | array elements =>
    cases item? with
    | none =>
      cases h
      exact .inl ⟨rfl, nofun⟩
    | some item =>
      cases item with
      | seq shape items => exact .inr ⟨elements, shape, items, rfl, rfl, h⟩
      | _ =>
        cases h
        exact .inl ⟨rfl, nofun⟩
  | constant value =>
    cases item? with
    | none =>
      cases h
      exact .inl ⟨rfl, nofun⟩
    | some item =>
      simp only [Matcher.walk] at h
      split at h
      · cases h
      · cases h
        exact .inl ⟨rfl, nofun⟩
  | element name only =>
    cases item? with
    | none =>
      cases h
      exact .inl ⟨rfl, nofun⟩
    | some item =>
      simp only [Matcher.walk] at h
      repeat' split at h
      all_goals cases h
      all_goals exact .inl ⟨rfl, nofun⟩
  | _ => cases h

/-- A mismatch inside of a list can only be found by an array that walks it. -/
lemma exists_array_of_walk (h : matcher.walk item? env = .error ⟨n :: path, difference⟩) :
    ∃ elements shape items, matcher = .array elements ∧ item? = some (.seq shape items) ∧
      walkAll elements 0 items env = .error ⟨n :: path, difference⟩ := by
  rcases walk_error h with ⟨hpath, -⟩ | harray
  · cases hpath
  · exact harray

/-- Where items are left over, the position is the number of elements. -/
lemma exists_elements_of_leftover (h : matcher.walk item? env = .error ⟨path, .leftover⟩) :
    ∃ before inner, path = before ++ [inner.length] ∧ matcher.at? before = some (.array inner) := by
  induction path generalizing matcher item? env with
  | nil =>
    rcases walk_error h with ⟨-, hleftover⟩ | ⟨_, _, _, -, -, hwalk⟩
    · exact absurd rfl hleftover
    · rcases walkAll_error hwalk with heq | ⟨_, _, _, _, -, -, heq⟩ <;> cases heq
  | cons n path ih =>
    obtain ⟨elements, shape, items, rfl, -, hwalk⟩ := exists_array_of_walk h
    rcases walkAll_error hwalk with heq | ⟨i, element, env', ⟨path', _⟩, helement, hinner, heq⟩
    · cases heq
      exact ⟨[], elements, by simp, rfl⟩
    · cases heq
      obtain ⟨before, others, hpath, hat⟩ := ih hinner
      refine ⟨i :: before, others, ?_, ?_⟩
      · rw [hpath, Nat.zero_add, List.cons_append]
      · simpa [Matcher.at?, helement] using hat

lemma walkAll_upTo (i : Nat)
    (h : ∀ (matcher : Matcher) (item? : Option Value) (env : Environment),
      matcher.walk item? env = .error ⟨path, difference⟩ ↔
        (matcher.upTo path).walk (item?.map (Value.upTo path)) env = .error ⟨path, difference⟩) :
    walkAll elements n items env = .error ⟨(n + i) :: path, difference⟩ ↔
      walkAll (elements.take i ++ (elements[i]?.map (Matcher.upTo path)).toList) n
        (items.take i ++ (items[i]?.map (Value.upTo path)).toList) env =
          .error ⟨(n + i) :: path, difference⟩ := by
  -- on the number of elements before the mismatch, which both walks come through alike
  induction i generalizing elements n items env with
  | zero =>
    cases elements with
    | nil => cases items <;> exact Iff.rfl
    | cons element elements =>
      have hhead : (items[0]?.map (Value.upTo path)).toList.head? =
          items.head?.map (Value.upTo path) := by cases items <;> rfl
      simp only [List.take_zero, List.nil_append, List.getElem?_cons_zero, Option.map_some,
        Option.toList_some, Nat.add_zero, walkAll_cons_here, hhead]
      exact h element items.head? env
  | succ i ih =>
    cases elements with
    | nil =>
      have hnil (items' : List Value) :
          walkAll [] n items' env ≠ .error ⟨(n + (i + 1)) :: path, difference⟩ := by
        intro h
        rcases walkAll_error h with heq | ⟨_, _, _, _, helement, -, -⟩
        · have := (List.cons.inj (congrArg Mismatch.path heq)).1
          simp at this
        · cases helement
      exact iff_of_false (hnil _) (hnil _)
    | cons element elements =>
      have hhead : (items.take (i + 1) ++ (items[i + 1]?.map (Value.upTo path)).toList).head? =
          items.head? := by cases items <;> rfl
      have htail : (items.take (i + 1) ++ (items[i + 1]?.map (Value.upTo path)).toList).tail =
          items.tail.take i ++ (items.tail[i]?.map (Value.upTo path)).toList := by
        cases items <;> simp
      rw [List.take_succ_cons, List.getElem?_cons_succ, List.cons_append, walkAll_cons_later,
        walkAll_cons_later, hhead, htail]
      exact exists_congr fun env' => and_congr_right fun _ => ih

/-- What comes after a mismatch does not change the walk to it. -/
theorem Matcher.walk_upTo (path : List Nat) (matcher : Matcher) (item? : Option Value)
    (env : Environment) :
    matcher.walk item? env = .error ⟨path, difference⟩ ↔
      (matcher.upTo path).walk (item?.map (Value.upTo path)) env = .error ⟨path, difference⟩ := by
  induction path generalizing matcher item? env with
  | nil => cases item? <;> simp [Matcher.upTo, Value.upTo]
  | cons n path ih =>
    cases matcher with
    | array elements =>
      cases item? with
      | none => exact Iff.rfl
      | some item =>
        cases item with
        | seq shape items =>
          have hall : walkAll elements 0 items env = .error ⟨(0 + n) :: path, difference⟩ ↔ _ :=
            walkAll_upTo n ih
          rwa [Nat.zero_add] at hall
        | _ => exact Iff.rfl
    | _ =>
      refine iff_of_false (fun h => ?_) (fun h => ?_)
      all_goals
        obtain ⟨_, _, _, hmatcher, -⟩ := exists_array_of_walk h
        cases hmatcher

end

/-! ### Reports of failed matches -/

section

variable {limits : Limits} {elements : List Matcher} {datum : Value} {f : Failure}

variable (limits) in
/-- A match of an array of constants, variables and arrays comes to what the walk comes to. -/
lemma outcome_eq_walk [Predicates] (helements : allBuiltFrom MatcherKind.itemwise elements = true)
    (hdatum : ∀ items, ¬ (Value.tuple items).Within [datum]) :
    match (Matcher.array elements).walk (some datum) (.empty limits.maxDepth) with
    | .ok env => (Matcher.array elements).outcome limits datum = .ok (.success ⟨env, 1⟩)
    | .error mismatch => ∃ f, (Matcher.array elements).outcome limits datum = .ok (.failure f) ∧
        f.chain = mismatch.chain datum := by
  have hsettles : Settles ((Matcher.array elements).walk (some datum) (.empty limits.maxDepth))
      datum (Success.keep · 1)
      ((Matcher.array elements).start (m := Except Interrupt) limits datum Success.keep) :=
    Matcher.settles (.array elements) helements (.single datum) (.empty limits.maxDepth)
      Success.keep ⟨rfl, hdatum⟩
  cases hwalk : (Matcher.array elements).walk (some datum) (.empty limits.maxDepth) with
  | ok env =>
    rw [hwalk] at hsettles
    exact Matcher.outcome_of_start hsettles
  | error mismatch =>
    rw [hwalk] at hsettles
    obtain ⟨f, hf, hchain⟩ := hsettles
    exact ⟨f, Matcher.outcome_of_start hf, hchain⟩

/-- A failed match of an array of constants, variables and arrays reports the first mismatch: the
lists on the way to it, each with the position in it, and what is wrong at the last position. If it
is that items are left over, there are as many items before them as the array has elements. A datum
that is no list has a report of its own. Patterns and data that are the same up to the mismatch are
reported in the same way, whatever comes after it. -/
theorem Matcher.chain_of_first_mismatch
    (helements : allBuiltFrom MatcherKind.itemwise elements = true)
    (hdatum : ∀ items, ¬ (Value.tuple items).Within [datum])
    (h : (Matcher.array elements).outcome limits datum = .ok (.failure f)) :
    ∃ mismatch : Mismatch,
      (Matcher.array elements).walk (some datum) (.empty limits.maxDepth) = .error mismatch ∧
      f.chain = mismatch.chain datum ∧
      (mismatch.difference = .leftover → ∃ before inner,
        mismatch.path = before ++ [inner.length] ∧
          (Matcher.array elements).at? before = some (.array inner)) ∧
      (datum.items? = none → f.chain = [⟨.array, .unexpectedValue, datum, 0, false⟩]) ∧
      ∀ (elements' : List Matcher) (datum' : Value),
        allBuiltFrom MatcherKind.itemwise elements' = true →
        (∀ items, ¬ (Value.tuple items).Within [datum']) →
        (Matcher.array elements').upTo mismatch.path =
          (Matcher.array elements).upTo mismatch.path →
        datum'.upTo mismatch.path = datum.upTo mismatch.path →
        ∃ f', (Matcher.array elements').outcome limits datum' = .ok (.failure f') ∧
          f'.chain = mismatch.chain datum' := by
  have hwalked := outcome_eq_walk limits helements hdatum
  cases hwalk : (Matcher.array elements).walk (some datum) (.empty limits.maxDepth) with
  | ok env =>
    rw [hwalk] at hwalked
    rw [h] at hwalked
    cases hwalked
  | error mismatch =>
    rw [hwalk] at hwalked
    obtain ⟨f', hf', hchain⟩ := hwalked
    rw [h] at hf'
    cases hf'
    refine ⟨mismatch, rfl, hchain, ?_, ?_, ?_⟩
    · intro hleftover
      obtain ⟨path, difference⟩ := mismatch
      cases hleftover
      exact exists_elements_of_leftover hwalk
    · intro hitems
      rw [hchain]
      cases datum with
      | seq shape items => cases hitems
      | _ =>
        cases hwalk
        rfl
    · intro elements' datum' helements' hdatum' hsame hsame'
      obtain ⟨path, difference⟩ := mismatch
      have hwalk' : (Matcher.array elements').walk (some datum') (.empty limits.maxDepth) =
          .error ⟨path, difference⟩ := by
        rw [Matcher.walk_upTo, Option.map_some, hsame, hsame', ← Option.map_some,
          ← Matcher.walk_upTo]
        exact hwalk
      have hwalked' := outcome_eq_walk limits helements' hdatum'
      rwa [hwalk'] at hwalked'

end

end

/-- A variable meets another item in a list inside of the list in which it was bound. -/
theorem Matcher.chain_of_first_mismatch_conflict :
    let name : Text := [.char 'x']
    let elements := [Matcher.element name none, .array [.element name none, .constant (.int 2)]]
    let inner : Value := .list [.int 3]
    let datum : Value := .list [.int 1, inner, .int 9]
    let top : Entry := ⟨.array, .unexpectedInput, datum, 1, true⟩
    let causes : List Entry := [⟨.array, .unexpectedInput, inner, 0, true⟩,
      ⟨.element, .bindingConflict, .tuple [.int 3, .int 1], 0, true⟩]
    allBuiltFrom MatcherKind.itemwise elements = true ∧
      (∀ items, ¬ (Value.tuple items).Within [datum]) ∧
      (Matcher.array elements).outcome {} datum = .ok (.failure ⟨top, causes⟩) ∧
      ∃ mismatch : Mismatch, mismatch.path = [1, 0] ∧
        mismatch.difference = .conflict (.int 3) (.int 1) ∧
        mismatch.chain datum = top :: causes := by
  intro name elements inner datum top causes
  have hdatum (items : List Value) : ¬ (Value.tuple items).Within [datum] := by
    simp [datum, inner, Value.within_cons_iff]
  have houtcome : (Matcher.array elements).outcome {} datum = .ok (.failure ⟨top, causes⟩) := by
    dsimp only [elements, name, datum, inner, top, causes]
    cbv
  obtain ⟨mismatch, hwalk, hchain, -⟩ := Matcher.chain_of_first_mismatch rfl hdatum houtcome
  have hwalked : (Matcher.array elements).walk (some datum) (.empty ({} : Limits).maxDepth) =
      .error ⟨[1, 0], .conflict (.int 3) (.int 1)⟩ := by
    dsimp only [elements, name, datum, inner]
    cbv
  rw [hwalked] at hwalk
  cases hwalk
  exact ⟨rfl, hdatum, houtcome, _, rfl, rfl, hchain.symm⟩

end Motif
