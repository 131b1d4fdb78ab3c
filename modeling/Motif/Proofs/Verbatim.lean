import Motif.Proofs.Instance
import Motif.Proofs.Notation

/-!
# Values that stand for themselves

Under `const` anything may stand and stands for itself. A list there still becomes an array of what
its items become, not a constant, and an array is searched quite differently: item by item, and what
is left over is an error. On data without tuples, and without anything that is not a number, the two
are nevertheless the same search: one item that equals the value is handed on in the environment as
it was, and on anything else the search fails by itself.
-/

namespace Motif

section

variable {H : Predicates}

mutual

/-- The matcher of a value that stands for itself: arrays for lists, constants for the rest. -/
def Value.verbatim : Value → Matcher
  | .seq _ items => .array (allVerbatim items)
  | v => .constant v

/-- As `Value.verbatim`, for items. -/
def allVerbatim : List Value → List Matcher
  | [] => []
  | v :: vs => v.verbatim :: allVerbatim vs

end

namespace Value

lemma compileItems_eq_allVerbatim {items : List Value}
    (h : ∀ item ∈ items, item.compile = .ok item.verbatim) :
    compileItems items = .ok (allVerbatim items) := by
  induction items with
  | nil => rw [compileItems, allVerbatim]
  | cons item items ih =>
    obtain ⟨hitem, hitems⟩ := List.forall_mem_cons.mp h
    rw [compileItems, hitem, ih hitems, allVerbatim]
    rfl

/-- What can be written in JSON compiles to what stands for itself. -/
lemma Decoded.compile_eq_verbatim {v : Value} (h : v.Decoded) : v.compile = .ok v.verbatim := by
  induction h with
  | @list items h ih =>
    rw [compile_list (Decoded.head?_ne_form h), compileItems_eq_allVerbatim ih, verbatim]
    rfl
  | _ => simp [compile, verbatim]

end Value

/-! ### Taking one item -/

section

variable {m : Type → Type} [Monad m]

/-- A search with a hit comes back with what it handed on, and one without fails by itself. -/
def Decides {κ : Type} (hit : Bool) (handed : m κ) (x : m (Verdict κ)) : Prop :=
  match hit with
  | true => x = .passed <$> handed
  | false => ∃ f, x = pure (.own f)

/-- On ordinary items a search takes one that equals `v`: if the first item does, it hands the
environment on as it is, with one item used; on any other input it fails by itself. -/
def Takes (v : Value) (search : Searcher m) : Prop :=
  ∀ {κ : Type} [Answer κ] (input : Input) (env : Environment) (k : Continuation m κ),
    (∀ item ∈ input.items, item.ordinary = true) →
      Decides (input.items.head?.any (·.equal v)) (k env 1) (search input env k)

lemma takes_searchConstant (v : Value) : Takes v (searchConstant (m := m) v) := by
  rintro κ _ ⟨shape, items⟩ env k -
  cases items with
  | nil => exact ⟨_, rfl⟩
  | cons item items =>
    rw [List.head?_cons, Option.any_some]
    cases h : item.equal v with
    | true => exact if_pos h
    | false => exact ⟨_, if_neg (ne_true_of_eq_false h)⟩

end

/-! ### Lists -/

/-- A list fails as a whole when an element fails. -/
lemma Landing.exists_settle_placed {κ : Type} (whole : Input) (f : Failure) (position : Int) :
    ∃ f', settle whole (.placed f position : Landing κ) = .own f' := by
  rw [settle]
  split <;> exact ⟨_, rfl⟩

/-- Ordinary data is equal to what it is alike to. -/
lemma Value.equal_eq_alike {v : Value} (h : v.ordinary = true) (w : Value) :
    v.equal w = v.alike w := by
  rw [Bool.eq_iff_iff]
  refine ⟨alike_of_equal, equal_of_alike ?_⟩
  rintro rfl
  cases h

lemma Value.alike_list_eq_false {v : Value} (ws : List Value)
    (h : ∀ shape vs, v ≠ .seq shape vs) : v.alike (.list ws) = false := by
  cases v with
  | seq shape vs => exact absurd rfl (h shape vs)
  | _ => simp [alike, quantity?]

section

variable {m : Type → Type} [Monad m] [LawfulMonad m] [MonadExceptOf Interrupt m]
  {call : Text → Searcher m}

/-- Elements that each take the item in their place use up the lists that are alike to it. -/
lemma decides_searchElements {vs : List Value}
    (h : ∀ v ∈ vs, Takes v (v.verbatim.search call)) {κ : Type} [Answer κ] (whole : Input)
    (offset : Nat) (shape : Shape) {items : List Value} (env : Environment)
    (k : Environment → m κ) (hitems : ∀ item ∈ items, item.ordinary = true) :
    Decides (alikeItems items vs) (k env) (Landing.settle whole <$>
      searchElements call (allVerbatim vs) whole offset ⟨shape, items⟩ env k) := by
  induction vs generalizing offset items with
  | nil =>
    rw [allVerbatim, searchElements]
    cases items with
    | nil => simp [Decides, alikeItems, Landing.settle]
    | cons item items =>
      have halike : alikeItems (item :: items) [] = false := by simp [alikeItems]
      rw [halike]
      exact ⟨_, map_pure ..⟩
  | cons v vs ih =>
    obtain ⟨hfirst, hothers⟩ := List.forall_mem_cons.mp h
    rw [allVerbatim, searchElements_cons]
    let next : Continuation m (Landing κ) := fun env' n =>
      searchElements call (allVerbatim vs) whole (offset + n) (Input.drop n ⟨shape, items⟩) env' k
    have htakes : Decides _ (next env 1) (v.verbatim.search call ⟨shape, items⟩ env next) :=
      hfirst ⟨shape, items⟩ env next hitems
    -- Without a hit the element's own failure is that of the list.
    have hmiss {x : m (Verdict (Landing κ))} (hx : ∃ f, x = pure (.own f)) :
        ∃ f, Landing.settle whole <$> Landing.ofElement offset <$> x = pure (.own f) := by
      obtain ⟨f, rfl⟩ := hx
      rw [map_pure, map_pure, Landing.ofElement]
      obtain ⟨f', hf'⟩ : ∃ f', Landing.settle whole (.placed _ _ : Landing κ) = .own f' :=
        Landing.exists_settle_placed whole (f.relocate offset) _
      exact ⟨f', congrArg pure hf'⟩
    cases items with
    | nil =>
      have halike : alikeItems [] (v :: vs) = false := by simp [alikeItems]
      rw [halike]
      exact hmiss htakes
    | cons item items =>
      obtain ⟨hitem, hitems'⟩ := List.forall_mem_cons.mp hitems
      rw [List.head?_cons, Option.any_some, Value.equal_eq_alike hitem] at htakes
      rw [alikeItems]
      cases halike : item.alike v with
      | true =>
        rw [halike] at htakes
        have hpassed : v.verbatim.search call ⟨shape, item :: items⟩ env next =
            .passed <$> next env 1 := htakes
        have hnext : (Landing.settle whole <$> Landing.ofElement offset <$>
            v.verbatim.search call ⟨shape, item :: items⟩ env next) =
              Landing.settle whole <$> next env 1 := by
          rw [hpassed, Functor.map_map, Functor.map_map]
          rfl
        rw [Bool.true_and, hnext]
        exact ih hothers (offset + 1) hitems'
      | false =>
        rw [halike] at htakes
        exact hmiss htakes

/-- A value that can be written in JSON is taken by its matcher. -/
lemma takes_verbatim {v : Value} (h : v.Decoded) : Takes v (v.verbatim.search call) := by
  induction h with
  | @list vs h ih =>
    rintro κ _ ⟨shape, items⟩ env k hitems
    rw [Value.verbatim]
    cases items with
    | nil => exact ⟨_, rfl⟩
    | cons item items =>
      have hitem := hitems item List.mem_cons_self
      rw [List.head?_cons, Option.any_some, Value.equal_eq_alike hitem]
      cases item with
      | seq shape' inner =>
        cases shape' with
        | tuple => cases hitem
        | list =>
          rw [Value.alike, beq_self_eq_true, Bool.true_and]
          exact decides_searchElements ih ⟨.list, inner⟩ 0 .list env (k · 1)
            (allOrdinary_iff.mp hitem)
      | _ =>
        rw [Value.alike_list_eq_false vs (by simp)]
        exact ⟨_, rfl⟩
  | _ => exact takes_searchConstant _

end

/-! ### Under `const` -/

lemma Matcher.outcome_of_takes {v datum : Value} {matcher : Matcher} {limits : Limits}
    (h : Takes (m := Except Interrupt) v (matcher.searchFrom limits.stack))
    (hdatum : datum.ordinary = true) :
    if datum.equal v then
      matcher.outcome limits datum = .ok (.success ⟨.empty limits.maxDepth, 1⟩)
    else ∃ f, matcher.outcome limits datum = .ok (.failure f) := by
  have hstart : Decides (datum.equal v) (Success.keep (.empty limits.maxDepth) 1)
      (matcher.start (m := Except Interrupt) limits datum Success.keep) :=
    h (.single datum) (.empty limits.maxDepth) Success.keep (by simpa [Input.single] using hdatum)
  cases hequal : datum.equal v with
  | true =>
    rw [hequal] at hstart
    exact outcome_of_start hstart
  | false =>
    rw [hequal] at hstart
    obtain ⟨f, hf⟩ := hstart
    exact ⟨f, outcome_of_start hf⟩

/-- The notation takes what stands under `const` as it is. -/
lemma Notation.translate_const (v : Value) :
    translate (.dict (Value.named [("const", v)])) = .ok v := by
  rw [translate_dict]
  rfl

/-- Under `const` a value that can be written in JSON means what equals it: on ordinary data its
matcher and the constant are searched alike, and a datum matches if and only if it equals the value.
Nothing is bound then. -/
theorem Matcher.matched_const_iff_equal {v : Value} (h : v.Decoded) :
    ∃ matcher, (Notation.translate (.dict (Value.named [("const", v)])) = .ok v ∧
        v.compile = .ok matcher) ∧
      (∀ {m : Type → Type} [Monad m] [LawfulMonad m] [MonadExceptOf Interrupt m]
        (stack : Option Nat), Takes (m := m) v (matcher.searchFrom stack) ∧
          Takes (m := m) v ((Matcher.constant v).searchFrom stack)) ∧
      ∀ (limits : Limits) (datum : Value), datum.ordinary = true →
        if datum.equal v then
          matcher.outcome limits datum = .ok (.success ⟨.empty limits.maxDepth, 1⟩)
        else ∃ f, matcher.outcome limits datum = .ok (.failure f) := by
  refine ⟨v.verbatim, ⟨Notation.translate_const v, h.compile_eq_verbatim⟩, ?_, ?_⟩
  · intro m _ _ _ stack
    exact ⟨fun input env k hitems => takes_verbatim h input env k hitems,
      fun input env k hitems => takes_searchConstant v input env k hitems⟩
  · intro limits datum hdatum
    exact outcome_of_takes (fun input env k hitems => takes_verbatim h input env k hitems) hdatum

end

/-- A list under `const` that looks like notation, holds filler and numbers of several types. -/
theorem Matcher.matched_const_iff_equal_notation :
    let v := Value.list [.str "...", .dict (Value.named [("var", .str "x")]), .list [.int 1]]
    let datum :=
      Value.list [.str "...", .dict (Value.named [("var", .str "x")]), .list [.bool true]]
    v.Decoded ∧ datum.ordinary = true ∧ ∃ matcher, v.compile = .ok matcher ∧
      matcher.outcome {} datum = .ok (.success ⟨.empty 50, 1⟩) := by
  intro v datum
  have hnamed : (Value.dict (Value.named [("var", .str "x")])).Decoded :=
    .object (by simp) (by simpa using .str)
  have hinner : (Value.list [.int 1]).Decoded := .list (by simpa using .int)
  have hdecoded : v.Decoded := .list (by simpa using ⟨.str, hnamed, hinner⟩)
  have hordinary : datum.ordinary = true := rfl
  have hequal : datum.equal v = true := by
    dsimp only [v, datum]
    cbv
  obtain ⟨matcher, ⟨-, hcompile⟩, -, houtcome⟩ := Matcher.matched_const_iff_equal hdecoded
  have hmatched := houtcome {} datum hordinary
  rw [if_pos hequal] at hmatched
  exact ⟨hdecoded, hordinary, matcher, hcompile, hmatched⟩

end Motif
