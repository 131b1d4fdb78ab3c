import Motif.Proofs.Interrupts
import Motif.Proofs.Trace
import Mathlib

/-!
# Searches end

A reference runs a rule that may refer to any rule again, without having used an item, and the depth
goes down whenever the search leaves a rule. What makes an end of it is that a rule is run inside of
a rule only up to the ceiling: as many unrollings of the rules as there is room for references are
all that a search ever comes to. The calls that it makes are then bounded by its ways.
-/

namespace Motif

section

variable {H : Predicates}

/-! ### Unrolling references -/

section Unrolled

variable {m : Type → Type} [Monad m] [MonadExceptOf Interrupt m]

/-- What a reference does, where the references in its rule do as `call` says. -/
def followReference [Predicates] (stack : Option Nat) (call : Text → Searcher m) (name : Text) :
    Searcher m :=
  fun input env k =>
    match env.matcher? name with
    | none => pure (.own (.report .reference .referenceNotFound (.str name) 0 none))
    | some target =>
      if env.exhausted then pure (.own (.report .reference .depthExceeded (.str name) 0 none))
      else if stack.any fun limit => (limit : Int) ≤ env.depth then throw .stackExhausted
      else target.search call input env.descend fun env' n => k (env'.atDepth env.depth) n

/-- References that are unrolled `n` times and then do as `base` says. -/
def unrolled [Predicates] (stack : Option Nat) (base : Text → Searcher m) :
    (n : Nat) → Text → Searcher m
  | 0 => base
  | n + 1 => followReference stack (unrolled stack base n)

end Unrolled

namespace Mirror

variable {σ τ : Type} {m : Type → Type} [Monad m] [LawfulMonad m] [MonadExceptOf Interrupt m]
  {M : Mirror σ m τ} {depth : Int}

/-- References that are unrolled more often than there is room for go in step. -/
lemma follows_unrolled [Predicates] (stack : Option Nat) (base : Text → Searcher m)
    (hsame : M.low = M.high) {room n : Nat} (hroom : room = (M.low - depth).toNat) (hn : room < n)
    (scope : Scope) (name : Text) :
    M.Follows depth (watchedCall stack room scope name) (unrolled stack base n name) := by
  induction room generalizing depth n scope name with
  | zero =>
    intro κ _ input env k k' hdepth hcap hk
    obtain ⟨n, rfl⟩ : ∃ j, n = j + 1 := ⟨n - 1, by omega⟩
    simp only [watchedCall, unrolled, followReference, Environment.matcher?_capped]
    cases h : env.matcher? name with
    | none => exact shows_pure (M := M) _
    | some target =>
      have hexhausted : (env.capped M.high).exhausted = true :=
        decide_eq_true (by rw [Environment.capped_maxDepth, Environment.capped_depth]; omega)
      simp only [hexhausted, if_true]
      exact shows_ceiling fun _ => rfl
  | succ room ih =>
    intro κ _ input env k k' hdepth hcap hk
    obtain ⟨n, rfl⟩ : ∃ j, n = j + 1 := ⟨n - 1, by omega⟩
    simp only [watchedCall, unrolled, followReference, Environment.matcher?_capped]
    cases h : env.matcher? name with
    | none => exact shows_pure (M := M) _
    | some target =>
      have hbelow : env.depth < M.low := by omega
      have hlow : env.exhausted = false := Environment.exhausted_of_lt (hcap ▸ hbelow)
      have hhigh : (env.capped M.high).exhausted = false :=
        Environment.exhausted_of_lt (hsame ▸ hbelow)
      have hcalls (scope : Scope) (name : Text) : M.Follows (depth + 1)
          (watchedCall stack room scope name) (unrolled stack base n name) :=
        ih (by omega) (by omega) scope name
      simp only [hlow, hhigh, Bool.false_eq_true, if_false]
      exact shows_opened stack name (follows_watched hcalls target scope) input hdepth hcap hbelow
        hk

end Mirror

section

variable {σ κ : Type} [Answer κ] (stack : Option Nat) (matcher : Matcher) (input : Input)
  (env : Environment) (k : Continuation (Stateful σ) κ) (state : σ)

/-- Unrolled more often than there is room for references, a search does not come to the end of the
unrolling. -/
lemma Matcher.ending_unrolled (base : Text → Searcher (Stateful σ)) {n : Nat} (hn : env.room < n) :
    Stateful.ending (matcher.search (unrolled stack base n) input env k) state =
      Stateful.ending (matcher.searchFrom stack input env k) state := by
  have hcalls := Mirror.follows_unrolled (M := Mirror.stateful (Int.le_refl env.maxDepth) σ)
    stack base rfl rfl hn
  have hshows : Mirror.Shows _ env.depth env.depth (matcher.watchedFrom stack input env k.watched)
      (matcher.search (unrolled stack base n) input env k) :=
    Mirror.follows_watched hcalls matcher [] input env k.watched k rfl rfl
      (Mirror.continues_self k env.maxDepth)
  obtain ⟨-, hread⟩ := hshows.ending state
  rw [Matcher.ending_watchedFrom] at hread
  exact hread (.inl rfl) []

lemma Matcher.length_calls_le :
    (matcher.calls stack input env k state).length ≤
      (matcher.waysFrom stack input.items env).length :=
  Nat.le_trans (matcher.calls_prefix stack input env k state).length_le
    (List.length_filterMap_le _ _)

/-- Matching ends under every ceiling. Rules that are unrolled more often than there is room for
references never come to the end of their unrolling; the calls of the continuation are at most as
many as the ways of the matcher; and if the continuation always answers, the search does too, or it
is cut off at a limit of the stack. All the while the depth is the number of references that are
open, and a reference only runs its rule below the ceiling. So no matcher is run deeper than the
ceiling, if the search did not begin there. -/
theorem Matcher.search_ends :
    (∀ (base : Text → Searcher (Stateful σ)) (n : Nat), env.room < n →
      Stateful.ending (matcher.search (unrolled stack base n) input env k) state =
        Stateful.ending (matcher.searchFrom stack input env k) state) ∧
      (matcher.calls stack input env k state).length ≤
        (matcher.waysFrom stack input.items env).length ∧
      (matcher.builtFrom MatcherKind.all = true → Concrete input.items env → k.Answers →
        (∃ verdict state',
          Stateful.ending (matcher.searchFrom stack input env k) state = (.ok verdict, state')) ∨
          ∃ limit state', stack = some limit ∧
            Stateful.ending (matcher.searchFrom stack input env k) state =
              (.error .stackExhausted, state')) ∧
      matcher.watchedFrom stack input env k.watched state =
        ((Stateful.ending (matcher.searchFrom stack input env k) state).1,
          (Stateful.ending (matcher.searchFrom stack input env k) state).2,
          matcher.trace stack input env k state) ∧
      (∀ before after visit,
        matcher.trace stack input env k state = before ++ .called visit :: after →
          visit.env.depth - env.depth = openReferences before ∧
            visit.env.depth ≤ max env.depth env.maxDepth) ∧
      ∀ name env', .opened name env' ∈ matcher.trace stack input env k state →
        env'.depth < env.maxDepth := by
  have hfit := matcher.fit_trace stack input env k state
  refine ⟨fun base n hn => matcher.ending_unrolled stack input env k state base hn,
    matcher.length_calls_le stack input env k state, ?_,
    matcher.ending_watchedFrom stack input env k state, ?_, ?_⟩
  · intro hbuilt hconcrete hk
    exact Matcher.ending_or_cut_off hbuilt hconcrete hk state
  · intro before after visit htrace
    rw [htrace] at hfit
    have hdepth : visit.env.depth = env.depth + openReferences before := hfit.fits
    have hle := hfit.openReferences_le
    exact ⟨by omega, hdepth ▸ hle⟩
  · intro name env' hmem
    obtain ⟨before, after, htrace⟩ := List.append_of_mem hmem
    rw [htrace] at hfit
    exact hfit.fits.2

end

end

/-- A rule that may begin with a reference to itself, under a low ceiling and the usual stack. -/
theorem Matcher.search_ends_leftRecursive :
    let name : Text := [.char 'a']
    let rule := Matcher.choice [.reference name, .rest]
    let rules : List (Value × Matcher) := [(.str name, rule)]
    let body := Matcher.choice [.reference name]
    let matcher := Matcher.letrec rules body
    let env := Environment.empty 2
    let inside := (env.define [(name, rule)]).descend
    let refuse : Continuation (Stateful Unit) (Verdict Success) := fun _ _ => pure (.own default)
    let stack := Limits.stack {}
    let events := matcher.trace stack (.single (.int 7)) env refuse ()
    Stateful.ending
        (matcher.search (unrolled stack (callRule stack 0) 3) (.single (.int 7)) env refuse) () =
      Stateful.ending (matcher.searchFrom stack (.single (.int 7)) env refuse) () ∧
      ((∃ verdict state',
        Stateful.ending (matcher.searchFrom stack (.single (.int 7)) env refuse) () =
          (.ok verdict, state')) ∨
        ∃ limit state', stack = some limit ∧
          Stateful.ending (matcher.searchFrom stack (.single (.int 7)) env refuse) () =
            (.error .stackExhausted, state')) ∧
      inside.depth - env.depth = openReferences (events.take 4) ∧ inside.depth < 2 := by
  intro name rule rules body matcher env inside refuse stack events
  obtain ⟨hunrolled, -, hends, -, hdepth, hbelow⟩ :=
    Matcher.search_ends stack matcher (.single (.int 7)) env refuse ()
  have hconcrete : Concrete [.int 7] env := by
    refine ⟨fun m hm => ?_, fun name m hm => nomatch hm⟩
    cases hm with
    | item h => simp at h
    | inside h _ => simp at h
  have hcalled : events = events.take 4 ++
      .called ⟨rule, [.int 7], inside, [(rules, body)]⟩ :: events.drop 5 := by
    dsimp only [events, stack, inside, matcher, refuse, env, rules, body, rule, name]
    cbv
  have hopened : events[6]? = some (.opened name inside) := by
    dsimp only [events, stack, inside, matcher, refuse, env, rules, body, rule, name]
    cbv
  exact ⟨hunrolled (callRule stack 0) 3 (by decide),
    hends rfl hconcrete fun _ _ _ => ⟨_, _, rfl⟩,
    (hdepth _ _ _ hcalled).1, hbelow name inside (List.mem_of_getElem? hopened)⟩

/-- Left recursion fills the usual stack before it meets a ceiling above it, and is cut off. A rule
that is run for the last reference which a ceiling allows is run at the ceiling. -/
theorem Matcher.search_cut_off_leftRecursive :
    let name : Text := [.char 'e']
    let rule := Matcher.choice [.reference name, .constant (.str [.char 'n'])]
    let matcher := Matcher.letrec [(.str name, rule)] (.reference name)
    let input : Input := .single (.str [.char 'n'])
    let keep : Continuation (Stateful Unit) Success := Success.keep
    matcher.builtFrom MatcherKind.all = true ∧ keep.Answers ∧
      Concrete input.items (.empty 1000000000) ∧
      Stateful.ending
          (matcher.searchFrom (Limits.stack {}) input (.empty 1000000000) keep) () =
        (.error .stackExhausted, ()) ∧
      ∃ visit, .called visit ∈ matcher.trace (Limits.stack {}) input (.empty 1) keep () ∧
        visit.matcher = rule ∧ visit.env.depth = visit.env.maxDepth := by
  intro name rule matcher input keep
  refine ⟨rfl, fun _ _ _ => ⟨_, _, rfl⟩, ?_, ?_, ?_⟩
  · refine ⟨fun m hm => ?_, fun name m hm => nomatch hm⟩
    cases hm with
    | item h => simp [input, Input.single] at h
    | inside h _ => simp [input, Input.single] at h
  · obtain ⟨others, hothers⟩ := Matcher.exists_waysFrom_letrec_cut_off (fun _ => name) 1000
      input.items [(.str name, rule)] (fun _ _ => ⟨_, rfl⟩)
      (show (1000 : Int) < 1000000000 by decide)
    exact Matcher.ending_of_error hothers keep ()
  · let env := ((Environment.empty 1).define [(name, rule)]).descend
    refine ⟨⟨rule, input.items, env, [([(.str name, rule)], .reference name)]⟩, ?_, rfl, rfl⟩
    refine List.mem_of_getElem? (i := 3) ?_
    dsimp only [env, matcher, input, keep, rule, name]
    cbv

end Motif
