import Motif.Failure.Ledger
import Motif.Proofs.Calls
import Motif.Proofs.Ranking
import Mathlib

/-!
# The best failure so far

A search may weigh each failure against the best one so far or keep all of them and choose in the
end. Both give the same record: the first of those whose key is highest, the key being the three
parts of a rank in lexicographic order.
-/

namespace Motif

section

variable {H : Predicates}

/-! ### First maxima -/

section

variable {α β γ : Type} [LinearOrder γ] {key : β → γ}

/-- For the first maximum of two lists, the first list may be weighed on its own before. -/
lemma argmax_append_left (key : β → γ) (l₁ l₂ : List β) :
    (l₁ ++ l₂).argmax key = ((l₁.argmax key).toList ++ l₂).argmax key := by
  induction l₂ using List.reverseRecOn with
  | nil => cases h : l₁.argmax key <;> simp [h]
  | append_singleton l₂ b ih =>
    rw [← List.append_assoc, List.argmax_concat, ih, ← List.append_assoc, List.argmax_concat]

/-- For the first maximum of two lists, the second list may be weighed on its own before. -/
lemma argmax_append_right (key : β → γ) (l₁ l₂ : List β) :
    (l₁ ++ l₂).argmax key = (l₁ ++ (l₂.argmax key).toList).argmax key := by
  induction l₁ with
  | nil => cases h : l₂.argmax key <;> simp [h]
  | cons b l₁ ih => rw [List.cons_append, List.argmax_cons, ih, List.cons_append, List.argmax_cons]

lemma argmax_map (key : β → γ) (g : α → β) (as : List α) :
    (as.map g).argmax key = (as.argmax fun a => key (g a)).map g := by
  induction as with
  | nil => rfl
  | cons a as ih =>
    rw [List.map_cons, List.argmax_cons, List.argmax_cons, ih]
    cases as.argmax fun a => key (g a) with
    | none => rfl
    | some b =>
      dsimp only [Option.map_some]
      split <;> rfl

/-- Of those that have a value, the one with the first maximum is above those before it, and those
after it are no higher. -/
lemma argmax_filterMap_eq_some_iff {value? : α → Option β} {as : List α} {b : β} :
    (as.filterMap value?).argmax key = some b ↔
      ∃ before a after, as = before ++ a :: after ∧ value? a = some b ∧
        (∀ x ∈ before, ∀ c ∈ value? x, key c < key b) ∧
        ∀ x ∈ after, ∀ c ∈ value? x, key c ≤ key b := by
  constructor
  · intro h
    induction as with
    | nil => cases h
    | cons a as ih =>
      cases ha : value? a with
      | none =>
        rw [List.filterMap_cons_none ha] at h
        obtain ⟨before, a', after, rfl, hb, hbefore, hafter⟩ := ih h
        refine ⟨a :: before, a', after, rfl, hb, List.forall_mem_cons.mpr ⟨?_, hbefore⟩, hafter⟩
        simp [ha]
      | some b' =>
        rw [List.filterMap_cons_some ha, List.argmax_cons] at h
        cases hmax : (as.filterMap value?).argmax key with
        | none =>
          rw [hmax] at h
          cases h
          refine ⟨[], a, as, rfl, ha, nofun, fun x hx c hc => ?_⟩
          rw [List.argmax_eq_none, List.filterMap_eq_nil_iff] at hmax
          rw [hmax x hx] at hc
          cases hc
        | some c =>
          rw [hmax] at h
          dsimp only at h
          split at h
          · rename_i hlt
            cases h
            obtain ⟨before, a', after, rfl, hb, hbefore, hafter⟩ := ih hmax
            refine ⟨a :: before, a', after, rfl, hb, List.forall_mem_cons.mpr ⟨?_, hbefore⟩,
              hafter⟩
            simpa [ha] using hlt
          · rename_i hlt
            cases h
            refine ⟨[], a, as, rfl, ha, nofun, fun x hx d hd => ?_⟩
            exact (List.le_of_mem_argmax (List.mem_filterMap.mpr ⟨x, hx, hd⟩) hmax).trans
              (not_lt.mp hlt)
  · rintro ⟨before, a, after, rfl, ha, hbefore, hafter⟩
    have hrest : (b :: after.filterMap value?).argmax key = some b := by
      rw [List.argmax_cons]
      cases hmax : (after.filterMap value?).argmax key with
      | none => rfl
      | some c =>
        obtain ⟨x, hx, hc⟩ := List.mem_filterMap.mp (List.argmax_mem hmax)
        exact if_neg (not_lt.mpr (hafter x hx c hc))
    rw [List.filterMap_append, List.filterMap_cons_some ha, argmax_append_right, hrest,
      Option.toList_some, List.argmax_concat]
    cases hmax : (before.filterMap value?).argmax key with
    | none => rfl
    | some c =>
      obtain ⟨x, hx, hc⟩ := List.mem_filterMap.mp (List.argmax_mem hmax)
      exact if_pos (hbefore x hx c hc)

end

namespace Failure

/-! ### Keys of failures -/

/-- Whether the root is informative, the length of the chain, and the offset of the root, in
lexicographic order. -/
def key (f : Failure) : Bool ×ₗ ℕ ×ₗ ℤ :=
  toLex (f.root.reason.informative, toLex (f.chain.length, f.root.offset))

lemma rank_lt_rank_iff {f g : Failure} : f.rank < g.rank ↔ f.key < g.key := by
  rw [Rank.lt_iff, key, key, Prod.Lex.toLex_lt_toLex, Prod.Lex.toLex_lt_toLex, Bool.lt_iff]
  rfl

lemma best?_concat (candidates : List (Option Failure)) (candidate : Option Failure) :
    best? (candidates ++ [candidate]) = keepBetter (best? candidates) candidate := by
  rw [best?, List.foldl_concat]
  rfl

/-- What is kept of several failures is their first maximum. -/
lemma best?_eq_argmax (candidates : List (Option Failure)) :
    best? candidates = (candidates.filterMap id).argmax key := by
  induction candidates using List.reverseRecOn with
  | nil => rfl
  | append_singleton candidates candidate ih =>
    rw [best?_concat, ih, List.filterMap_append]
    cases candidate with
    | none => simp [keepBetter]
    | some f =>
      rw [show List.filterMap id [some f] = [f] from rfl, List.argmax_concat]
      cases (candidates.filterMap id).argmax key with
      | none => rfl
      | some best =>
        simp only [keepBetter, better, rank_lt_rank_iff]
        split <;> rfl

/-- One of several failures is kept, and it leads them. -/
lemma exists_leads {fs : List Failure} (h : fs ≠ []) :
    ∃ best, best? (fs.map some) = some best ∧ best.Leads fs := by
  have hbest : best? (fs.map some) = (fs.filterMap some).argmax key := by
    rw [best?_eq_argmax, List.filterMap_map, Function.id_comp]
  cases hmax : (fs.filterMap some).argmax key with
  | none => exact absurd (by simpa using hmax) h
  | some best =>
    obtain ⟨before, _, after, rfl, ⟨⟩, hbefore, hafter⟩ := argmax_filterMap_eq_some_iff.mp hmax
    refine ⟨best, hbest.trans hmax, before, after, rfl, fun f hf => ?_, fun f hf => ?_⟩
    · exact rank_lt_rank_iff.mpr (hbefore f hf f rfl)
    · rw [rank_lt_rank_iff]
      exact not_lt.mpr (hafter f hf f rfl)

/-! ### Best records -/

namespace Ledger

variable (ledger : Ledger)

/-- The first place of the record that a candidate stands for, and its failure. -/
def view? (candidate : Option Nat) : Option (Nat × Failure) := do
  let place ← candidate
  let f ← ledger.failure? place
  let number ← ledger.places[place]?
  return (ledger.firstPlace number, f)

/-- Views are ranked as their failures. -/
def viewKey (view : Nat × Failure) : Bool ×ₗ ℕ ×ₗ ℤ := view.2.key

variable {ledger}

lemma exists_number_of_failure? {place : Nat} {f : Failure} (h : ledger.failure? place = some f) :
    ∃ number, ledger.places[place]? = some number := by
  cases hnumber : ledger.places[place]? with
  | none => simp [failure?, numbers, hnumber] at h
  | some number => exact ⟨number, rfl⟩

lemma map_snd_view? (candidate : Option Nat) :
    (ledger.view? candidate).map Prod.snd = candidate.bind ledger.failure? := by
  cases candidate with
  | none => rfl
  | some place =>
    cases hf : ledger.failure? place with
    | none => simp [view?, hf]
    | some f =>
      obtain ⟨number, hnumber⟩ := exists_number_of_failure? hf
      simp [view?, hf, hnumber]

lemma forall_view?_iff (P : Bool ×ₗ ℕ ×ₗ ℤ → Prop) (candidate : Option Nat) :
    (∀ view ∈ ledger.view? candidate, P (viewKey view)) ↔
      ∀ f ∈ candidate.bind ledger.failure?, P f.key := by
  rw [← map_snd_view?]
  constructor
  · intro h f hf
    obtain ⟨view, hview, rfl⟩ := Option.mem_map.mp hf
    exact h view hview
  · exact fun h view hview => h _ (Option.mem_map_of_mem _ hview)

lemma view?_eq_some_iff {candidate : Option Nat} {p : Nat} {f : Failure} :
    ledger.view? candidate = some (p, f) ↔ ∃ place number, candidate = some place ∧
      ledger.failure? place = some f ∧ ledger.places[place]? = some number ∧
      p = ledger.firstPlace number := by
  simp only [view?, Option.bind_eq_bind, Option.bind_eq_some_iff, Option.pure_def,
    Option.some.injEq, Prod.mk.injEq]
  grind

/-- The first place of a record stands for the record. -/
lemma getElem?_firstPlace {place number : Nat} (h : ledger.places[place]? = some number) :
    ledger.places[ledger.firstPlace number]? = some number :=
  List.getElem?_idxOf (List.mem_of_getElem? h)

lemma failure?_congr {place place' : Nat} (h : ledger.places[place]? = ledger.places[place']?) :
    ledger.failure? place = ledger.failure? place' := by
  rw [failure?, numbers, h, ← numbers, ← failure?]

/-- The first place of a record is a view of the same record. -/
lemma view?_of_view? {candidate : Option Nat} {p : Nat} {f : Failure}
    (h : ledger.view? candidate = some (p, f)) : ledger.view? (some p) = some (p, f) := by
  obtain ⟨place, number, -, hf, hnumber, rfl⟩ := view?_eq_some_iff.mp h
  have hfirst := getElem?_firstPlace hnumber
  refine view?_eq_some_iff.mpr ⟨_, number, rfl, ?_, hfirst, rfl⟩
  rw [failure?_congr (hfirst.trans hnumber.symm), hf]

/-- What is kept of the failures of several candidates is the failure of a first maximum. -/
lemma best?_map_failure? (candidates : List (Option Nat)) :
    Failure.best? (candidates.map (·.bind ledger.failure?)) =
      ((candidates.filterMap ledger.view?).argmax viewKey).map Prod.snd := by
  have hviews : candidates.filterMap (·.bind ledger.failure?) =
      (candidates.filterMap ledger.view?).map Prod.snd := by
    rw [List.map_filterMap]
    exact List.filterMap_congr fun candidate _ => (map_snd_view? candidate).symm
  rw [Failure.best?_eq_argmax, List.filterMap_map, Function.id_comp, hviews, argmax_map]
  rfl

/-- What has been kept is a candidate with its rank, of which this is the view. -/
def Keeps (ledger : Ledger) (kept : Nat × Rank) (view : Nat × Failure) : Prop :=
  ledger.view? (some kept.1) = some view ∧ kept.2 = view.2.rank

/-- One more candidate is weighed as its view is. -/
lemma keeps_keepRecord {best : Option (Nat × Rank)} {views : List (Nat × Failure)}
    (h : Option.Rel ledger.Keeps best (views.argmax viewKey)) (candidate : Option Nat) :
    Option.Rel ledger.Keeps (ledger.keepRecord best candidate)
      ((views ++ (ledger.view? candidate).toList).argmax viewKey) := by
  cases candidate with
  | none => simpa [keepRecord, view?] using h
  | some place =>
    cases hf : ledger.failure? place with
    | none => simpa [keepRecord, view?, hf] using h
    | some f =>
      obtain ⟨number, hnumber⟩ := exists_number_of_failure? hf
      have hview : ledger.view? (some place) = some (ledger.firstPlace number, f) :=
        view?_eq_some_iff.mpr ⟨place, number, rfl, hf, hnumber, rfl⟩
      rw [hview, Option.toList_some, List.argmax_concat]
      generalize hmax : views.argmax viewKey = best' at h
      cases h with
      | none =>
        simp only [keepRecord, hf]
        exact .some ⟨hview, rfl⟩
      | @some kept view hkept =>
        obtain ⟨place', rank⟩ := kept
        obtain ⟨hview', rfl⟩ := hkept
        have hranks : view.2.rank < f.rank ↔
            viewKey view < viewKey (ledger.firstPlace number, f) := rank_lt_rank_iff
        simp only [keepRecord, hf, hranks]
        by_cases hlt : viewKey view < viewKey (ledger.firstPlace number, f)
        · rw [if_pos hlt, if_pos hlt]
          exact .some ⟨hview, rfl⟩
        · rw [if_neg hlt, if_neg hlt]
          exact .some ⟨hview', rfl⟩

/-- What has been kept in the end is the first maximum. -/
lemma keeps_foldl (ledger : Ledger) (candidates : List (Option Nat)) :
    Option.Rel ledger.Keeps (candidates.foldl ledger.keepRecord none)
      ((candidates.filterMap ledger.view?).argmax viewKey) := by
  induction candidates using List.reverseRecOn with
  | nil => exact .none
  | append_singleton candidates candidate ih =>
    have hlast : [candidate].filterMap ledger.view? = (ledger.view? candidate).toList := by
      cases hview : ledger.view? candidate <;> simp [hview]
    rw [List.foldl_concat, List.filterMap_append, hlast]
    exact keeps_keepRecord ih candidate

lemma best?_eq_argmax (candidates : List (Option Nat)) :
    ledger.best? candidates =
      ((candidates.filterMap ledger.view?).argmax viewKey).map Prod.fst := by
  have hkeeps := keeps_foldl ledger candidates
  rw [best?]
  generalize candidates.foldl ledger.keepRecord none = best at hkeeps
  generalize (candidates.filterMap ledger.view?).argmax viewKey = view at hkeeps
  cases hkeeps with
  | none => rfl
  | @some kept view hkept =>
    obtain ⟨place, rank⟩ := kept
    obtain ⟨p, f⟩ := view
    obtain ⟨_, number, ⟨⟩, -, hnumber, rfl⟩ := view?_eq_some_iff.mp hkept.1
    simp [hnumber]

/-- What is kept of several records is a view again. -/
lemma view?_best? (candidates : List (Option Nat)) :
    ledger.view? (ledger.best? candidates) =
      (candidates.filterMap ledger.view?).argmax viewKey := by
  rw [best?_eq_argmax]
  cases hmax : (candidates.filterMap ledger.view?).argmax viewKey with
  | none => rfl
  | some view =>
    obtain ⟨candidate, -, hview⟩ := List.mem_filterMap.mp (List.argmax_mem hmax)
    exact view?_of_view? hview

/-- The failure of the record that is kept is what is kept of the failures. -/
lemma failure?_best? (candidates : List (Option Nat)) :
    (ledger.best? candidates).bind ledger.failure? =
      Failure.best? (candidates.map (·.bind ledger.failure?)) := by
  rw [best?_map_failure?, ← view?_best?, map_snd_view?]

/-- What is kept of some records may be weighed against others instead of them. -/
lemma best?_append (xs ys : List (Option Nat)) :
    ledger.best? (xs ++ ys) = ledger.best? (ledger.best? xs :: ys) := by
  rw [best?_eq_argmax (xs ++ ys), best?_eq_argmax (ledger.best? xs :: ys), List.filterMap_append,
    argmax_append_left, ← view?_best?, ← List.singleton_append, List.filterMap_append]
  cases hview : ledger.view? (ledger.best? xs) <;> simp [hview]

lemma best?_append_right (xs ys : List (Option Nat)) :
    ledger.best? (xs ++ ys) = ledger.best? (xs ++ [ledger.best? ys]) := by
  rw [best?_eq_argmax (xs ++ ys), best?_eq_argmax (xs ++ [ledger.best? ys]), List.filterMap_append,
    argmax_append_right, ← view?_best?, List.filterMap_append]
  cases hview : ledger.view? (ledger.best? ys) <;> simp [hview]

/-- The best record so far, one candidate after the other. -/
lemma foldl_best? (candidates : List (Option Nat)) :
    candidates.foldl (fun best candidate => ledger.best? [best, candidate]) none =
      ledger.best? candidates := by
  induction candidates using List.reverseRecOn with
  | nil => rfl
  | append_singleton candidates candidate ih =>
    rw [List.foldl_concat, ih, best?_append]

/-- The record that is kept is the first one whose key is highest. -/
lemma best?_eq_some_iff {candidates : List (Option Nat)} {p : Nat} :
    ledger.best? candidates = some p ↔ ∃ before place number after f,
      candidates = before ++ some place :: after ∧ ledger.failure? place = some f ∧
        ledger.places[place]? = some number ∧ p = ledger.firstPlace number ∧
        (∀ x ∈ before, ∀ g ∈ x.bind ledger.failure?, g.key < f.key) ∧
        ∀ x ∈ after, ∀ g ∈ x.bind ledger.failure?, g.key ≤ f.key := by
  rw [best?_eq_argmax, Option.map_eq_some_iff]
  constructor
  · rintro ⟨⟨p, f⟩, hmax, rfl⟩
    obtain ⟨before, candidate, after, rfl, hview, hbefore, hafter⟩ :=
      argmax_filterMap_eq_some_iff.mp hmax
    obtain ⟨place, number, rfl, hf, hnumber, rfl⟩ := view?_eq_some_iff.mp hview
    exact ⟨before, place, number, after, f, rfl, hf, hnumber, rfl,
      fun x hx => (forall_view?_iff (· < f.key) x).mp (hbefore x hx),
      fun x hx => (forall_view?_iff (· ≤ f.key) x).mp (hafter x hx)⟩
  · rintro ⟨before, place, number, after, f, rfl, hf, hnumber, rfl, hbefore, hafter⟩
    refine ⟨(_, f), argmax_filterMap_eq_some_iff.mpr ⟨before, some place, after, rfl,
      view?_eq_some_iff.mpr ⟨place, number, rfl, hf, hnumber, rfl⟩, ?_, ?_⟩, rfl⟩
    · exact fun x hx => (forall_view?_iff (· < f.key) x).mpr (hbefore x hx)
    · exact fun x hx => (forall_view?_iff (· ≤ f.key) x).mpr (hafter x hx)

end Ledger

end Failure

/-! ### Calls that all fail -/

section

variable {α σ κ κ' : Type} [Answer κ] {k : α → Stateful σ κ} {as bs : List α} {fs : List Failure}
  {state state' : σ}

variable (k) in
/-- All calls fail, one after the other, each from the state in which the one before it ended. -/
inductive AllFail : List α → σ → List Failure → σ → Prop where
  | nil {state : σ} : AllFail [] state [] state
  | cons {a : α} {as : List α} {state state' state'' : σ} {x : κ} {f : Failure} {fs : List Failure}
    (hrun : (k a).ending state = (.ok x, state')) (hf : failure? x = some f)
    (h : AllFail as state' fs state'') : AllFail (a :: as) state (f :: fs) state''

lemma Failure.best?_cons (best : Option Failure) (candidates : List (Option Failure)) :
    best? (best :: candidates) = candidates.foldl keepBetter best := by
  rw [best?, List.foldl_cons]
  cases best <;> rfl

/-- After calls that have failed, the best of their failures has been kept. -/
lemma AllFail.ending_offer (h : AllFail k as state fs state') (best : Option Failure)
    (bs : List α) :
    (offer k (as ++ bs) best).ending state =
      (offer k bs (Failure.best? (best :: fs.map some))).ending state' := by
  induction h generalizing best with
  | nil =>
    rw [Failure.best?_cons]
    rfl
  | cons hrun hf _ ih =>
    rw [List.cons_append, offer, Stateful.ending_bind, hrun]
    dsimp only
    rw [hf]
    dsimp only
    rw [ih, Failure.best?_cons, Failure.best?_cons]
    rfl

/-- The first of several offers ends them or fails, and then its failure is weighed. -/
lemma ending_offer_cons {a : α} {best : Option Failure} {result : Except (Option Failure) κ}
    (h : (offer k (a :: as) best).ending state = (.ok result, state')) :
    ∃ x state'', (k a).ending state = (.ok x, state'') ∧
      ((failure? x = none ∧ result = .ok x) ∨ ∃ f, failure? x = some f ∧
        (offer k as (some (Failure.better best f))).ending state'' = (.ok result, state')) := by
  rw [offer, Stateful.ending_bind] at h
  rcases hrun : (k a).ending state with ⟨_ | x, state''⟩
  · rw [hrun] at h
    cases h
  · rw [hrun] at h
    dsimp only at h
    refine ⟨x, state'', rfl, ?_⟩
    cases hf : failure? x with
    | none =>
      rw [hf] at h
      cases h
      exact .inl ⟨rfl, rfl⟩
    | some f =>
      rw [hf] at h
      exact .inr ⟨f, rfl, h⟩

/-- Offers come to nothing exactly if all of them fail. -/
lemma ending_offer_eq_error_iff {best best' : Option Failure} :
    (offer k as best).ending state = (.ok (.error best'), state') ↔
      ∃ fs, AllFail k as state fs state' ∧ best' = Failure.best? (best :: fs.map some) := by
  constructor
  · intro h
    induction as generalizing best state with
    | nil =>
      cases h
      refine ⟨[], .nil, ?_⟩
      rw [Failure.best?_cons]
      rfl
    | cons a as ih =>
      obtain ⟨x, state'', hrun, ⟨-, hok⟩ | ⟨f, hf, h⟩⟩ := ending_offer_cons h
      · cases hok
      · obtain ⟨fs, hfs, rfl⟩ := ih h
        refine ⟨f :: fs, .cons hrun hf hfs, ?_⟩
        rw [Failure.best?_cons, Failure.best?_cons]
        rfl
  · rintro ⟨fs, hfs, rfl⟩
    have hoffer := hfs.ending_offer best []
    rwa [List.append_nil] at hoffer

/-- An answer that ends the offers is no failure. -/
lemma failure?_of_ending_offer {best : Option Failure} {x : κ}
    (h : (offer k as best).ending state = (.ok (.ok x), state')) : failure? x = none := by
  induction as generalizing best state with
  | nil => cases h
  | cons a as ih =>
    obtain ⟨y, state'', -, ⟨hy, heq⟩ | ⟨f, -, h⟩⟩ := ending_offer_cons h
    · cases heq
      exact hy
    · exact ih h

/-- A search whose own failures are those of the calls: it fails exactly if all calls fail, and what
it makes its report of is the best of their failures, in the order of the calls. -/
def KeepsBest (k : α → Stateful σ κ) (as : List α) (search : Stateful σ (Verdict κ'))
    (report : Option Failure → Failure) : Prop :=
  ∀ state state' f, search.ending state = (.ok (.own f), state') ↔
    ∃ fs, AllFail k as state fs state' ∧ f = report (Failure.best? (fs.map some))

/-- A search that makes offers and passes on the first success keeps the best failure. -/
lemma keepsBest_offer {settle : Except (Option Failure) κ → Stateful σ (Verdict κ')}
    {pass : κ → Verdict κ'} {report : Option Failure → Failure}
    (hpass : ∀ x, settle (.ok x) = pure (pass x))
    (hreport : ∀ best, settle (.error best) = pure (.own (report best)))
    (hfailure : ∀ x f, failure? x = none → pass x ≠ .own f) :
    KeepsBest k as (offer k as none >>= settle) report := by
  intro state state' f
  rw [Stateful.ending_bind]
  constructor
  · intro h
    rcases hoffer : (offer k as none).ending state with ⟨_ | _ | _, state''⟩
    · rw [hoffer] at h
      cases h
    · rw [hoffer] at h
      dsimp only at h
      rw [hreport] at h
      cases h
      obtain ⟨fs, hfs, rfl⟩ := ending_offer_eq_error_iff.mp hoffer
      exact ⟨fs, hfs, rfl⟩
    · rw [hoffer] at h
      dsimp only at h
      rw [hpass] at h
      have hown := Except.ok.inj (Prod.mk.inj h).1
      exact absurd hown (hfailure _ f (failure?_of_ending_offer hoffer))
  · rintro ⟨fs, hfs, rfl⟩
    rw [ending_offer_eq_error_iff.mpr ⟨fs, hfs, rfl⟩]
    dsimp only
    rw [hreport]
    rfl

/-! ### Segments, rests and choices -/

variable {call : Text → Searcher (Stateful σ)} {input : Input} {env : Environment}
  {next : Continuation (Stateful σ) κ}

omit [Answer κ] in
lemma passed_ne_own (x : κ) (f : Failure) : Verdict.passed x ≠ .own f := by
  intro h
  cases h

lemma keepsBest_searchSegment {name : Text} {only : Option Restriction} (hitems : input.items ≠ [])
    (hname : env.get? name = none) :
    KeepsBest (fun n => next (env.extend name (.list (input.items.take n))) n)
      (segmentLengths only input.items) (searchSegment name only input env next)
      (segmentStopped only input) := by
  obtain ⟨shape, _ | ⟨item, items⟩⟩ := input
  · exact absurd rfl hitems
  · simp only [searchSegment, hname]
    exact keepsBest_offer (fun _ => rfl) (fun _ => rfl) fun x f _ => passed_ne_own x f

lemma keepsBest_searchRest :
    KeepsBest (next env) (List.range (input.items.length + 1)) (searchRest input env next)
      (.report .rest .indexOutOfRange input.toValue input.items.length) :=
  keepsBest_offer (fun _ => rfl) (fun _ => rfl) fun x f _ => passed_ne_own x f

lemma searchAlternatives_eq_offer (alternatives : List Matcher) (best : Option Failure) :
    searchAlternatives call alternatives best input env next =
      offer (fun alternative : Matcher => alternative.search call input env next) alternatives best
        >>= fun
      | .ok verdict => pure verdict
      | .error best => pure (.own (.report .choice .noAlternative input.toValue 0 best)) := by
  induction alternatives generalizing best with
  | nil => rfl
  | cons alternative alternatives ih =>
    rw [searchAlternatives, offer, bind_assoc]
    refine bind_congr fun verdict => ?_
    cases hf : failure? verdict with
    | none => rfl
    | some f => exact ih _

lemma keepsBest_search_choice {alternatives : List Matcher} :
    KeepsBest (fun alternative : Matcher => alternative.search call input env next) alternatives
      ((Matcher.choice alternatives).search call input env next)
      (.report .choice .noAlternative input.toValue 0) := by
  have hpass (verdict : Verdict κ) (f : Failure) (h : failure? verdict = none) :
      verdict ≠ .own f := by
    rintro rfl
    cases h
  rw [Matcher.search_choice, searchAlternatives_eq_offer]
  exact keepsBest_offer (fun _ => rfl) (fun _ => rfl) hpass

/-- Weighing records one at a time comes to the same record as weighing all of them together, which
is the first one whose key is highest, given by the place that first stands for it. Its failure is
the best of their failures. So what an unbound segment and a rest report, with the best failure so
far kept from call to call, is made of the best failure of all calls in order, as is the report of a
choice on its alternatives. -/
theorem Failure.best?_one_by_one (ledger : Ledger) (name : Text) (only : Option Restriction)
    (alternatives : List Matcher) (call : Text → Searcher (Stateful σ)) (input : Input)
    (env : Environment) (next : Continuation (Stateful σ) κ) :
    (∀ xs ys, ledger.best? (xs ++ ys) = ledger.best? [ledger.best? xs, ledger.best? ys]) ∧
    (∀ candidates p, ledger.best? candidates = some p ↔ ∃ before place number after f,
      candidates = before ++ some place :: after ∧ ledger.failure? place = some f ∧
        ledger.places[place]? = some number ∧ p = ledger.firstPlace number ∧
        (∀ x ∈ before, ∀ g ∈ x.bind ledger.failure?, g.key < f.key) ∧
        ∀ x ∈ after, ∀ g ∈ x.bind ledger.failure?, g.key ≤ f.key) ∧
    (∀ candidates, candidates.foldl (fun best x => ledger.best? [best, x]) none =
      ledger.best? candidates) ∧
    (∀ candidates, (ledger.best? candidates).bind ledger.failure? =
      best? (candidates.map (·.bind ledger.failure?))) ∧
    (input.items ≠ [] → env.get? name = none →
      KeepsBest (fun n => next (env.extend name (.list (input.items.take n))) n)
        (segmentLengths only input.items) (searchSegment name only input env next)
        (segmentStopped only input)) ∧
    KeepsBest (next env) (List.range (input.items.length + 1)) (searchRest input env next)
      (.report .rest .indexOutOfRange input.toValue input.items.length) ∧
    KeepsBest (fun alternative : Matcher => alternative.search call input env next) alternatives
      ((Matcher.choice alternatives).search call input env next)
      (.report .choice .noAlternative input.toValue 0) := by
  refine ⟨fun xs ys => ?_, fun _ _ => Ledger.best?_eq_some_iff, Ledger.foldl_best?,
    Ledger.failure?_best?, keepsBest_searchSegment, keepsBest_searchRest, keepsBest_search_choice⟩
  rw [Ledger.best?_append, ← List.singleton_append, Ledger.best?_append_right]
  rfl

end

end

/-- Two records on a par, the first of which is kept in either way, and a segment whose first length
fails for a better reason than its second. -/
theorem Failure.best?_one_by_one_tie :
    let record (offset : Int) : Failure.Record :=
      ⟨⟨.constant, .unexpectedValue, .int 7, offset, false⟩, none⟩
    let ledger : Failure.Ledger := ⟨[record 0, record 2, record 2], [0, 1, 1, 2]⟩
    let name : Text := [.char 's']
    let input : Input := ⟨.list, [.int 4, .int 5]⟩
    let env := Environment.empty 1
    let first := report .constant .unexpectedValue (.int 5) 1 none
    let second := report .constant .unexpectedEnd (.list []) 2 none
    let next : Continuation (Stateful Nat) (Verdict Success) := fun _ n => do
      set n
      return .own (if n = 1 then first else second)
    ledger.best? [some 0, none, some 2] = some 1 ∧ ledger.best? [none, some 3] = some 3 ∧
      ledger.best? [some 0, none, some 2, none, some 3] = some 1 ∧
      input.items ≠ [] ∧ env.get? name = none ∧
      (searchSegment name none input env next).ending 0 =
        (.ok (.own (report .segment .indexOutOfRange input.toValue 2 (some first))), 2) := by
  intro record ledger name input env first second next
  have hledger : ledger.best? [some 0, none, some 2] = some 1 ∧
      ledger.best? [none, some 3] = some 3 ∧ ledger.best? [some 1, some 3] = some 1 := by
    dsimp only [ledger, record]
    decide
  have hitems : input.items ≠ [] := nofun
  have hname : env.get? name = none := rfl
  obtain ⟨happend, -, -, -, hsegment, -, -⟩ :=
    best?_one_by_one ledger name none [] (callRule none 1) input env next
  refine ⟨hledger.1, hledger.2.1, ?_, hitems, hname, ?_⟩
  · refine (happend [some 0, none, some 2] [none, some 3]).trans ?_
    rw [hledger.1, hledger.2.1, hledger.2.2]
  · exact (hsegment hitems hname 0 2 _).mpr
      ⟨[first, second], .cons rfl rfl (.cons rfl rfl .nil), rfl⟩

end Motif
