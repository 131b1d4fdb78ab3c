import Motif.Proofs.Origins
import Mathlib

/-!
# Why a match fails under a low ceiling

A match that fails under one ceiling and succeeds under a higher one has met the ceiling. Its
failure says so, unless the report of the ceiling was weighed against another failure and dropped.
-/

namespace Motif

open Failure (Entry)

section

variable {H : Predicates}

/-! ### Reasons of failures -/

namespace Failure

/-- The reasons that a failure gives, outermost first. -/
def reasons (f : Failure) : List Reason := f.chain.map Entry.reason

section

variable (f : Failure)

@[simp] lemma reasons_causedBy (entry : Entry) :
    (causedBy entry f).reasons = entry.reason :: f.reasons := rfl

/-- A failure keeps its reasons when it is placed. -/
@[simp] lemma reasons_relocate (offset : Int) : (f.relocate offset).reasons = f.reasons := by
  unfold relocate
  split <;> rfl

lemma reasons_subset_inArray (whole : Input) (offset : Nat) :
    f.reasons ⊆ (f.inArray whole offset).reasons := by
  unfold inArray
  split
  · rw [reasons_relocate]
    exact List.Subset.refl _
  · rw [reasons_causedBy, reasons_relocate]
    exact List.subset_cons_self _ _

end

end Failure

/-- Two failures are weighed, and the one that gives a reason is dropped for the one that does
not. -/
def Event.Drops (reason : Reason) : Event → Prop
  | .weighed best f =>
    (reason ∈ best.reasons ∧ reason ∉ f.reasons ∧ best.rank < f.rank) ∨
      (reason ∉ best.reasons ∧ reason ∈ f.reasons ∧ ¬ best.rank < f.rank)
  | _ => False

/-- A failure that gives a reason has been dropped for one that does not. -/
def Dropped (reason : Reason) (events : List Event) : Prop :=
  ∃ event ∈ events, event.Drops reason

lemma Dropped.mono {reason : Reason} {events events' : List Event} (h : Dropped reason events)
    (hsub : events ⊆ events') : Dropped reason events' := by
  obtain ⟨event, hevent, hdrops⟩ := h
  exact ⟨event, hsub hevent, hdrops⟩

/-- A reason is kept when two failures are weighed, or is dropped with the failure that gives it. -/
lemma Failure.mem_reasons_better {best f : Failure} {reason : Reason}
    (h : reason ∈ best.reasons ∨ reason ∈ f.reasons) :
    reason ∈ (better (some best) f).reasons ∨ Dropped reason [.weighed best f] := by
  by_cases hrank : best.rank < f.rank
  · rw [better, if_pos hrank]
    by_cases hf : reason ∈ f.reasons
    · exact .inl hf
    · exact .inr ⟨_, List.mem_cons_self, .inl ⟨h.resolve_right hf, hf, hrank⟩⟩
  · rw [better, if_neg hrank]
    by_cases hbest : reason ∈ best.reasons
    · exact .inl hbest
    · exact .inr ⟨_, List.mem_cons_self, .inr ⟨hbest, h.resolve_left hbest, hrank⟩⟩

/-! ### The report of the ceiling -/

lemma Matcher.GivesUp.reasons_subset {matcher : Matcher} {input : Input} {best f : Failure}
    (h : matcher.GivesUp input best f) : best.reasons ⊆ f.reasons := by
  induction h with
  | exact _ ih => exact ih
  | _ => exact List.subset_cons_self _ _

/-- Where a reference has met the ceiling, the failure says so, or a report of it has been
dropped. -/
theorem Arises.depthExceeded_mem_reasons {ran : Matcher → Prop} {lists : List Input}
    {origin : Origin} {f : Failure} {seen : List Event} (h : Arises ran lists origin f seen)
    {name : Text} {env : Environment} (hceiling : .ceiling name env ∈ seen) :
    .depthExceeded ∈ f.reasons ∨ Dropped .depthExceeded seen := by
  induction h with
  | complaint | leftover | fallsShort | leftoverLater => cases hceiling
  | ceiling => exact .inl List.mem_cons_self
  | gaveUp _ _ h ih => exact (ih hceiling).imp_left fun hmem => h.reasons_subset hmem
  | array _ _ ih =>
    exact (ih hceiling).imp_left fun hmem => Failure.reasons_subset_inArray _ _ _ hmem
  | later _ _ ih =>
    rw [Failure.reasons_relocate]
    exact ih hceiling
  | letrec _ ih | reference _ ih | alternative _ _ ih | answer _ ih | first _ ih | beyond _ ih =>
    exact ih hceiling
  | @better _ _ _ best f seen seen' _ _ ihbest ih =>
    have hattempts : (.depthExceeded ∈ best.reasons ∨ .depthExceeded ∈ f.reasons) ∨
        Dropped .depthExceeded (seen ++ seen') := by
      have hmem : Event.ceiling name env ∈ seen ∨ Event.ceiling name env ∈ seen' := by
        simpa using hceiling
      rcases hmem with hmem | hmem
      · exact (ihbest hmem).imp .inl fun hdropped => hdropped.mono (List.subset_append_left _ _)
      · exact (ih hmem).imp .inr fun hdropped => hdropped.mono (List.subset_append_right _ _)
    rcases hattempts with hreason | hdropped
    · exact (Failure.mem_reasons_better hreason).imp_right fun hdropped =>
        hdropped.mono (List.subset_append_right _ _)
    · exact .inr (hdropped.mono (List.subset_append_left _ _))

/-! ### Low and high ceilings -/

section

variable {low high : Int} {stack : Option Nat} {limits : Limits} {matcher : Matcher}
  {datum : Value} {f : Failure} {result : Success}

/-- If no reference meets the ceiling, what matches under a higher one matches under this. -/
lemma Matcher.exists_success_of_calm (hle : low ≤ high)
    (hcalm : Calm (matcher.traceOf ⟨low, stack⟩ datum))
    (h : matcher.outcome ⟨high, stack⟩ datum = .ok (.success result)) :
    ∃ result', matcher.outcome ⟨low, stack⟩ datum = .ok (.success result') := by
  -- accepts every way that it is handed, in the environment that the lower ceiling would give
  let keep : Continuation (Stateful Unit) Success := fun env n => pure ⟨env.capped low, n⟩
  have hkeep (env : Environment) (n : Nat) (hcap : env.maxDepth = low) :
      keep (env.capped high) n = Success.keep env n := by
    subst hcap
    rfl
  have hsame :
      (Stateful.ending (matcher.searchFrom stack (.single datum) (.empty high) keep) ()).1 =
        matcher.start ⟨low, stack⟩ datum Success.keep := by
    rw [Matcher.start_eq_ending]
    exact congrArg Prod.fst
      (Matcher.ending_capped_of_calm stack matcher (.single datum) () hle hkeep hcalm)
  obtain ⟨env, n, others, hways⟩ := Matcher.exists_waysOf_eq_cons h
  have htries := Matcher.tries_searchFrom stack matcher (.single datum) (.empty high) keep
  have hways' : matcher.waysFrom stack (Input.single datum).items (.empty high) =
      .ok (env, n) :: others := hways
  rw [hways'] at htries
  have haccepted := congrArg (fun x => (Stateful.ending x ()).1) htries
  dsimp only at haccepted
  rw [Stateful.ending_map, hsame] at haccepted
  cases hv : matcher.start (m := Except Interrupt) ⟨low, stack⟩ datum Success.keep with
  | error interrupt => rw [hv] at haccepted; cases haccepted
  | ok v =>
    rw [hv] at haccepted
    cases v with
    | own f => cases haccepted
    | passed result' => exact ⟨result', Matcher.outcome_of_start hv⟩

/-- A match that fails after a reference met the ceiling says so, or a report of it has been
dropped. -/
lemma Matcher.depthExceeded_mem_reasons (h : matcher.outcome limits datum = .ok (.failure f))
    {name : Text} {env : Environment}
    (hceiling : .ceiling name env ∈ matcher.traceOf limits datum) :
    .depthExceeded ∈ f.reasons ∨ Dropped .depthExceeded (matcher.traceOf limits datum) := by
  rcases Matcher.arises_of_outcome h with harises | ⟨-, kind, rfl⟩
  · have hnotable : .ceiling name env ∈ notable (matcher.traceOf limits datum) :=
      List.mem_filter.mpr ⟨hceiling, rfl⟩
    exact (harises.depthExceeded_mem_reasons hnotable).imp_right fun hdropped =>
      hdropped.mono List.filter_sublist.subset
  · exact .inl List.mem_cons_self

/-- A match that fails under a ceiling and succeeds under a higher one fails because a reference met
the ceiling. Its failure says so, unless on the way to it a failure that says so was weighed against
one that does not, and dropped because it ranks lower or comes later and does not rank higher. -/
theorem Matcher.failure_tells_ceiling (hle : low ≤ high)
    (hlow : matcher.outcome ⟨low, stack⟩ datum = .ok (.failure f))
    (hhigh : matcher.outcome ⟨high, stack⟩ datum = .ok (.success result)) :
    (∃ name env, .ceiling name env ∈ matcher.traceOf ⟨low, stack⟩ datum) ∧
      (.depthExceeded ∈ f.reasons ∨
        Dropped .depthExceeded (matcher.traceOf ⟨low, stack⟩ datum)) := by
  have hceiling : ∃ name env, .ceiling name env ∈ matcher.traceOf ⟨low, stack⟩ datum := by
    by_contra hnone
    push Not at hnone
    obtain ⟨result', hresult'⟩ := Matcher.exists_success_of_calm hle hnone hhigh
    rw [hlow] at hresult'
    cases hresult'
  refine ⟨hceiling, ?_⟩
  obtain ⟨name, env, hmem⟩ := hceiling
  exact Matcher.depthExceeded_mem_reasons hlow hmem

end

end

/-- The report of the ceiling is weighed against one that is as good and comes later. -/
theorem Matcher.failure_tells_ceiling_first :
    let inner : Text := [.char 'b']
    let outer : Text := [.char 'a']
    let name : Text := [.char 'x']
    let matcher := Matcher.letrec
      [(.str outer, .reference inner), (.str inner, .element name none)]
      (.choice [.reference outer, .constant (.int 1)])
    let top : Entry := ⟨.choice, .noAlternative, .list [.int 2], 0, false⟩
    let ceiling : Entry := ⟨.reference, .depthExceeded, .str inner, 0, false⟩
    matcher.outcome ⟨1, none⟩ (.int 2) = .ok (.failure ⟨top, [ceiling]⟩) ∧
      (∃ result, matcher.outcome ⟨2, none⟩ (.int 2) = .ok (.success result)) ∧
      (∃ name env, .ceiling name env ∈ matcher.traceOf ⟨1, none⟩ (.int 2)) ∧
      (.depthExceeded ∈ Failure.reasons ⟨top, [ceiling]⟩ ∨
        Dropped .depthExceeded (matcher.traceOf ⟨1, none⟩ (.int 2))) := by
  intro inner outer name matcher top ceiling
  have hlow : matcher.outcome ⟨1, none⟩ (.int 2) = .ok (.failure ⟨top, [ceiling]⟩) := by
    dsimp only [matcher, outer, inner, name, top, ceiling]
    cbv
  have hhigh : matcher.outcome ⟨2, none⟩ (.int 2) =
      .ok (.success ⟨⟨[(name, .int 2)], [], 0, 2, 7⟩, 1⟩) := by
    dsimp only [matcher, outer, inner, name]
    cbv
  exact ⟨hlow, ⟨_, hhigh⟩,
    Matcher.failure_tells_ceiling (show (1 : Int) ≤ 2 by decide) hlow hhigh⟩

/-- The report of the ceiling comes first and is dropped for the longer one of an array. -/
theorem Matcher.failure_hides_ceiling :
    let inner : Text := [.char 'b']
    let outer : Text := [.char 'a']
    let name : Text := [.char 'x']
    let datum : Value := .list [.int 2]
    let matcher := Matcher.letrec
      [(.str outer, .reference inner), (.str inner, .element name none)]
      (.choice [.reference outer, .array [.constant (.int 1)]])
    let top : Entry := ⟨.choice, .noAlternative, .list [datum], 0, false⟩
    let causes : List Entry := [⟨.array, .unexpectedInput, datum, 0, true⟩,
      ⟨.constant, .unexpectedValue, .tuple [.int 2, .int 1], 0, true⟩]
    matcher.outcome ⟨1, none⟩ datum = .ok (.failure ⟨top, causes⟩) ∧
      (∃ result, matcher.outcome ⟨2, none⟩ datum = .ok (.success result)) ∧
      .depthExceeded ∉ Failure.reasons ⟨top, causes⟩ := by
  intro inner outer name datum matcher top causes
  have hlow : matcher.outcome ⟨1, none⟩ datum = .ok (.failure ⟨top, causes⟩) := by
    dsimp only [matcher, outer, inner, name, datum, top, causes]
    cbv
  have hhigh : matcher.outcome ⟨2, none⟩ datum =
      .ok (.success ⟨⟨[(name, datum)], [], 0, 2, 7⟩, 1⟩) := by
    dsimp only [matcher, outer, inner, name, datum]
    cbv
  refine ⟨hlow, ⟨_, hhigh⟩, ?_⟩
  decide

end Motif
