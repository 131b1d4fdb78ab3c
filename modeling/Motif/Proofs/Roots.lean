import Motif.Proofs.Chains
import Motif.Proofs.Positions
import Motif.Proofs.Ranking
import Motif.Report
import Mathlib

/-!
# Roots of failures

Where failures are weighed, one whose root only says that the input ran out never wins against one
whose root points at something. But a segment that comes to an item that it may not take is not
weighed against its attempts: it takes the best of them as its cause, whatever its root.
-/

namespace Motif

open Failure (Entry)

section

variable {H : Predicates}

/-- Whether a reason tells of a mismatch: an item or a name that is not as it should be, or a
reference too many. -/
def Reason.concrete : Reason → Bool
  | .unexpectedValue | .restrictionNotSatisfied | .bindingConflict | .referenceNotFound
  | .depthExceeded => true
  | _ => false

lemma Reason.informative_of_concrete {reason : Reason} (h : reason.concrete = true) :
    reason.informative = true := by
  revert h
  cases reason <;> decide

/-- A matcher is a segment that may not take a value. -/
def Matcher.Refuses [Predicates] (v : Value) : Matcher → Prop
  | .segment _ only | .segmentExact _ only => allowed only v = false
  | _ => False

/-- An entry reports that a segment among the matchers of `ran` stopped at an item that it may not
take. -/
def Failure.Entry.Stopped [Predicates] (ran : Matcher → Prop) (e : Entry) : Prop :=
  e.matcher = .segment ∧ e.reason = .restrictionNotSatisfied ∧
    ∃ matcher, ran matcher ∧ matcher.Refuses e.fragment

/-- Mismatches end a chain, but for those at which a segment stopped. -/
def Failure.Pointed [Predicates] (ran : Matcher → Prop) (f : Failure) : Prop :=
  ∀ e causes, e :: causes <:+ f.chain → e.reason.concrete = true → causes ≠ [] → e.Stopped ran

variable {ran : Matcher → Prop}

/-! ### Mismatches with causes -/

namespace Failure

lemma pointed_iff {f : Failure} : f.Pointed ran ↔
    (f.top.reason.concrete = true → f.causes ≠ [] → f.top.Stopped ran) ∧
      ∀ e causes, e :: causes <:+ f.causes → e.reason.concrete = true → causes ≠ [] →
        e.Stopped ran :=
  forall_suffix_cons

lemma pointed_of_causes_eq_nil {f : Failure} (h : f.causes = []) : f.Pointed ran := by
  rw [pointed_iff, h]
  exact ⟨fun _ hcauses => absurd rfl hcauses, fun e causes he => nomatch List.suffix_nil.mp he⟩

lemma pointed_causedBy {e : Entry} {f : Failure} : (causedBy e f).Pointed ran ↔
    (e.reason.concrete = true → e.Stopped ran) ∧ f.Pointed ran :=
  pointed_iff.trans <| and_congr_left fun _ => ⟨fun h hreason => h hreason (List.cons_ne_nil _ _),
    fun h hreason _ => h hreason⟩

/-- Where an entry stands says nothing about what it reports. -/
lemma Pointed.relocate {f : Failure} (h : f.Pointed ran) (base : Int) :
    (f.relocate base).Pointed ran := by
  obtain ⟨htop, hcauses⟩ := pointed_iff.mp h
  rw [pointed_iff, relocate_causes]
  refine ⟨?_, hcauses⟩
  rw [Failure.relocate]
  split
  · exact htop
  · exact htop

lemma Pointed.inArray {f : Failure} (h : f.Pointed ran) (whole : Input) (offset : Nat) :
    (f.inArray whole offset).Pointed ran := by
  rw [Failure.inArray]
  split
  · exact h.relocate offset
  · refine pointed_causedBy.mpr ⟨fun hreason => ?_, h.relocate offset⟩
    cases hreason

lemma Pointed.better {best f : Failure} (hbest : best.Pointed ran) (h : f.Pointed ran) :
    (Failure.better (some best) f).Pointed ran := by
  rw [Failure.better]
  split
  · exact h
  · exact hbest

end Failure

/-- A matcher that gives up after attempts reports no mismatch, unless it is a segment that has come
to an item that it may not take. -/
lemma Matcher.GivesUp.exists_stopped {matcher : Matcher} {input : Input} {best f : Failure}
    (h : matcher.GivesUp input best f) : ∃ e, f = .causedBy e best ∧
      (e.reason.concrete = true →
        e.matcher = .segment ∧ e.reason = .restrictionNotSatisfied ∧
          matcher.Refuses e.fragment) := by
  induction h with
  | refused _ hallowed => exact ⟨_, rfl, fun _ => ⟨rfl, rfl, hallowed⟩⟩
  | exact _ ih => exact ih
  | _ => exact ⟨_, rfl, nofun⟩

/-- In the failures of a search, mismatches end a chain, but for those at which a segment
stopped. -/
theorem Arises.pointed {lists : List Input} {origin : Origin} {f : Failure} {seen : List Event}
    (h : Arises ran lists origin f seen) : f.Pointed ran := by
  induction h with
  | complaint _ h => exact Failure.pointed_of_causes_eq_nil h.causes_eq_nil
  | ceiling | leftover | fallsShort | leftoverLater => exact Failure.pointed_of_causes_eq_nil rfl
  | gaveUp hran _ h ih =>
    obtain ⟨e, rfl, hstopped⟩ := h.exists_stopped
    refine Failure.pointed_causedBy.mpr ⟨fun hreason => ?_, ih⟩
    obtain ⟨hmatcher, hreason, hrefuses⟩ := hstopped hreason
    exact ⟨hmatcher, hreason, _, hran, hrefuses⟩
  | array _ _ ih => exact ih.inArray _ _
  | later _ _ ih => exact ih.relocate _
  | better _ _ ihbest ih => exact ihbest.better ih
  | letrec _ ih | reference _ ih | alternative _ _ ih | answer _ ih | first _ ih | beyond _ ih =>
    exact ih

/-! ### Roots of what is weighed -/

namespace Failure

lemma root_of_chain {f : Failure} {before : List Entry} {e : Entry}
    (h : f.chain = before ++ [e]) : f.root = e := by
  have hroot : f.root = f.chain.getLastD f.top := (List.getLastD_cons ..).symm
  rw [hroot, h]
  simp

lemma reason_root_relocate (f : Failure) (base : Int) :
    (f.relocate base).root.reason = f.root.reason := by
  obtain ⟨top, causes⟩ := f
  unfold relocate
  split
  · rfl
  · cases causes <;> rfl

lemma reason_root_inArray (f : Failure) (whole : Input) (offset : Nat) :
    (f.inArray whole offset).root.reason = f.root.reason := by
  unfold inArray
  split
  · exact reason_root_relocate f offset
  · rw [root_causedBy]
    exact reason_root_relocate f offset

end Failure

/-- If a failure does not point at anything, neither does any that was weighed on the way to it. -/
theorem Arises.rank_of_weighed {lists : List Input} {origin : Origin} {f : Failure}
    {seen : List Event} (h : Arises ran lists origin f seen)
    (hroot : f.root.reason.informative = false) {best g : Failure}
    (hweighed : .weighed best g ∈ seen) :
    best.rank.informative = false ∧ g.rank.informative = false := by
  induction h with
  | complaint | leftover | fallsShort | leftoverLater => cases hweighed
  | ceiling => cases hroot
  | gaveUp _ _ h ih =>
    obtain ⟨e, rfl, -⟩ := h.exists_stopped
    rw [Failure.root_causedBy] at hroot
    exact ih hroot hweighed
  | array _ _ ih =>
    rw [Failure.reason_root_inArray] at hroot
    exact ih hroot hweighed
  | later _ _ ih =>
    rw [Failure.reason_root_relocate] at hroot
    exact ih hroot hweighed
  | letrec _ ih | reference _ ih | alternative _ _ ih | answer _ ih | first _ ih | beyond _ ih =>
    exact ih hroot hweighed
  | better _ _ ihbest ih =>
    -- if one of the two pointed at something, the better one would
    rw [Failure.informative_better, Bool.or_eq_false_iff] at hroot
    simp only [List.mem_append, List.mem_singleton] at hweighed
    rcases hweighed with (hweighed | hweighed) | hweighed
    · exact ihbest hroot.1 hweighed
    · exact ih hroot.2 hweighed
    · cases hweighed
      exact hroot

/-! ### Roots of failed matches -/

section

variable {limits : Limits} {matcher : Matcher} {datum : Value} {f : Failure}

/-- If there is a mismatch in the chain of a failed match, its root, which stands in the headline,
points at something, unless the mismatch is that a segment stopped at an item that it may not take
after it had been tried on those before. Then nothing that was weighed in the run has a root that
points at anything, so that none is hidden by weighing. -/
theorem Matcher.mismatch_at_root (h : matcher.outcome limits datum = .ok (.failure f)) :
    (∀ before e after, f.chain = before ++ e :: after → e.reason.concrete = true →
      f.root.reason.informative = true ∨
        after ≠ [] ∧ e.Stopped (matcher.RunsIn limits datum)) ∧
      (f.root.reason.informative = false → ∀ best g,
        .weighed best g ∈ matcher.traceOf limits datum →
          best.rank.informative = false ∧ g.rank.informative = false) ∧
      ∃ lines, f.explain = "NO MATCH: " ++ f.root.reason.name ++ " in " ++ f.root.matcher.name ++
        " at offset " ++ toString f.root.offset ++ "\n" ++ lines := by
  have hheadline : ∃ lines, f.explain = "NO MATCH: " ++ f.root.reason.name ++ " in " ++
      f.root.matcher.name ++ " at offset " ++ toString f.root.offset ++ "\n" ++ lines :=
    ⟨_, String.intercalate_cons_cons⟩
  rcases Matcher.arises_of_outcome h with harises | ⟨-, kind, rfl⟩
  · refine ⟨?_, ?_, hheadline⟩
    · intro before e after hchain hconcrete
      -- the last entry is the root itself, and any other has causes
      cases after with
      | nil =>
        rw [Failure.root_of_chain hchain]
        exact .inl (Reason.informative_of_concrete hconcrete)
      | cons c causes =>
        exact .inr ⟨List.cons_ne_nil _ _,
          harises.pointed e _ ⟨before, hchain.symm⟩ hconcrete (List.cons_ne_nil _ _)⟩
    · intro hroot best g hweighed
      exact harises.rank_of_weighed hroot (List.mem_filter.mpr ⟨hweighed, rfl⟩)
  · exact ⟨fun _ _ _ _ _ => .inl rfl, nofun, hheadline⟩

end

end

/-- The attempts of a segment are weighed, and the root of the better one is the item after it. -/
theorem Matcher.mismatch_at_root_weighed :
    let name : Text := [.char 'x']
    let items : List Value := [.int 1, .int 3, .null]
    let matcher : Matcher := .array [.segment name (some .integer), .constant (.int 2)]
    let top : Entry := ⟨.array, .unexpectedInput, .list items, 2, true⟩
    let stopped : Entry := ⟨.segment, .restrictionNotSatisfied, .null, 2, true⟩
    let root : Entry := ⟨.constant, .unexpectedValue, .tuple [.null, .int 2], 2, true⟩
    matcher.outcome {} (.list items) = .ok (.failure ⟨top, [stopped, root]⟩) ∧
      stopped.reason.concrete = true ∧ root.reason.informative = true ∧
      ∃ lines, Failure.explain ⟨top, [stopped, root]⟩ =
        "NO MATCH: unexpected-value in constant at offset 2\n" ++ lines := by
  intro name items matcher top stopped root
  have houtcome : matcher.outcome {} (.list items) = .ok (.failure ⟨top, [stopped, root]⟩) := by
    dsimp only [matcher, name, items, top, stopped, root]
    cbv
  obtain ⟨hmismatch, -, lines, hlines⟩ := Matcher.mismatch_at_root houtcome
  refine ⟨houtcome, rfl, ?_, lines, hlines⟩
  rcases hmismatch [top, stopped] root [] rfl rfl with hinformative | ⟨hcauses, -⟩
  · exact hinformative
  · exact absurd rfl hcauses

/-- A segment that must own the rest of its list stops at an item that it may not take. The root is
that the attempt before fell short of the end of the list. -/
theorem Matcher.mismatch_above_root :
    let name : Text := [.char 'x']
    let items : List Value := [.int 1, .null]
    let matcher : Matcher := .array [.segmentExact name (some .integer)]
    let top : Entry := ⟨.array, .unexpectedInput, .list items, 1, true⟩
    let stopped : Entry := ⟨.segment, .restrictionNotSatisfied, .null, 1, true⟩
    let root : Entry := ⟨.segment, .keepTrying, .list items, 1, false⟩
    matcher.outcome {} (.list items) = .ok (.failure ⟨top, [stopped, root]⟩) ∧
      stopped.reason.concrete = true ∧ Failure.root ⟨top, [stopped, root]⟩ = root ∧
      root.reason.informative = false := by
  intro name items matcher top stopped root
  refine ⟨?_, rfl, rfl, rfl⟩
  dsimp only [matcher, name, items, top, stopped, root]
  cbv

end Motif
