import Motif.Proofs.EqualData

/-!
# Failures at the same places

Two runs on different data may fail at the same places for the same reasons, and show different
values: their failures match entry by entry. Where this is more than is asked for, any two failures
match.
-/

namespace Motif

open Failure (Entry)

/-! ### Failures -/

/-- Failures whose chains match entry by entry, where `exact` is the case. -/
def Failure.Matches (exact : Prop) (f f' : Failure) : Prop :=
  exact → List.Forall₂ Entry.Matches f.chain f'.chain

namespace Failure.Matches

variable {exact : Prop} {f f' : Failure} {best best' : Option Failure}

lemma report (k : MatcherKind) (r : Reason) (v w : Value) (n : Nat)
    (h : Option.Rel (Matches exact) best best') :
    (Failure.report k r v n best).Matches exact (.report k r w n best') := by
  intro hexact
  refine .cons ⟨rfl, rfl, rfl, rfl⟩ ?_
  cases h with
  | none => exact .nil
  | some h => exact h hexact

lemma causedBy (h : f.Matches exact f') {e e' : Entry} (he : exact → e.Matches e') :
    (Failure.causedBy e f).Matches exact (.causedBy e' f') :=
  fun hexact => .cons (he hexact) (h hexact)

lemma top (h : f.Matches exact f') (hexact : exact) : f.top.Matches f'.top :=
  (List.forall₂_cons.mp (h hexact)).1

lemma relocate (h : f.Matches exact f') (base : Int) :
    (f.relocate base).Matches exact (f'.relocate base) := by
  intro hexact
  have htop := h.top hexact
  unfold Failure.relocate
  rw [htop.located]
  split
  · exact h hexact
  · exact .cons ⟨htop.matcher, htop.reason, congrArg (base + ·) htop.offset, rfl⟩
      (List.forall₂_cons.mp (h hexact)).2

lemma rank_eq (h : f.Matches exact f') (hexact : exact) : f.rank = f'.rank := by
  obtain ⟨htop, hcauses⟩ := List.forall₂_cons.mp (h hexact)
  have hroot : f.root.Matches f'.root := forall₂_getLastD hcauses htop
  rw [Failure.rank, Failure.rank, hroot.reason, hroot.offset, (h hexact).length_eq]

lemma better (hbest : Option.Rel (Matches exact) best best') (h : f.Matches exact f') :
    (Failure.better best f).Matches exact (Failure.better best' f') := by
  intro hexact
  cases hbest with
  | none => exact h hexact
  | some hbest =>
    rw [Failure.better, Failure.better, hbest.rank_eq hexact, h.rank_eq hexact]
    split
    · exact h hexact
    · exact hbest hexact

end Failure.Matches

/-! ### Answers -/

section

variable {κ : Type}

/-- Verdicts of which both are answers that correspond, or own failures that match. -/
inductive Verdict.Matches (exact : Prop) (A : κ → κ → Prop) : Verdict κ → Verdict κ → Prop where
  | own {f f' : Failure} (h : f.Matches exact f') : Matches exact A (.own f) (.own f')
  | passed {x x' : κ} (h : A x x') : Matches exact A (.passed x) (.passed x')

/-- The same for the ways in which arrays end, at the same positions where `exact` is the case. -/
inductive Landing.Matches (exact : Prop) (A : κ → κ → Prop) : Landing κ → Landing κ → Prop where
  | outer {x x' : κ} (h : A x x') : Matches exact A (.outer x) (.outer x')
  | leftover {f f' : Failure} (h : f.Matches exact f') :
    Matches exact A (.leftover f) (.leftover f')
  | placed {f f' : Failure} (h : f.Matches exact f') {position position' : Int}
    (hposition : exact → position = position') :
    Matches exact A (.placed f position) (.placed f' position')

variable {exact : Prop} {A : κ → κ → Prop}

lemma Verdict.Matches.join {v v' : Verdict (Verdict κ)}
    (h : v.Matches exact (Verdict.Matches exact A) v') : v.join.Matches exact A v'.join := by
  cases h with
  | own h => exact .own h
  | passed h => exact h

lemma Verdict.Matches.ofElement {v v' : Verdict (Landing κ)}
    (h : v.Matches exact (Landing.Matches exact A) v') (offset : Nat) :
    (Landing.ofElement offset v).Matches exact A (Landing.ofElement offset v') := by
  cases h with
  | own h =>
    refine .placed (h.relocate offset) fun hexact => ?_
    have htop := h.top hexact
    rw [htop.located, htop.offset]
  | passed h => exact h

/-- The ends of two arrays give verdicts that match, if neither takes the report of an element for
its own. -/
lemma Landing.Matches.settle {x x' : Landing κ} (h : x.Matches exact A x') {whole whole' : Input}
    (hspeaks : exact → ∀ f f' position, x = .placed f position → f.Matches exact f' →
      Landing.speaksOf whole f = false ∧ Landing.speaksOf whole' f' = false) :
    (Landing.settle whole x).Matches exact A (Landing.settle whole' x') := by
  cases h with
  | outer h => exact .passed h
  | leftover h => exact .own h
  | @placed f f' h position position' hposition =>
    simp only [Landing.settle]
    -- where chains need not match, one of the arrays may take a report for its own
    by_cases hexact : exact
    · obtain ⟨hspeaks, hspeaks'⟩ := hspeaks hexact f f' position rfl h
      rw [hspeaks, hspeaks']
      exact .own (h.causedBy fun _ => ⟨rfl, rfl, hposition hexact, rfl⟩)
    · split <;> split <;> exact .own fun h => absurd h hexact

variable [Answer κ]

/-- Answers that correspond are failures that match, or both none. -/
def Tells (exact : Prop) (A : κ → κ → Prop) : Prop :=
  ∀ x x', A x x' → Option.Rel (Failure.Matches exact) (failure? x) (failure? x')

lemma Tells.verdicts (h : Tells exact A) : Tells exact (Verdict.Matches exact A) := by
  rintro _ _ (hown | hpassed)
  · exact .some hown
  · exact h _ _ hpassed

lemma Tells.landings (h : Tells exact A) : Tells exact (Landing.Matches exact A) := by
  rintro _ _ (houter | hleftover | hplaced)
  · exact h _ _ houter
  · exact .some hleftover
  · exact .some hplaced

end

end Motif
