import Motif.Failure
import Mathlib

/-!
# Ranking failures

Ranks are ordered lexicographically. The best of several failures is the earliest of those that no
other one outranks.
-/

namespace Motif.Failure

/-! ### The order of ranks -/

namespace Rank

variable {a b c : Rank}

lemma lt_iff : a < b ↔ (a.informative = false ∧ b.informative = true) ∨
    (a.informative = b.informative ∧
      (a.length < b.length ∨ (a.length = b.length ∧ a.offset < b.offset))) := Iff.rfl

protected lemma lt_irrefl (a : Rank) : ¬ a < a := by
  simp [lt_iff]

protected lemma lt_trans (hab : a < b) (hbc : b < c) : a < c := by
  rw [lt_iff] at *
  grind

end Rank

/-! ### The better of two failures -/

/-- The better of two failures points at something if one of them does. -/
lemma informative_better {best f : Failure} :
    (better (some best) f).root.reason.informative =
      (best.root.reason.informative || f.root.reason.informative) := by
  have hlt : best.rank < f.rank ↔ _ := Rank.lt_iff
  rw [better]
  split <;> grind [rank]

/-! ### The best of several failures -/

/-- A failure that stands among others, outranks all before it, and is not outranked by those
after it. -/
def Leads (best : Failure) (candidates : List Failure) : Prop :=
  ∃ before after, candidates = before ++ best :: after ∧ (∀ f ∈ before, f.rank < best.rank) ∧
    ∀ f ∈ after, ¬ best.rank < f.rank

end Motif.Failure
