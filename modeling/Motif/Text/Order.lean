import Motif.Text

/-!
# Sorted names

Names in the order of their code points, each once.
-/

namespace Motif.Text

/-- Inserts a name at its place in a sorted list, unless it stands there already. -/
def insertName (name : Text) : List Text → List Text
  | [] => [name]
  | n :: names =>
    if name = n then n :: names
    else if name < n then name :: n :: names
    else n :: insertName name names

/-- Names in order, each once. -/
def sortedNames (names : List Text) : List Text := names.foldr insertName []

theorem mem_insertName {x name : Text} {names : List Text} :
    x ∈ insertName name names ↔ x = name ∨ x ∈ names := by
  induction names with
  | nil => simp [insertName]
  | cons n names ih =>
    unfold insertName
    split
    · subst_vars; simp
    · split
      · simp
      · simp [ih, or_left_comm]

@[simp] theorem mem_sortedNames {x : Text} {names : List Text} :
    x ∈ sortedNames names ↔ x ∈ names := by
  induction names with
  | nil => simp [sortedNames]
  | cons n names ih =>
    rw [sortedNames, List.foldr_cons, mem_insertName, List.mem_cons]
    exact or_congr_right ih

end Motif.Text
