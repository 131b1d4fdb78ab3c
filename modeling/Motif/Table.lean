import Motif.Text

/-!
# Tables

Named things in the order in which the names first came. A name that is given a new value keeps its
place.
-/

namespace Motif

/-- Values by name, in order. -/
abbrev Table (α : Type) := List (Text × α)

namespace Table

variable {α : Type}

/-- Names in order. -/
def names (t : Table α) : List Text := t.map Prod.fst

/-- Gives `name` a value: in its place if it has one, at the end otherwise. -/
def insert (name : Text) (value : α) : Table α → Table α
  | [] => [(name, value)]
  | (n, v) :: t => if n = name then (n, value) :: t else (n, v) :: insert name value t

/-- Inserts entries one after the other, so that the last entry of a name counts. -/
def insertAll (t entries : Table α) : Table α := entries.foldl (fun t (n, v) => insert n v t) t

theorem insert_of_lookup_eq_none {name : Text} {t : Table α} (value : α)
    (h : t.lookup name = none) : insert name value t = t ++ [(name, value)] := by
  induction t with
  | nil => rfl
  | cons entry t ih =>
    obtain ⟨n, v⟩ := entry
    by_cases hn : name = n
    · subst hn
      simp at h
    · have hne : ¬ n = name := fun e => hn e.symm
      have ht : t.lookup name = none := by
        simpa [List.lookup_cons, beq_eq_false_iff_ne.2 hn] using h
      simp [insert, hne, ih ht]

@[simp] theorem lookup_insert_self (name : Text) (value : α) (t : Table α) :
    (insert name value t).lookup name = some value := by
  induction t with
  | nil => simp [insert]
  | cons entry t ih =>
    obtain ⟨n, v⟩ := entry
    by_cases hn : n = name
    · subst hn
      simp [insert]
    · have hne : (name == n) = false := beq_eq_false_iff_ne.2 fun e => hn e.symm
      simp [insert, hn, List.lookup_cons, hne, ih]

theorem lookup_insert_of_ne {name other : Text} (value : α) (t : Table α) (h : other ≠ name) :
    (insert name value t).lookup other = t.lookup other := by
  induction t with
  | nil => simp [insert, List.lookup_cons, beq_eq_false_iff_ne.2 h]
  | cons entry t ih =>
    obtain ⟨n, v⟩ := entry
    by_cases hn : n = name
    · subst hn
      simp [insert, List.lookup_cons, beq_eq_false_iff_ne.2 h]
    · by_cases ho : other = n
      · subst ho
        simp [insert, hn]
      · simp [insert, hn, List.lookup_cons, beq_eq_false_iff_ne.2 ho, ih]

end Table

end Motif
