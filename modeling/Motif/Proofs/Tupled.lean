import Motif.Proofs.Alongside
import Motif.Proofs.Decoded
import Motif.Value.Text

/-!
# Tuples for lists

A datum in which all lists, at every depth, are replaced by the tuples of the same items is read the
same by everything that looks at items: no restriction tells it from the datum, and two data are
equal after the replacement if and only if they were before.

Tuples are not everywhere in a run on the new datum, though. A run of items that a variable is bound
to is a list all the same, and equals no item there that holds as many equal ones.
-/

namespace Motif

variable {H : Predicates}

mutual

/-- A value with tuples in place of its lists, at every depth. Keys hold no lists. -/
def Value.tupled : Value → Value
  | .seq _ items => .tuple (allTupled items)
  | .dict entries => .dict (tupledEntries entries)
  | v => v

/-- As `Value.tupled`, for items. -/
def allTupled : List Value → List Value
  | [] => []
  | v :: vs => v.tupled :: allTupled vs

/-- As `Value.tupled`, for the values in entries. -/
def tupledEntries : List (Value × Value) → List (Value × Value)
  | [] => []
  | (k, v) :: entries => (k, v.tupled) :: tupledEntries entries

end

lemma allTupled_eq_map (vs : List Value) : allTupled vs = vs.map Value.tupled := by
  induction vs with
  | nil => rfl
  | cons v vs ih => rw [allTupled, ih, List.map_cons]

lemma tupledEntries_eq_map (entries : List (Value × Value)) :
    tupledEntries entries = entries.map fun (k, v) => (k, v.tupled) := by
  induction entries with
  | nil => rfl
  | cons entry entries ih => rw [tupledEntries, ih, List.map_cons]

/-! ### Equality -/

section

variable {vs ws : List Value} {entries others : List (Value × Value)}

lemma alikeItems_tupled (h : ∀ v ∈ vs, ∀ w ∈ ws, v.tupled.alike w.tupled = v.alike w) :
    alikeItems (vs.map Value.tupled) (ws.map Value.tupled) = alikeItems vs ws := by
  induction vs generalizing ws with
  | nil => cases ws <;> simp [alikeItems]
  | cons v vs ih =>
    cases ws with
    | nil => simp [alikeItems]
    | cons w ws =>
      simp only [List.map_cons, alikeItems]
      rw [h v List.mem_cons_self w List.mem_cons_self, ih fun v hv w hw =>
        h v (List.mem_cons_of_mem _ hv) w (List.mem_cons_of_mem _ hw)]

lemma alikeEntries_tupled
    (h : ∀ entry ∈ entries, ∀ other ∈ others,
      entry.2.tupled.alike other.2.tupled = entry.2.alike other.2) :
    alikeEntries (entries.map fun (k, v) => (k, v.tupled))
      (others.map fun (k, v) => (k, v.tupled)) = alikeEntries entries others := by
  induction entries with
  | nil => simp [alikeEntries]
  | cons entry entries ih =>
    obtain ⟨hentry, hentries⟩ := List.forall_mem_cons.mp h
    have hany : (others.any fun other => entry.1.alike other.1 &&
          entry.2.tupled.alike other.2.tupled) =
        others.any fun other => entry.1.alike other.1 && entry.2.alike other.2 := by
      rw [Bool.eq_iff_iff, List.any_eq_true, List.any_eq_true]
      refine exists_congr fun other => and_congr_right fun hother => ?_
      rw [hentry other hother]
    obtain ⟨k, v⟩ := entry
    rw [alikeEntries, ← ih hentries, ← hany, List.map_cons, alikeEntries, List.any_map]
    rfl

end

namespace Value

@[simp] lemma tupled_seq (shape : Shape) (items : List Value) :
    (seq shape items).tupled = .tuple (items.map tupled) := by
  rw [tupled, allTupled_eq_map]

@[simp] lemma tupled_dict (entries : List (Value × Value)) :
    (dict entries).tupled = .dict (entries.map fun (k, v) => (k, v.tupled)) := by
  rw [tupled, tupledEntries_eq_map]

lemma snd_mem_of_mem_named {members : List (Text × Value)} {entry : Value × Value}
    (h : entry ∈ named members) : entry.2 ∈ members.map Prod.snd := by
  rw [← map_snd_named]
  exact List.mem_map_of_mem h

namespace Decoded

variable {v w : Value}

/-- Replacing lists by tuples neither makes data equal nor tells them apart. -/
lemma alike_tupled (hv : v.Decoded) (hw : w.Decoded) : v.tupled.alike w.tupled = v.alike w := by
  induction hv generalizing w with
  | list h ih =>
    cases hw with
    | list hitems =>
      simp only [tupled_seq, alike, beq_self_eq_true, Bool.true_and]
      exact alikeItems_tupled fun v hv w hw => ih v hv (hitems w hw)
    | _ => simp [tupled, alike]
  | object _ h ih =>
    cases hw with
    | object _ hmembers =>
      simp only [tupled_dict, alike, List.length_map]
      congr 1
      refine alikeEntries_tupled fun entry hentry other hother => ?_
      exact ih _ (snd_mem_of_mem_named hentry) (hmembers _ (snd_mem_of_mem_named hother))
    | _ => simp [tupled, alike]
  | _ => cases hw <;> simp [tupled, alike, quantity?]

lemma tupled_tupled (h : v.Decoded) : v.tupled.tupled = v.tupled := by
  induction h with
  | list h ih => simpa using ih
  | object _ h ih => simpa [named] using fun name v hmem => ih v (List.mem_map_of_mem hmem)
  | _ => rfl

lemma inert_tupled (h : v.Decoded) : v.tupled.Inert := by
  induction h with
  | list h ih =>
    rw [tupled_seq, inert_seq_iff]
    simpa using ih
  | _ => exact inert_of_bare rfl fun m h => by cases h

end Decoded

/-! ### Data that are reshaped -/

lemma equal_seq_bare {shape : Shape} {vs : List Value} {w : Value} (h : w.items? = none) :
    (seq shape vs).equal w = false := by
  cases w with
  | seq => cases h
  | _ => simp [equal, alike]

/-- A datum that can be read, and what it becomes with tuples for lists. -/
structure Reshapes (v w : Value) : Prop where
  decoded : v.Decoded
  eq : w = v.tupled

namespace Reshapes

variable {v w v' w' : Value} {vs ws : List Value}

lemma forall₂_iff :
    List.Forall₂ Reshapes vs ws ↔ (∀ v ∈ vs, v.Decoded) ∧ ws = vs.map tupled := by
  constructor
  · intro h
    induction h with
    | nil => simp
    | cons hitem _ ih => exact ⟨List.forall_mem_cons.mpr ⟨hitem.decoded, ih.1⟩, by
        rw [hitem.eq, ih.2, List.map_cons]⟩
  · rintro ⟨h, rfl⟩
    rw [List.forall₂_map_right_iff, List.forall₂_same]
    exact fun v hv => ⟨h v hv, rfl⟩

lemma list (h : List.Forall₂ Reshapes vs ws) : (Value.list vs).Reshapes (.tuple ws) := by
  obtain ⟨hdecoded, rfl⟩ := forall₂_iff.mp h
  exact ⟨.list hdecoded, (tupled_seq .list vs).symm⟩

lemma equal_eq (h : v.Reshapes w) (h' : v'.Reshapes w') : v.equal v' = w.equal w' := by
  obtain ⟨hv, rfl⟩ := h
  obtain ⟨hv', rfl⟩ := h'
  have halike := hv.alike_tupled hv'
  cases v with
  | float x =>
    cases x with
    | nan => rfl
    | _ => exact halike.symm
  | _ => exact halike.symm

/-- No restriction of the registry tells a list from a tuple. -/
lemma allowed_eq [Predicates] (h : v.Reshapes w) {only : Option Restriction}
    (honly : ∀ r ∈ only, r ∈ Restriction.registry) : allowed only v = allowed only w := by
  obtain ⟨-, rfl⟩ := h
  cases only with
  | none => rfl
  | some r =>
    have hr := honly r rfl
    cases r with
    | custom => simp [Restriction.registry] at hr
    | _ => cases v <;> rfl

/-- Lists become tuples, and nothing else is a list before or after. -/
lemma items_rel (h : v.Reshapes w) :
    (∃ vs ws, v = .list vs ∧ w = .tuple ws ∧ List.Forall₂ Reshapes vs ws) ∨
      v.items? = none ∧ w.items? = none := by
  obtain ⟨hv, rfl⟩ := h
  cases hv with
  | @list vs hitems =>
    exact .inl ⟨vs, _, rfl, tupled_seq .list vs, forall₂_iff.mpr ⟨hitems, rfl⟩⟩
  | _ => exact .inr ⟨rfl, rfl⟩

end Reshapes

/-- What a name stands for in two runs: an item, a run of items, which is a list in both, or a
rule. -/
inductive Corresponds : Value → Value → Prop where
  | item {v w : Value} (h : v.Reshapes w) : Corresponds v w
  | run {vs ws : List Value} (h : List.Forall₂ Reshapes vs ws) : Corresponds (.list vs) (.list ws)
  | rule (m : Matcher) : Corresponds (.matcher m) (.matcher m)

namespace Corresponds

variable {v w v' w' : Value}

lemma tupled_eq (h : v.Corresponds w) : v.tupled = w.tupled := by
  cases h with
  | item h => rw [h.eq, h.decoded.tupled_tupled]
  | @run vs ws h =>
    have hlists := Reshapes.list h
    calc (Value.list vs).tupled = (Value.tuple ws) := hlists.eq.symm
      _ = (Value.tuple ws).tupled := by rw [hlists.eq, hlists.decoded.tupled_tupled]
      _ = (Value.list ws).tupled := by rw [tupled_seq, tupled_seq]
  | rule => rfl

lemma items_rel (h : v.Corresponds w) :
    (∃ vs ws shape, v = .list vs ∧ w = .seq shape ws ∧ List.Forall₂ Reshapes vs ws) ∨
      v.items? = none ∧ w.items? = none := by
  cases h with
  | item h => exact h.items_rel.imp_left fun ⟨vs, ws, hv, hw, hitems⟩ =>
      ⟨vs, ws, .tuple, hv, hw, hitems⟩
  | run h => exact .inl ⟨_, _, .list, rfl, rfl, h⟩
  | rule => exact .inr ⟨rfl, rfl⟩

/-- What a name stands for equals an item in both runs or in none, unless it is a run of items and
the item a list of equal ones. -/
lemma equal_eq_or (h : v.Corresponds w) (h' : v'.Reshapes w') :
    v.equal v' = w.equal w' ∨
      ∃ vs ws, w = .list vs ∧ w' = .tuple ws ∧ (Value.tuple vs).equal (.tuple ws) = true := by
  cases h with
  | item h => exact .inl (h.equal_eq h')
  | rule m =>
    obtain ⟨hdecoded, rfl⟩ := h'
    cases hdecoded <;> simp [equal, alike, tupled]
  | @run vs ws h =>
    rcases h'.items_rel with ⟨us, us', rfl, rfl, -⟩ | ⟨hbare, hbare'⟩
    · have hlists : (Value.list vs).equal (.list us) = (Value.tuple ws).equal (.tuple us') :=
        (Reshapes.list h).equal_eq h'
      cases hequal : (Value.tuple ws).equal (.tuple us') with
      | true => exact .inr ⟨ws, us', rfl, rfl, hequal⟩
      | false =>
        left
        rw [hlists, hequal]
        simp [equal, alike]
    · left
      rw [equal_seq_bare hbare, equal_seq_bare hbare']

end Corresponds

end Value

/-! ### Environments -/

/-- Environments with the same rules and as many open references, in which the data are the same
but for lists and tuples. -/
abbrev Environment.Reshapes : Environment → Environment → Prop :=
  Environment.Like Value.Corresponds Eq

namespace Environment.Reshapes

variable {env env' : Environment}

lemma define (h : env.Reshapes env') (rules : Table Matcher) :
    (env.define rules).Reshapes (env'.define rules) :=
  ⟨h.bindings, congrArg (·.insertAll rules) h.rules, h.depth, h.maxDepth⟩

lemma get?_rel (h : env.Reshapes env') (name : Text) :
    Option.Rel Value.Corresponds (env.get? name) (env'.get? name) := by
  rcases rel_cases (h.bindings.lookup name) with ⟨hnone, hnone'⟩ | ⟨v, w, hv, hw, hvalue⟩
  · rw [get?_of_unbound hnone, get?_of_unbound hnone', h.rules]
    cases env'.rules.lookup name with
    | none => exact .none
    | some m => exact .some (.rule m)
  · rw [get?_of_bound hv, get?_of_bound hw]
    exact .some hvalue

lemma matcher?_eq (h : env.Reshapes env') (name : Text) :
    env.matcher? name = env'.matcher? name := by
  rcases rel_cases (Reshapes.get?_rel h name) with ⟨hnone, hnone'⟩ | ⟨v, w, hv, hw, hvalue⟩
  · rw [matcher?, matcher?, hnone, hnone']
  · rw [matcher?, matcher?, hv, hw]
    cases hvalue with
    | item h =>
      obtain ⟨hdecoded, rfl⟩ := h
      cases hdecoded <;> simp [Value.tupled]
    | run => rfl
    | rule => rfl

end Environment.Reshapes

end Motif
