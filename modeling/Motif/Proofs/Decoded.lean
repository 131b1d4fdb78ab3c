import Motif.Json.Reader
import Motif.Proofs.Equality
import Mathlib

/-!
# Decoded values

Reading JSON gives plain values only: lists that are no tuples, and objects whose keys are texts, no
two of them equal.
-/

namespace Motif

/-! ### Steps that may fail -/

section

variable {α β ε : Type} {f : α → Except ε β} {as : List α} {bs : List β} {e : ε}

lemma exists_of_bind_eq_ok {x : Except ε α} {b : β} (h : x >>= f = .ok b) :
    ∃ a, x = .ok a ∧ f a = .ok b := by
  cases x with
  | error e => cases h
  | ok a => exact ⟨a, rfl, h⟩

lemma exists_of_map_eq_ok {x : Except ε α} {g : α → β} {b : β} (h : g <$> x = .ok b) :
    ∃ a, x = .ok a ∧ g a = b := by
  cases x with
  | error e => cases h
  | ok a => exact ⟨a, rfl, Except.ok.inj h⟩

lemma exists_of_mem_of_mapM_eq_ok (h : as.mapM f = .ok bs) {b : β} (hb : b ∈ bs) :
    ∃ a ∈ as, f a = .ok b := by
  induction as generalizing bs with
  | nil =>
    cases h
    cases hb
  | cons a as ih =>
    rw [List.mapM_cons] at h
    obtain ⟨first, hfirst, h⟩ := exists_of_bind_eq_ok h
    obtain ⟨others, hothers, h⟩ := exists_of_bind_eq_ok h
    cases h
    rcases List.mem_cons.mp hb with rfl | hmem
    · exact ⟨a, List.mem_cons_self, hfirst⟩
    · obtain ⟨a', ha', hb'⟩ := ih hothers hmem
      exact ⟨a', List.mem_cons_of_mem _ ha', hb'⟩

lemma exists_of_mapM_eq_error (h : as.mapM f = .error e) : ∃ a ∈ as, f a = .error e := by
  induction as with
  | nil => cases h
  | cons a as ih =>
    rw [List.mapM_cons] at h
    cases hfirst : f a with
    | error e' =>
      rw [hfirst] at h
      cases h
      exact ⟨a, List.mem_cons_self, hfirst⟩
    | ok b =>
      cases hothers : as.mapM f with
      | error e' =>
        rw [hfirst, hothers] at h
        cases h
        obtain ⟨a', hmem, ha'⟩ := ih hothers
        exact ⟨a', List.mem_cons_of_mem _ hmem, ha'⟩
      | ok others =>
        rw [hfirst, hothers] at h
        cases h

lemma exists_mapM_eq_ok (h : ∀ a ∈ as, ∃ b, f a = .ok b) : ∃ bs, as.mapM f = .ok bs := by
  cases hmapM : as.mapM f with
  | ok bs => exact ⟨bs, rfl⟩
  | error e =>
    obtain ⟨a, hmem, ha⟩ := exists_of_mapM_eq_error hmapM
    obtain ⟨b, hb⟩ := h a hmem
    rw [ha] at hb
    cases hb

end

/-! ### Decoded values -/

/-- Entries whose keys are texts. -/
def Value.named (members : List (Text × Value)) : List (Value × Value) :=
  members.map fun (name, v) => (.str name, v)

@[simp] lemma Value.map_snd_named (members : List (Text × Value)) :
    (named members).map Prod.snd = members.map Prod.snd := by
  rw [named, List.map_map]
  rfl

lemma Value.map_fst_named (members : List (Text × Value)) :
    (named members).map Prod.fst = (members.map Prod.fst).map .str := by
  rw [named, List.map_map, List.map_map]
  rfl

/-- Values that can be written in JSON. -/
inductive Value.Decoded : Value → Prop where
  | null : Decoded .null
  | bool {b : Bool} : Decoded (.bool b)
  | int {n : Int} : Decoded (.int n)
  | float {x : Binary64} : Decoded (.float x)
  | str {s : Text} : Decoded (.str s)
  | list {items : List Value} (h : ∀ item ∈ items, Decoded item) : Decoded (.list items)
  | object {members : List (Text × Value)} (hnames : (members.map Prod.fst).Nodup)
    (h : ∀ v ∈ members.map Prod.snd, Decoded v) : Decoded (.dict (named members))

namespace Value

/-- The values directly inside of a list or an object. -/
def parts : Value → List Value
  | .seq _ items => items
  | .dict entries => entries.map Prod.snd
  | _ => []

lemma Decoded.of_mem_parts {v part : Value} (h : v.Decoded) (hpart : part ∈ v.parts) :
    part.Decoded := by
  cases h with
  | list h => exact h part hpart
  | object _ h =>
    rw [parts, map_snd_named] at hpart
    exact h part hpart
  | _ => cases hpart

lemma mem_of_lookupKey {key : Text} {v : Value} {entries : List (Value × Value)}
    (h : lookupKey key entries = some v) : (.str key, v) ∈ entries := by
  induction entries with
  | nil => cases h
  | cons entry entries ih =>
    obtain ⟨k, w⟩ := entry
    cases k with
    | str s =>
      rw [lookupKey] at h
      split at h
      · rename_i hkey
        obtain rfl := eq_of_beq hkey
        cases h
        exact List.mem_cons_self
      · exact List.mem_cons_of_mem _ (ih h)
    | _ => exact List.mem_cons_of_mem _ (ih h)

end Value

/-! ### Reading JSON -/

namespace Value

/-- An object has a new value for a key in the place of the old one, or at its end. -/
lemma insertEntry_named (name : Text) (v : Value) (members : List (Text × Value)) :
    ∃ members', insertEntry (.str name) v (named members) = named members' ∧
      members'.map Prod.fst = (if name ∈ members.map Prod.fst then members.map Prod.fst
        else members.map Prod.fst ++ [name]) ∧
      members'.map Prod.snd ⊆ v :: members.map Prod.snd := by
  induction members with
  | nil => exact ⟨[(name, v)], by simp [named, insertEntry]⟩
  | cons member members ih =>
    obtain ⟨k, w⟩ := member
    change ∃ members', (if (Value.str k).alike (.str name) then (.str k, v) :: named members
      else (.str k, w) :: insertEntry (.str name) v (named members)) = named members' ∧ _
    by_cases hk : name = k
    · subst hk
      refine ⟨(name, v) :: members, if_pos (alike_str.mpr rfl), by simp, ?_⟩
      exact List.cons_subset_cons _ (List.subset_cons_self ..)
    · have halike : ¬ (Value.str k).alike (.str name) = true := fun h =>
        hk (Value.str.inj (alike_str.mp h))
      obtain ⟨members', hinsert, hnames, hvalues⟩ := ih
      refine ⟨(k, w) :: members', ?_, ?_, ?_⟩
      · rw [if_neg halike, hinsert]
        rfl
      · simp only [List.map_cons, hnames, List.mem_cons, hk, false_or]
        split <;> rfl
      · intro x hx
        rcases List.mem_cons.mp hx with rfl | hx
        · simp
        · rcases List.mem_cons.mp (hvalues hx) with rfl | hx'
          · exact List.mem_cons_self
          · exact List.mem_cons_of_mem _ (List.mem_cons_of_mem _ hx')

lemma decoded_ofEntries {members : List (Text × Value)}
    (h : ∀ v ∈ members.map Prod.snd, v.Decoded) : (ofEntries (named members)).Decoded := by
  suffices ∀ made : List (Text × Value), (made.map Prod.fst).Nodup →
      (∀ v ∈ made.map Prod.snd, v.Decoded) →
      (Value.dict ((named members).foldl (fun acc entry => insertEntry entry.1 entry.2 acc)
        (named made))).Decoded from
    this [] .nil (by simp)
  induction members with
  | nil => exact fun made hnames hmade => .object hnames hmade
  | cons member members ih =>
    intro made hnames hmade
    obtain ⟨made', hinsert, hnames', hvalues⟩ := insertEntry_named member.1 member.2 made
    have hnodup : (made'.map Prod.fst).Nodup := by
      rw [hnames']
      split
      · exact hnames
      · rename_i hnew
        rw [← List.concat_eq_append]
        exact hnames.concat hnew
    have hdecoded (v : Value) (hv : v ∈ made'.map Prod.snd) : v.Decoded := by
      rcases List.mem_cons.mp (hvalues hv) with rfl | hv
      · exact h _ List.mem_cons_self
      · exact hmade v hv
    have hothers := ih (fun v hv => h v (List.mem_cons_of_mem _ hv)) made' hnodup hdecoded
    rw [← hinsert] at hothers
    exact hothers

end Value

namespace Json

lemma decoded_of_readNumber {negative : Bool} {cs rest : List Char} {v : Value}
    (h : readNumber negative cs = .ok (v, rest)) : v.Decoded := by
  unfold readNumber at h
  obtain ⟨⟨whole, cs'⟩, -, h⟩ := exists_of_bind_eq_ok h
  dsimp only at h
  split at h
  · split at h
    · cases h
    · cases h
      exact .int
  · cases h
    exact .float

lemma decoded_of_readPlain {cs rest : List Char} {v : Value} (h : readPlain cs = .ok (v, rest)) :
    v.Decoded := by
  unfold readPlain at h
  dsimp only at h
  split at h
  · rename_i read hread
    cases h
    obtain ⟨⟨word, w⟩, hmem, hw⟩ := List.exists_of_findSome?_eq_some hread
    obtain ⟨rest', -, heq⟩ := Option.map_eq_some_iff.mp hw
    cases heq
    simp only [List.mem_cons, Prod.mk.injEq, List.not_mem_nil, or_false] at hmem
    rcases hmem with ⟨-, rfl⟩ | ⟨-, rfl⟩ | ⟨-, rfl⟩ | ⟨-, rfl⟩ | ⟨-, rfl⟩ | ⟨-, rfl⟩ <;> constructor
  · split at h
    · exact decoded_of_readNumber h
    · exact decoded_of_readNumber h

/-- What the readers read can be written in JSON. -/
lemma decoded_of_read (fuel : Nat) :
    (∀ {cs rest v}, readValue fuel cs = .ok (v, rest) → v.Decoded) ∧
      (∀ {cs rest items}, readItems fuel cs = .ok (items, rest) → ∀ v ∈ items, v.Decoded) ∧
      ∀ {cs rest entries}, readMembers fuel cs = .ok (entries, rest) →
        ∃ members, entries = Value.named members ∧ ∀ v ∈ members.map Prod.snd, v.Decoded := by
  induction fuel with
  | zero => exact ⟨nofun, nofun, nofun⟩
  | succ fuel ih =>
    obtain ⟨ihvalue, ihitems, ihmembers⟩ := ih
    refine ⟨?_, ?_, ?_⟩
    · intro cs rest v h
      rw [readValue.eq_def] at h
      dsimp only at h
      split at h
      · obtain ⟨⟨s, rest'⟩, -, h⟩ := exists_of_bind_eq_ok h
        cases h
        exact .str
      · split at h
        · cases h
          exact .list nofun
        · obtain ⟨⟨items, rest'⟩, hitems, h⟩ := exists_of_bind_eq_ok h
          cases h
          exact .list (ihitems hitems)
      · split at h
        · cases h
          exact show (Value.dict (Value.named [])).Decoded from .object .nil nofun
        · obtain ⟨⟨entries, rest'⟩, hmembers, h⟩ := exists_of_bind_eq_ok h
          cases h
          obtain ⟨members, rfl, hdecoded⟩ := ihmembers hmembers
          exact Value.decoded_ofEntries hdecoded
      · exact decoded_of_readPlain h
    · intro cs rest items h
      rw [readItems.eq_def] at h
      obtain ⟨⟨item, rest'⟩, hitem, h⟩ := exists_of_bind_eq_ok h
      dsimp only at h
      split at h
      · obtain ⟨⟨others, rest''⟩, hothers, h⟩ := exists_of_bind_eq_ok h
        cases h
        exact List.forall_mem_cons.mpr ⟨ihvalue hitem, ihitems hothers⟩
      · cases h
        exact List.forall_mem_cons.mpr ⟨ihvalue hitem, nofun⟩
      · cases h
    · intro cs rest entries h
      rw [readMembers.eq_def] at h
      dsimp only at h
      split at h
      · obtain ⟨⟨key, cs'⟩, -, h⟩ := exists_of_bind_eq_ok h
        dsimp only at h
        split at h
        · obtain ⟨⟨v, rest'⟩, hv, h⟩ := exists_of_bind_eq_ok h
          dsimp only at h
          split at h
          · obtain ⟨⟨others, rest''⟩, hothers, h⟩ := exists_of_bind_eq_ok h
            cases h
            obtain ⟨members, rfl, hdecoded⟩ := ihmembers hothers
            exact ⟨(key, v) :: members, rfl, List.forall_mem_cons.mpr ⟨ihvalue hv, hdecoded⟩⟩
          · cases h
            exact ⟨[(key, v)], rfl, List.forall_mem_cons.mpr ⟨ihvalue hv, nofun⟩⟩
          · cases h
        · cases h
      · cases h

/-- What is read can be written in JSON. -/
lemma decoded_of_decode {text : List Char} {v : Value} (h : decode text = .ok v) : v.Decoded := by
  rw [decode] at h
  obtain ⟨⟨v', rest⟩, hvalue, h⟩ := exists_of_bind_eq_ok h
  dsimp only at h
  split at h
  · cases h
    exact (decoded_of_read _).1 hvalue
  · cases h

end Json

end Motif
