import Motif.Proofs.Positions
import Mathlib

/-!
# Paths into the datum

An array whose contents fail reports the position in its list. Read from the outside in, these
reports lead into the datum: at the position that one of them gives there is the list of the next
one, and where the next entry is of another sort, that entry has been placed at the position.

No tuples may be among the data. There is one empty tuple only, and an array that fails at the end
of it would be taken for the array around it.
-/

namespace Motif

open Failure (Entry)

section

variable {H : Predicates}

/-! ### Data without tuples -/

@[simp] lemma Value.not_within_nil (v : Value) : ¬ v.Within [] := by
  intro h
  cases h with
  | item h => cases h
  | inside h _ => cases h

lemma Value.within_cons_iff {v w : Value} {items : List Value} :
    v.Within (w :: items) ↔
      v = w ∨ (∃ shape inner, w = .seq shape inner ∧ v.Within inner) ∨ v.Within items := by
  constructor
  · intro h
    cases h with
    | item h => exact (List.mem_cons.mp h).imp_right fun h => .inr (.item h)
    | inside h hv =>
      rcases List.mem_cons.mp h with rfl | h
      · exact .inr (.inl ⟨_, _, rfl, hv⟩)
      · exact .inr (.inr (.inside h hv))
  · rintro (rfl | ⟨shape, inner, rfl, hv⟩ | h)
    · exact .item List.mem_cons_self
    · exact .inside List.mem_cons_self hv
    · exact h.mono (List.subset_cons_self w items)

/-- An input is a list without tuples in it. -/
structure Input.TupleFree (input : Input) : Prop where
  shape : input.shape = .list
  items : ∀ items, ¬ (Value.tuple items).Within input.items

namespace Input.TupleFree

variable {input : Input}

lemma drop (h : input.TupleFree) (n : Nat) : (input.drop n).TupleFree :=
  ⟨h.shape, fun items hwithin => h.items items (hwithin.mono (List.drop_subset n input.items))⟩

/-- A list among the items is without tuples as well. -/
lemma inside (h : input.TupleFree) {shape : Shape} {inner : List Value}
    (hmem : .seq shape inner ∈ input.items) : Input.TupleFree ⟨shape, inner⟩ := by
  refine ⟨?_, fun items hwithin => h.items items (.inside hmem hwithin)⟩
  cases shape with
  | list => rfl
  | tuple => exact absurd (.item hmem) (h.items inner)

lemma speaksOf_eq_false (h : input.TupleFree) (f : Failure) :
    Landing.speaksOf input f = false := by
  obtain ⟨shape, items⟩ := input
  obtain rfl : shape = .list := h.shape
  simp [Landing.speaksOf, isEmptyTuple]

end Input.TupleFree

/-- Whoever is asked about a failure searches an input without tuples, if any. -/
def Origin.TupleFree : Origin → Prop
  | .search _ input | .attempt _ input | .best _ input => input.TupleFree
  | .outside => True

/-! ### Paths -/

namespace Failure.Entry

/-- An entry is the report of an array on the contents of its list. -/
def OnPath (e : Entry) : Prop := e.matcher = .array ∧ e.reason = .unexpectedInput

/-- An entry gives a position in the list that it is about. There is the list of the next entry, if
that is the report of an array on its contents as well; any other entry has been placed there. -/
def Points (e : Entry) (next : Option Entry) : Prop :=
  ∃ items, e.fragment = .list items ∧ 0 ≤ e.offset ∧ e.offset ≤ items.length ∧
    ∀ c ∈ next, (c.OnPath → items[e.offset.toNat]? = some c.fragment) ∧
      (¬ c.OnPath → c.located = true ∧ c.offset = e.offset)

end Failure.Entry

/-- Every report of an array on its contents points to the next entry. -/
def Spells : List Entry → Prop
  | [] => True
  | e :: causes => (e.OnPath → e.Points causes.head?) ∧ Spells causes

lemma Spells.points {chain before after : List Entry} {e : Entry} (h : Spells chain)
    (hchain : chain = before ++ e :: after) (he : e.OnPath) : e.Points after.head? := by
  subst hchain
  induction before with
  | nil => exact h.1 he
  | cons a before ih => exact ih h.2

/-! ### Single reports -/

lemma Matcher.Complains.not_onPath {matcher : Matcher} {input : Input} {f : Failure}
    (h : matcher.Complains input f) : ¬ f.top.OnPath := by
  induction h with
  | exact _ ih => exact ih
  | _ => nofun

lemma Matcher.GivesUp.not_onPath {matcher : Matcher} {input : Input} {best f : Failure}
    (h : matcher.GivesUp input best f) : ¬ f.top.OnPath := by
  induction h with
  | exact _ ih => exact ih
  | _ => nofun

lemma spells_report {f : Failure} {chain : List Entry} (h : ¬ f.top.OnPath)
    (hcauses : f.causes = chain) (hchain : Spells chain) : Spells f.chain :=
  ⟨fun he => absurd he h, by rwa [hcauses]⟩

/-! ### Failures of searches -/

/-- How the chain of a search's own failure starts: with the report of an array on the list at the
head of the input, or with an entry that counts from the start of the input. -/
def Starts (f : Failure) : Origin → Prop
  | .search _ input =>
    f.top.OnPath ∧ f.top.located = true ∧ input.items.head? = some f.top.fragment ∨
      ¬ f.top.OnPath ∧ f.top.located = false ∧ 0 ≤ f.top.offset ∧
        f.top.offset ≤ input.items.length
  | _ => True

section

variable {matcher : Matcher} {whole input : Input} {offset : Nat} {f : Failure}

lemma starts_of_stands (h : ¬ f.top.OnPath)
    (hstands : f.top.located = false ∧ f.top.Stands input.items) :
    Starts f (.search matcher input) :=
  .inr ⟨h, hstands.1, hstands.2.nonneg, hstands.2.le⟩

lemma spells_leftoverAt (hwhole : whole.TupleFree) (hoffset : offset < whole.items.length) :
    Spells (Landing.leftoverAt whole offset).chain := by
  obtain ⟨shape, items⟩ := whole
  obtain rfl : shape = .list := hwhole.shape
  refine ⟨fun _ => ⟨items, rfl, Int.natCast_nonneg offset, ?_, nofun⟩, trivial⟩
  exact Int.ofNat_le.mpr (Nat.le_of_lt hoffset)

/-- Placing a failure in a list changes no entry that is on the path. -/
lemma spells_relocate (h : Spells f.chain) (hstarts : Starts f (.search matcher input)) :
    Spells (f.relocate offset).chain := by
  rcases hstarts with ⟨-, hlocated, -⟩ | ⟨hoff, hlocated, -⟩
  · rw [Failure.relocate_of_located hlocated]
    exact h
  · refine spells_report ?_ (Failure.relocate_causes _ _) h.2
    rw [Failure.top_relocate hlocated]
    exact hoff

/-- The position that an array gives for the failure of an element is one of its list, and there is
what the failure starts with. -/
lemma points_inArray (hwhole : whole.TupleFree) (hoffset : offset ≤ whole.items.length)
    (hstarts : Starts f (.search matcher (whole.drop offset))) :
    Entry.Points ⟨.array, .unexpectedInput, whole.toValue,
      if f.top.located then offset else offset + f.top.offset, true⟩
      (some (f.relocate offset).top) := by
  obtain ⟨shape, items⟩ := whole
  obtain rfl : shape = .list := hwhole.shape
  dsimp only at hoffset
  rcases hstarts with ⟨hon, hlocated, hhead⟩ | ⟨hoff, hlocated, hnonneg, hle⟩
  · rw [Failure.relocate_of_located hlocated, if_pos hlocated]
    refine ⟨items, rfl, Int.natCast_nonneg offset, Int.ofNat_le.mpr hoffset, ?_⟩
    rintro _ ⟨⟩
    refine ⟨fun _ => ?_, fun hoff => absurd hon hoff⟩
    rw [← hhead]
    exact List.head?_drop.symm
  · rw [Failure.top_relocate hlocated, if_neg (by rw [hlocated]; nofun)]
    rw [Input.drop, List.length_drop] at hle
    dsimp only at hle
    refine ⟨items, rfl, by dsimp only; omega, by dsimp only; omega, ?_⟩
    rintro _ ⟨⟩
    exact ⟨fun hon => absurd hon hoff, fun _ => ⟨rfl, rfl⟩⟩

lemma spells_inArray (hwhole : whole.TupleFree) (hoffset : offset ≤ whole.items.length)
    (h : Spells f.chain) (hstarts : Starts f (.search matcher (whole.drop offset))) :
    Spells (f.inArray whole offset).chain ∧
      (f.inArray whole offset).top.OnPath ∧ (f.inArray whole offset).top.located = true ∧
        (f.inArray whole offset).top.fragment = whole.toValue := by
  rw [Failure.inArray, hwhole.speaksOf_eq_false, if_neg Bool.false_ne_true]
  exact ⟨⟨fun _ => points_inArray hwhole hoffset hstarts, spells_relocate h hstarts⟩,
    ⟨rfl, rfl⟩, rfl, rfl⟩

end

/-- In every failure that a search of data without tuples comes to, the reports of arrays point to
what follows them. -/
theorem Arises.spells {ran : Matcher → Prop} {lists : List Input} {origin : Origin} {f : Failure}
    {seen : List Event} (h : Arises ran lists origin f seen)
    (hlists : ∀ whole ∈ lists, whole.TupleFree) (horigin : origin.TupleFree) :
    Spells f.chain ∧ Starts f origin := by
  induction h with
  | complaint _ h =>
    exact ⟨spells_report h.not_onPath h.causes_eq_nil trivial,
      starts_of_stands h.not_onPath h.stands⟩
  | ceiling =>
    exact ⟨⟨nofun, trivial⟩, .inr ⟨nofun, rfl, Int.le_refl 0, Int.natCast_nonneg _⟩⟩
  | gaveUp _ _ h ih =>
    obtain ⟨hcauses, hlocated, hstands, -⟩ := h.stands
    exact ⟨spells_report h.not_onPath hcauses (ih hlists horigin).1,
      starts_of_stands h.not_onPath ⟨hlocated, hstands⟩⟩
  | leftover hoffset =>
    have hinner := horigin.inside List.mem_cons_self
    exact ⟨spells_leftoverAt hinner hoffset, .inl ⟨⟨rfl, rfl⟩, rfl, rfl⟩⟩
  | array hoffset _ ih =>
    have hinner := horigin.inside List.mem_cons_self
    obtain ⟨hspells, hstarts⟩ :=
      ih (List.forall_mem_cons.mpr ⟨hinner, hlists⟩) (hinner.drop _)
    obtain ⟨hspells', hon, hlocated, hfragment⟩ := spells_inArray hinner hoffset hspells hstarts
    exact ⟨hspells', .inl ⟨hon, hlocated, congrArg some hfragment.symm⟩⟩
  | letrec _ ih => exact ih hlists horigin
  | reference _ ih => exact ih hlists horigin
  | alternative _ _ ih => exact ⟨(ih hlists horigin).1, trivial⟩
  | fallsShort => exact ⟨⟨nofun, trivial⟩, trivial⟩
  | answer _ ih => exact ⟨(ih hlists trivial).1, trivial⟩
  | first _ ih => exact ih hlists horigin
  | better _ _ ihbest ih =>
    rw [Failure.better]
    split
    · exact ih hlists horigin
    · exact ihbest hlists horigin
  | leftoverLater hoffset =>
    exact ⟨spells_leftoverAt (hlists _ List.mem_cons_self) hoffset, trivial⟩
  | later _ _ ih =>
    obtain ⟨hspells, hstarts⟩ := ih hlists ((hlists _ List.mem_cons_self).drop _)
    exact ⟨spells_relocate hspells hstarts, trivial⟩
  | beyond _ ih =>
    exact ⟨(ih (List.forall_mem_cons.mp hlists).2 trivial).1, trivial⟩

/-! ### Failures of matches -/

section

variable {limits : Limits} {matcher : Matcher} {datum : Value} {f : Failure}

lemma spells_of_outcome (hdatum : ∀ items, ¬ (Value.tuple items).Within [datum])
    (h : matcher.outcome limits datum = .ok (.failure f)) :
    Spells f.chain ∧ (f.top.OnPath → f.top.fragment = datum) := by
  rcases Matcher.arises_of_outcome h with harises | ⟨-, kind, rfl⟩
  · obtain ⟨hspells, hstarts⟩ := harises.spells nofun ⟨rfl, hdatum⟩
    refine ⟨hspells, fun hon => ?_⟩
    rcases hstarts with ⟨-, -, hhead⟩ | ⟨hoff, -⟩
    · exact (Option.some.inj hhead).symm
    · exact absurd hon hoff
  · exact ⟨⟨nofun, trivial⟩, nofun⟩

/-- The reports of arrays spell a path into the datum, if there are no tuples in it: in the chain of
every failed match each of them gives a position in its list, at which there is the list of the next
one, if that comes next, and at which the next entry has been placed, if it is of another sort. -/
theorem Matcher.points_of_outcome (hdatum : ∀ items, ¬ (Value.tuple items).Within [datum])
    (h : matcher.outcome limits datum = .ok (.failure f)) {before after : List Entry} {e : Entry}
    (hchain : f.chain = before ++ e :: after) (he : e.OnPath) : e.Points after.head? :=
  (spells_of_outcome hdatum h).1.points hchain he

end

end

/-- A list in a list, and a segment in it that has grown up to the end. -/
theorem Matcher.points_of_outcome_inner :
    let name : Text := [.char 'x']
    let inner : Value := .list [.int 2, .int 4]
    let items : List Value := [.int 1, inner]
    let matcher : Matcher := .array [.constant (.int 1),
      .array [.segment name none, .constant (.int 3)]]
    let a : Entry := ⟨.array, .unexpectedInput, .list items, 1, true⟩
    let e : Entry := ⟨.array, .unexpectedInput, inner, 2, true⟩
    let causes : List Entry := [⟨.segment, .indexOutOfRange, inner, 2, true⟩,
      ⟨.constant, .unexpectedValue, .tuple [.int 4, .int 3], 1, true⟩]
    (∀ items', ¬ (Value.tuple items').Within [.list items]) ∧
      matcher.outcome {} (.list items) = .ok (.failure ⟨a, e :: causes⟩) ∧
      a.OnPath ∧ a.Points (some e) := by
  intro name inner items matcher a e causes
  have hdatum (items' : List Value) : ¬ (Value.tuple items').Within [.list items] := by
    simp [items, inner, Value.within_cons_iff]
  have houtcome : matcher.outcome {} (.list items) = .ok (.failure ⟨a, e :: causes⟩) := by
    dsimp only [matcher, name, items, inner, a, e, causes]
    cbv
  have hpoints := Matcher.points_of_outcome hdatum houtcome
    (show _ = [] ++ a :: e :: causes from rfl) ⟨rfl, rfl⟩
  exact ⟨hdatum, houtcome, ⟨rfl, rfl⟩, hpoints⟩

/-! ### Positions in a value -/

/-- What stands at a path of positions in a value. -/
def Value.at? : Value → List Nat → Option Value
  | v, [] => some v
  | v, n :: path => do
    let items ← v.items?
    let item ← items[n]?
    item.at? path

lemma exists_head_onPath {before : List Entry} {e : Entry} (after : List Entry)
    (hpath : ∀ b ∈ before ++ [e], b.OnPath) :
    ∃ c, (before ++ e :: after).head? = some c ∧ c.OnPath := by
  cases before with
  | nil => exact ⟨e, rfl, hpath e List.mem_cons_self⟩
  | cons b before => exact ⟨b, rfl, hpath b List.mem_cons_self⟩

lemma Spells.at?_eq {a e : Entry} {before after : List Entry} (h : Spells (before ++ e :: after))
    (hpath : ∀ b ∈ before ++ [e], b.OnPath) (ha : (before ++ e :: after).head? = some a) :
    a.fragment.at? (before.map (·.offset.toNat)) = some e.fragment := by
  induction before generalizing a with
  | nil =>
    cases ha
    rfl
  | cons b before ih =>
    cases ha
    obtain ⟨hon, hpath⟩ := List.forall_mem_cons.mp hpath
    obtain ⟨items, hfragment, -, -, hnext⟩ := h.1 hon
    -- The next entry is the report of an array as well, so it is about the item at the offset.
    obtain ⟨c, hc, honc⟩ := exists_head_onPath after hpath
    have hitem : items[b.offset.toNat]? = some c.fragment := (hnext c hc).1 honc
    have hat := ih h.2 hpath hc
    rw [List.map_cons, Value.at?, hfragment]
    simpa [Value.items?, hitem] using hat

/-- The offsets of the arrays at the start of a chain are the way through the datum to the list of
the last of them. -/
theorem Matcher.at?_of_outcome [Predicates] {limits : Limits} {matcher : Matcher} {datum : Value}
    {f : Failure} (hdatum : ∀ items, ¬ (Value.tuple items).Within [datum])
    (h : matcher.outcome limits datum = .ok (.failure f)) {before after : List Entry} {e : Entry}
    (hchain : f.chain = before ++ e :: after) (hpath : ∀ a ∈ before ++ [e], a.OnPath) :
    datum.at? (before.map (·.offset.toNat)) = some e.fragment := by
  obtain ⟨hspells, htop⟩ := spells_of_outcome hdatum h
  obtain ⟨c, hc, hon⟩ := exists_head_onPath after hpath
  rw [← hchain] at hc
  cases hc
  rw [← htop hon]
  exact (hchain ▸ hspells).at?_eq hpath (by rw [← hchain]; rfl)

end Motif
