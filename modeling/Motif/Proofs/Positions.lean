import Motif.Proofs.Origins
import Mathlib

/-!
# Where failures stand

Inside of an array a report is moved to its position in the array's list. This holds of the reports
that come back to an array, and so of all entries of a chain but two sorts: what a choice keeps of
its alternatives may still count from where the choice stands, and what a segment keeps of falling
short of the end of its list from where the segment starts.
-/

namespace Motif

open Failure (Entry)

section

variable {H : Predicates}

namespace Failure.Entry

/-- The item that an entry is about, if it is about one. -/
def item? (e : Entry) : Option Value :=
  match e.reason, e.matcher with
  | .restrictionNotSatisfied, _ | .unexpectedValue, .array => some e.fragment
  | .unexpectedValue, _ | .bindingConflict, _ => e.fragment.items?.bind (·.head?)
  | _, _ => none

/-- Whether an entry is about the end of a list. -/
def atEnd (e : Entry) : Bool :=
  match e.reason with
  | .unexpectedEnd | .indexOutOfRange => true
  | _ => false

/-- The items that are left of a list where an entry stands, if the entry shows them. -/
def left? (e : Entry) : Option (List Value) :=
  if e.reason = .noAlternative then e.fragment.items? else none

/-- The list that an entry is about, if it is a report of an array on a list. -/
def list? (e : Entry) : Option (List Value) :=
  if e.matcher = .array then e.fragment.items? else none

/-- An entry gives a position of `items`, at which there is what it is about: an item, the end, or
the items that it shows. -/
structure Stands (items : List Value) (e : Entry) : Prop where
  nonneg : 0 ≤ e.offset
  le : e.offset ≤ items.length
  item : ∀ v, e.item? = some v → items[e.offset.toNat]? = some v
  ends : e.atEnd = true → e.offset = items.length
  left : ∀ others, e.left? = some others → items.drop e.offset.toNat = others

/-- An entry has been placed, in one of `lists` or in the list that it is about. -/
def Placed (lists : List (List Value)) (e : Entry) : Prop :=
  e.located = true ∧ ∃ items ∈ e.list?.toList ++ lists, e.Stands items

/-- An entry is a failed alternative below the report of its choice, and counts from the same place
as the choice. -/
def Alternative (e c : Entry) : Prop :=
  e.matcher = .choice ∧ c.located = false ∧
    ∃ items, e.fragment.items? = some items ∧ c.Stands items

/-- An entry says below the report of a segment that the segment fell short of the end of a list,
and counts from where the segment starts. -/
def Short (e c : Entry) : Prop :=
  e.matcher = .segment ∧ c.located = false ∧ c.reason = .keepTrying ∧
    ∃ items, c.fragment.items? = some items ∧ c.Stands items

lemma Placed.mono {lists lists' : List (List Value)} {e : Entry} (h : e.Placed lists)
    (hsub : e.list?.toList ++ lists ⊆ e.list?.toList ++ lists') : e.Placed lists' := by
  obtain ⟨hlocated, items, hitems, hstands⟩ := h
  exact ⟨hlocated, items, hsub hitems, hstands⟩

lemma Stands.of_report {items : List Value} {e : Entry} {n : Nat} (hoffset : e.offset = n)
    (hn : n ≤ items.length) (hitem : ∀ v, e.item? = some v → items[n]? = some v)
    (hend : e.atEnd = true → n = items.length)
    (hleft : ∀ others, e.left? = some others → items.drop n = others) : e.Stands items := by
  refine ⟨by omega, by omega, ?_, fun h => ?_, ?_⟩
  · rw [hoffset]
    exact hitem
  · rw [hoffset, hend h]
  · rw [hoffset]
    exact hleft

/-- The report of an array stands at every position of its list. -/
lemma stands_unexpectedInput {whole : Input} {position : Int} {located : Bool}
    (hnonneg : 0 ≤ position) (hle : position ≤ whole.items.length) :
    Stands whole.items ⟨.array, .unexpectedInput, whole.toValue, position, located⟩ :=
  ⟨hnonneg, hle, nofun, nofun, nofun⟩

end Failure.Entry

/-! ### Chains -/

/-- All entries below `e` are placed, or are of one of the two sorts that stay where they are.
`lists` are the lists of the arrays around the whole chain. -/
def Below : List (List Value) → Entry → List Entry → Prop
  | _, _, [] => True
  | lists, e, c :: causes =>
    (c.Placed (e.list?.toList ++ lists) ∨ e.Alternative c ∨ e.Short c) ∧
      Below (e.list?.toList ++ lists) c causes

lemma Below.mono {lists lists' : List (List Value)} {e : Entry} {causes : List Entry}
    (h : Below lists e causes) (hsub : e.list?.toList ++ lists ⊆ e.list?.toList ++ lists') :
    Below lists' e causes := by
  induction causes generalizing lists lists' e with
  | nil => trivial
  | cons c causes ih =>
    have hinner : c.list?.toList ++ (e.list?.toList ++ lists) ⊆
        c.list?.toList ++ (e.list?.toList ++ lists') :=
      List.append_subset.mpr ⟨List.subset_append_left _ _, fun items hitems =>
        List.mem_append_right _ (hsub hitems)⟩
    exact ⟨h.1.imp_left fun hplaced => hplaced.mono hinner, ih h.2 hinner⟩

/-- Every entry of a chain below the first stands in a list that the chain names before or with it,
or is of one of the two sorts that stay where they are. -/
lemma Below.stands {lists : List (List Value)} {first e c : Entry}
    {causes before after : List Entry} (h : Below lists first causes)
    (hchain : first :: causes = before ++ e :: c :: after) :
    (c.located = true ∧ ((∃ items ∈ lists, c.Stands items) ∨
      ∃ a ∈ before ++ [e, c], ∃ items, a.list? = some items ∧ c.Stands items)) ∨
      e.Alternative c ∨ e.Short c := by
  induction before generalizing lists first causes with
  | nil =>
    obtain ⟨rfl, rfl⟩ := List.cons.inj hchain
    rcases h.1 with ⟨hlocated, items, hitems, hstands⟩ | h
    · refine .inl ⟨hlocated, ?_⟩
      rcases List.mem_append.mp hitems with hc | hitems
      · exact .inr ⟨c, by simp, items, Option.mem_toList.mp hc, hstands⟩
      · rcases List.mem_append.mp hitems with he | hitems
        · exact .inr ⟨first, by simp, items, Option.mem_toList.mp he, hstands⟩
        · exact .inl ⟨items, hitems, hstands⟩
    · exact .inr h
  | cons b before ih =>
    have hfirst : first = b := (List.cons.inj hchain).1
    have hrest : causes = before ++ e :: c :: after := (List.cons.inj hchain).2
    cases causes with
    | nil => simp at hrest
    | cons next causes =>
      rcases ih h.2 hrest with ⟨hlocated, hstands⟩ | hother
      · refine .inl ⟨hlocated, ?_⟩
        rcases hstands with ⟨items, hitems, hstands⟩ | ⟨a, ha, hstands⟩
        · rcases List.mem_append.mp hitems with hlist | hitems
          · refine .inr ⟨b, List.mem_cons_self, items, ?_, hstands⟩
            rw [← hfirst]
            exact Option.mem_toList.mp hlist
          · exact .inl ⟨items, hitems, hstands⟩
        · exact .inr ⟨a, List.mem_cons_of_mem _ ha, hstands⟩
      · exact .inr hother

/-! ### Single reports -/

lemma Matcher.Complains.causes_eq_nil {matcher : Matcher} {input : Input} {f : Failure}
    (h : matcher.Complains input f) : f.causes = [] := by
  induction h with
  | exact _ ih => exact ih
  | _ => rfl

/-- A report counts from the start of the input of its matcher. -/
lemma Matcher.Complains.stands {matcher : Matcher} {input : Input} {f : Failure}
    (h : matcher.Complains input f) : f.top.located = false ∧ f.top.Stands input.items := by
  have hhead {item : Value} {others : List Value} (hitems : input.items = item :: others) :
      input.items[0]? = some item := by
    rw [hitems, List.getElem?_cons_zero]
  induction h with
  | constantEnd hitems | elementEnd hitems | arrayEnd hitems =>
    exact ⟨rfl, .of_report (n := 0) rfl (Nat.zero_le _) nofun
      (fun _ => by rw [hitems, List.length_nil]) nofun⟩
  | noAlternatives =>
    refine ⟨rfl, .of_report (n := 0) rfl (Nat.zero_le _) nofun nofun ?_⟩
    rintro others ⟨⟩
    rfl
  | notFound => exact ⟨rfl, .of_report (n := 0) rfl (Nat.zero_le _) nofun nofun nofun⟩
  | segmentEnd => exact ⟨rfl, .of_report rfl (Nat.le_refl _) nofun (fun _ => rfl) nofun⟩
  | fallsShort _ hn => exact ⟨rfl, .of_report rfl (Nat.le_of_lt hn) nofun nofun nofun⟩
  | unequal hitems _ | elementRefused hitems _ | elementConflict hitems | noList hitems _ =>
    refine ⟨rfl, .of_report (n := 0) rfl (Nat.zero_le _) ?_ nofun nofun⟩
    rintro v ⟨⟩
    exact hhead hitems
  | segmentRefused hitem _ | segmentConflict hitem =>
    have hn := (List.getElem?_eq_some_iff.mp hitem).1
    refine ⟨rfl, .of_report rfl (Nat.le_of_lt hn) ?_ nofun nofun⟩
    rintro v ⟨⟩
    exact hitem
  | exact _ ih => exact ih

/-- A report on attempts counts from the start of the input as well and names its matcher, and that
of a choice shows the input. -/
lemma Matcher.GivesUp.stands {matcher : Matcher} {input : Input} {best f : Failure}
    (h : matcher.GivesUp input best f) :
    f.causes = best.chain ∧ f.top.located = false ∧ f.top.Stands input.items ∧
      f.top.list? = none ∧ matcher.kind? = some f.top.matcher ∧
      (f.top.matcher = .choice → f.top.fragment.items? = some input.items) := by
  induction h with
  | refused hitem _ =>
    have hn := (List.getElem?_eq_some_iff.mp hitem).1
    refine ⟨rfl, rfl, .of_report rfl (Nat.le_of_lt hn) ?_ nofun nofun, rfl, rfl, nofun⟩
    rintro v ⟨⟩
    exact hitem
  | segmentEnd | restEnd =>
    exact ⟨rfl, rfl, .of_report rfl (Nat.le_refl _) nofun (fun _ => rfl) nofun, rfl, rfl, nofun⟩
  | exact _ ih => exact ih
  | noAlternative =>
    refine ⟨rfl, rfl, .of_report (n := 0) rfl (Nat.zero_le _) nofun nofun ?_, rfl, rfl,
      fun _ => rfl⟩
    rintro others ⟨⟩
    rfl

/-! ### Relocation -/

namespace Failure

variable {f : Failure} {offset : Nat} {lists : List (List Value)}

lemma relocate_of_located (h : f.top.located = true) : f.relocate offset = f := by
  rw [relocate, if_pos h]

lemma top_relocate (h : f.top.located = false) : (f.relocate offset).top =
    { f.top with offset := offset + f.top.offset, located := true } := by
  rw [relocate, h]
  rfl

variable (offset) in
lemma below_relocate (h : Below lists f.top f.causes) :
    Below lists (f.relocate offset).top (f.relocate offset).causes := by
  cases hlocated : f.top.located with
  | true =>
    rw [relocate_of_located hlocated]
    exact h
  | false =>
    rw [relocate_causes, top_relocate hlocated]
    cases hcauses : f.causes with
    | nil => trivial
    | cons c causes =>
      rw [hcauses] at h
      exact ⟨h.1, h.2⟩

/-- What counts from `offset` on stands in the whole list once it is relocated. -/
lemma stands_relocate {items : List Value} (h : f.top.located = false)
    (hoffset : offset ≤ items.length) (hstands : f.top.Stands (items.drop offset)) :
    (f.relocate offset).top.Stands items := by
  obtain ⟨hnonneg, hle, hitem, hend, hleft⟩ := hstands
  rw [List.length_drop] at hle hend
  have hposition : (offset + f.top.offset).toNat = offset + f.top.offset.toNat := by omega
  rw [top_relocate h]
  refine ⟨by dsimp only; omega, by dsimp only; omega, ?_, ?_, ?_⟩
  · intro v hv
    have hthere := hitem v hv
    rw [List.getElem?_drop] at hthere
    rw [← hthere, ← hposition]
  · intro hatEnd
    have hlength := hend hatEnd
    dsimp only
    omega
  · intro others hothers
    have hthere := hleft others hothers
    rw [List.drop_drop] at hthere
    rw [← hthere, ← hposition]

end Failure

/-! ### Failures of searches -/

/-- Where the first entry of a failure stands: in the input of the search that reports it, or in the
list of an array. Below a choice, and where a segment fell short, it need not have been placed. -/
def Standing (lists : List (List Value)) (f : Failure) : Origin → Prop
  | .search _ input => f.top.Placed lists ∨ f.top.located = false ∧ f.top.Stands input.items
  | .attempt matcher input | .best matcher input =>
    f.top.Placed lists ∨ f.top.located = false ∧ f.top.Stands input.items ∧
      (matcher.kind? = some .choice ∨
        matcher.kind? = some .segment ∧ f.top.reason = .keepTrying ∧
          f.top.fragment.items? = some input.items)
  | .outside => f.top.Placed lists

section

variable {lists : List (List Value)} {matcher : Matcher} {whole : Input} {offset : Nat}
  {f : Failure}

/-- An array places the failures of its elements in its list. -/
lemma placed_relocate (hoffset : offset ≤ whole.items.length)
    (h : Standing (whole.items :: lists) f (.search matcher (whole.drop offset))) :
    (f.relocate offset).top.Placed (whole.items :: lists) := by
  rcases h with hplaced | ⟨hlocated, hstands⟩
  · rw [Failure.relocate_of_located hplaced.1]
    exact hplaced
  · refine ⟨?_, whole.items, List.mem_append_right _ List.mem_cons_self,
      Failure.stands_relocate hlocated hoffset hstands⟩
    rw [Failure.top_relocate hlocated]

lemma placed_leftoverAt (hoffset : offset < whole.items.length) :
    (Landing.leftoverAt whole offset).top.Placed lists := by
  refine ⟨rfl, whole.items, List.mem_append_left _ (by exact List.mem_cons_self), ?_⟩
  exact Entry.stands_unexpectedInput (by omega) (by omega)

/-- What speaks of an array's list names it. -/
lemma list?_of_speaksOf (h : Landing.speaksOf whole f = true) : f.top.list? = some whole.items := by
  obtain ⟨shape, items⟩ := whole
  simp only [Landing.speaksOf, Bool.and_eq_true, beq_iff_eq] at h
  obtain ⟨⟨hmatcher, hempty⟩, hfragment⟩ := h
  have hitems : items = [] := by
    cases shape with
    | list => cases hempty
    | tuple =>
      cases items with
      | nil => rfl
      | cons item items => cases hempty
  rw [Entry.list?, if_pos hmatcher, hitems]
  split at hfragment
  · rename_i hempty'
    rw [hempty']
    rfl
  · cases hfragment

/-- The failure of an array is placed, and all below it is. -/
lemma standing_inArray (hoffset : offset ≤ whole.items.length)
    (hbelow : Below (whole.items :: lists) f.top f.causes)
    (hstanding : Standing (whole.items :: lists) f (.search matcher (whole.drop offset))) :
    Below lists (f.inArray whole offset).top (f.inArray whole offset).causes ∧
      (f.inArray whole offset).top.Placed lists := by
  have hbelow' := Failure.below_relocate offset hbelow
  have hplaced := placed_relocate hoffset hstanding
  unfold Failure.inArray
  split
  · rename_i hspeaks
    have hsub : (f.relocate offset).top.list?.toList ++ whole.items :: lists ⊆
        (f.relocate offset).top.list?.toList ++ lists := by
      rw [list?_of_speaksOf hspeaks]
      simp
    exact ⟨hbelow'.mono hsub, hplaced.mono hsub⟩
  · refine ⟨⟨.inl hplaced, hbelow'⟩, rfl, whole.items,
      List.mem_append_left _ (by exact List.mem_cons_self), ?_⟩
    cases hlocated : f.top.located with
    | true =>
      rw [if_pos rfl]
      exact Entry.stands_unexpectedInput (by omega) (by omega)
    | false =>
      rw [if_neg Bool.false_ne_true]
      rcases hstanding with hplaced' | ⟨-, hstands⟩
      · rw [hplaced'.1] at hlocated
        cases hlocated
      · have hnonneg := hstands.nonneg
        have hle := hstands.le
        rw [Input.drop, List.length_drop] at hle
        exact Entry.stands_unexpectedInput (by omega) (by omega)

end

/-- In every failure that a search comes to, all entries are placed but those of the two sorts that
stay where they are. -/
theorem Arises.standing {ran : Matcher → Prop} {lists : List Input} {origin : Origin} {f : Failure}
    {seen : List Event} (h : Arises ran lists origin f seen) :
    Below (lists.map Input.items) f.top f.causes ∧
      Standing (lists.map Input.items) f origin := by
  induction h with
  | complaint _ h =>
    rw [h.causes_eq_nil]
    exact ⟨trivial, .inr h.stands⟩
  | ceiling =>
    exact ⟨trivial, .inr ⟨rfl, .of_report (n := 0) rfl (Nat.zero_le _) nofun nofun nofun⟩⟩
  | @gaveUp _ _ input _ _ _ _ _ h ih =>
    obtain ⟨hbelow, hstanding⟩ := ih
    obtain ⟨hcauses, hlocated, hstands, hlist, hkind, hchoice⟩ := h.stands
    rw [Standing, hkind] at hstanding
    rw [hcauses]
    refine ⟨⟨?_, ?_⟩, .inr ⟨hlocated, hstands⟩⟩
    · rw [hlist]
      rcases hstanding with hplaced | ⟨hlocated', hstands', hmatcher | ⟨hmatcher, hshort⟩⟩
      · exact .inl hplaced
      · have hmatcher' := Option.some.inj hmatcher
        exact .inr (.inl ⟨hmatcher', hlocated', input.items, hchoice hmatcher', hstands'⟩)
      · exact .inr (.inr ⟨Option.some.inj hmatcher, hlocated', hshort.1, input.items, hshort.2,
          hstands'⟩)
    · rw [hlist]
      exact hbelow
  | leftover hoffset => exact ⟨trivial, .inl (placed_leftoverAt hoffset)⟩
  | array hoffset _ ih =>
    obtain ⟨hbelow, hplaced⟩ := standing_inArray hoffset ih.1 ih.2
    exact ⟨hbelow, .inl hplaced⟩
  | letrec _ ih => exact ih
  | reference _ ih => exact ih
  | alternative _ _ ih =>
    exact ⟨ih.1, ih.2.imp_right fun hstands => ⟨hstands.1, hstands.2, .inl rfl⟩⟩
  | fallsShort hn =>
    exact ⟨trivial, .inr ⟨rfl, .of_report rfl (Nat.le_of_lt hn) nofun nofun nofun,
      .inr ⟨rfl, rfl, rfl⟩⟩⟩
  | answer _ ih => exact ⟨ih.1, .inl ih.2⟩
  | first _ ih => exact ih
  | better _ _ ihbest ih =>
    rw [Failure.better]
    split
    · exact ih
    · exact ihbest
  | leftoverLater hoffset => exact ⟨trivial, placed_leftoverAt hoffset⟩
  | later hoffset _ ih =>
    exact ⟨Failure.below_relocate _ ih.1, placed_relocate hoffset ih.2⟩
  | beyond _ ih =>
    have hsub (items : List (List Value)) (more : List Value) (lists : List (List Value)) :
        items ++ lists ⊆ items ++ more :: lists :=
      List.append_subset.mpr ⟨List.subset_append_left _ _, fun a ha =>
        List.mem_append_right _ (List.mem_cons_of_mem _ ha)⟩
    exact ⟨ih.1.mono (hsub _ _ _), ih.2.mono (hsub _ _ _)⟩

/-- In the chain of every failed match each entry below the first is marked as located and gives a
position in the list of an array that the chain names, at which there is what the entry is about.
There are two exceptions. What a choice keeps of its alternatives may count from where the choice
stands, and what a segment keeps of falling short of the end of its list from where the segment
starts. -/
theorem Matcher.stands_of_outcome {limits : Limits} {matcher : Matcher} {datum : Value}
    {f : Failure} (h : matcher.outcome limits datum = .ok (.failure f))
    {before after : List Entry} {e c : Entry} (hchain : f.chain = before ++ e :: c :: after) :
    (c.located = true ∧ ∃ a ∈ before ++ [e, c], ∃ items, a.list? = some items ∧ c.Stands items) ∨
      e.Alternative c ∨ e.Short c := by
  rcases Matcher.arises_of_outcome h with harises | ⟨-, kind, rfl⟩
  · have hstands := harises.standing.1.stands hchain
    simpa using hstands
  · have hlength := congrArg List.length hchain
    rw [Failure.chain_report] at hlength
    simp at hlength
    omega

end

/-- Filler that has been tried at every length before an item that is not there. -/
theorem Matcher.stands_of_outcome_filler :
    let items : List Value := [.int 1, .int 3]
    let a : Entry := ⟨.array, .unexpectedInput, .list items, 2, true⟩
    let e : Entry := ⟨.rest, .indexOutOfRange, .list items, 2, true⟩
    let c : Entry := ⟨.constant, .unexpectedValue, .tuple [.int 3, .int 2], 1, true⟩
    (Matcher.array [.rest, .constant (.int 2)]).outcome {} (.list items) =
        .ok (.failure ⟨a, [e, c]⟩) ∧
      ((c.located = true ∧ ∃ b ∈ [a] ++ [e, c], ∃ items, b.list? = some items ∧ c.Stands items) ∨
        e.Alternative c ∨ e.Short c) := by
  intro items a e c
  have houtcome : (Matcher.array [.rest, .constant (.int 2)]).outcome {} (.list items) =
      .ok (.failure ⟨a, [e, c]⟩) := by
    dsimp only [a, e, c, items]
    cbv
  exact ⟨houtcome, Matcher.stands_of_outcome houtcome (show _ = [a] ++ e :: c :: [] from rfl)⟩

/-- The only alternative of a choice fails at the second item, and its report is kept with the
offset of the first. -/
theorem Matcher.not_stands_of_choice :
    let items : List Value := [.int 1, .int 3]
    let a : Entry := ⟨.array, .unexpectedInput, .list items, 1, true⟩
    let e : Entry := ⟨.choice, .noAlternative, .list [.int 3], 1, true⟩
    let c : Entry := ⟨.constant, .unexpectedValue, .tuple [.int 3, .int 2], 0, false⟩
    (Matcher.array [.constant (.int 1), .choice [.constant (.int 2)]]).outcome {} (.list items) =
        .ok (.failure ⟨a, [e, c]⟩) ∧ c.located = false ∧ ¬ c.Stands items := by
  intro items a e c
  refine ⟨?_, rfl, ?_⟩
  · dsimp only [a, e, c, items]
    cbv
  · intro hstands
    have hitem : items[0]? = some (.int 3) := hstands.item (.int 3) rfl
    cases hitem

end Motif
