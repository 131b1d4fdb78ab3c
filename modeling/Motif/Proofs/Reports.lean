import Motif.CommandLine
import Motif.Proofs.Decoded
import Mathlib

/-!
# Reports that can be written

A report is written as JSON or as text, and either can be done with every outcome. As JSON it is
made of plain values only, all of whose keys are texts, so that they can be sorted. As text it is a
string, if the names of the bindings are strings.
-/

namespace Motif

/-! ### Plain values -/

namespace Value

mutual

/-- What a value is reduced to can be written in JSON. -/
theorem decoded_plain : (v : Value) → v.plain.Decoded
  | .null => by simpa only [plain] using .null
  | .bool b => by simpa only [plain] using .bool
  | .int n => by simpa only [plain] using .int
  | .float x => by simpa only [plain] using .float
  | .str s => by simpa only [plain] using .str
  | .seq shape items => by
    rw [plain]
    exact .list (decoded_plainItems items)
  | .dict entries => by
    obtain ⟨members, hentries, hmembers⟩ := exists_plainEntries entries
    rw [plain, hentries]
    exact decoded_ofEntries hmembers
  | .rest => by simpa only [plain] using .str
  | .form f => by simpa only [plain] using .str
  | .matcher m => by simpa only [plain] using .str

theorem decoded_plainItems : (items : List Value) → ∀ item ∈ plainItems items, item.Decoded
  | [] => by simp [plainItems]
  | v :: vs => by
    rw [plainItems]
    exact List.forall_mem_cons.mpr ⟨decoded_plain v, decoded_plainItems vs⟩

theorem exists_plainEntries : (entries : List (Value × Value)) →
    ∃ members : List (Text × Value), plainEntries entries = named members ∧
      ∀ v ∈ members.map Prod.snd, v.Decoded
  | [] => ⟨[], by simp [plainEntries, named], nofun⟩
  | (key, v) :: entries => by
    obtain ⟨members, hentries, hmembers⟩ := exists_plainEntries entries
    obtain ⟨name, hname⟩ : ∃ name : Text, plainEntries ((key, v) :: entries) =
        (.str name, v.plain) :: plainEntries entries := by
      cases key with
      | str name => exact ⟨name, by rw [plainEntries]⟩
      | _ => exact ⟨_, by rw [plainEntries]; nofun⟩
    refine ⟨(name, v.plain) :: members, by rw [hname, hentries]; rfl, ?_⟩
    exact List.forall_mem_cons.mpr ⟨decoded_plain v, hmembers⟩

end

/-- A table of values that can be written is written as an object. -/
lemma decoded_ofTable {t : Table Value} (hnames : t.names.Nodup)
    (h : ∀ v ∈ t.map Prod.snd, v.Decoded) : (ofTable t).Decoded := .object hnames h

end Value

lemma Failure.Entry.decoded_toDict (e : Failure.Entry) : e.toDict.Decoded := by
  refine Value.decoded_ofTable (by simp only [Table.names, List.map]; decide) ?_
  simp only [List.map_cons, List.map_nil, List.forall_mem_cons]
  exact ⟨.str, .str, .int, Value.decoded_plain _, nofun⟩

/-- A report as a dictionary can be written in JSON. -/
lemma Outcome.decoded_toDict (outcome : Outcome) : outcome.toDict.Decoded := by
  cases outcome with
  | success result =>
    refine Value.decoded_ofTable (by simp only [Table.names, List.map]; decide) ?_
    simp only [List.map_cons, List.map_nil, List.forall_mem_cons]
    exact ⟨.bool, .int, Value.decoded_plain _, nofun⟩
  | failure f =>
    refine Value.decoded_ofTable (by simp only [Table.names, List.map]; decide) ?_
    simp only [List.map_cons, List.map_nil, List.forall_mem_cons]
    refine ⟨.bool, .list fun entry hentry => ?_, f.root.decoded_toDict, nofun⟩
    obtain ⟨e, -, rfl⟩ := List.mem_map.mp hentry
    exact e.decoded_toDict

lemma CommandLine.decoded_reportDict (outcomes : List Outcome) :
    (reportDict outcomes).Decoded := by
  refine Value.decoded_ofTable (by simp only [Table.names, List.map]; decide) ?_
  simp only [List.map_cons, List.map_nil, List.forall_mem_cons]
  refine ⟨.list fun v hv => ?_, nofun⟩
  obtain ⟨outcome, -, rfl⟩ := List.mem_map.mp hv
  exact outcome.decoded_toDict

/-! ### Written values -/

namespace Json

section

variable {α : Type} {entries : List (Value × α)}

/-- All keys are texts. -/
def Textual (entries : List (Value × α)) : Prop := ∀ e ∈ entries, ∃ name, e.1 = .str name

lemma exists_before {v w : Value} (hv : ∃ name, v = .str name) (hw : ∃ name, w = .str name) :
    ∃ answer, before v w = .ok answer := by
  obtain ⟨name, rfl⟩ := hv
  obtain ⟨name', rfl⟩ := hw
  exact ⟨_, by rw [before]⟩

/-- A run and the rest after it make up the entries. -/
lemma exists_takeRun (descending : Bool) {last : Value × α} (hlast : ∃ name, last.1 = .str name)
    (h : Textual entries) :
    ∃ run rest, takeRun descending last entries = .ok (run, rest) ∧ run ++ rest = entries := by
  induction entries generalizing last with
  | nil => exact ⟨[], [], by rw [takeRun], rfl⟩
  | cons e entries ih =>
    obtain ⟨hfirst, hothers⟩ := List.forall_mem_cons.mp h
    obtain ⟨answer, hanswer⟩ := exists_before hfirst hlast
    obtain ⟨run, rest, hrun, rfl⟩ := ih hfirst hothers
    simp only [takeRun, hanswer, hrun]
    by_cases heq : answer = descending
    · exact ⟨e :: run, rest, if_pos heq, rfl⟩
    · exact ⟨[], e :: (run ++ rest), if_neg heq, rfl⟩

lemma exists_place {key : Value} (hkey : ∃ name, key = .str name) {sorted : List (Value × α)}
    (h : Textual sorted) (steps low high : Nat) :
    ∃ i, place key sorted steps low high = .ok i := by
  induction steps generalizing low high with
  | zero => exact ⟨low, by rw [place]⟩
  | succ steps ih =>
    rw [place]
    split
    · dsimp only
      split
      · exact ⟨low, rfl⟩
      · rename_i other hmiddle
        obtain ⟨answer, hanswer⟩ := exists_before hkey (h other (List.mem_of_getElem? hmiddle))
        rw [hanswer]
        cases answer with
        | true => exact ih low _
        | false => exact ih _ high
    · exact ⟨low, rfl⟩

/-- Insertion at places among sorted entries loses none and adds none. -/
lemma exists_insertSorted {sorted : List (Value × α)} (hsorted : Textual sorted)
    (h : Textual entries) :
    ∃ made, insertSorted sorted entries = .ok made ∧ made.Perm (sorted ++ entries) := by
  induction entries generalizing sorted with
  | nil => exact ⟨sorted, by rw [insertSorted], by simp⟩
  | cons e entries ih =>
    obtain ⟨hfirst, hothers⟩ := List.forall_mem_cons.mp h
    -- wherever the place is, what stands before and after it stays
    obtain ⟨i, hi⟩ := exists_place hfirst hsorted (sorted.length + 1) 0 sorted.length
    have hperm : (sorted.take i ++ e :: sorted.drop i).Perm (e :: sorted) := by
      refine List.perm_middle.trans ?_
      rw [List.take_append_drop]
    have htextual : Textual (sorted.take i ++ e :: sorted.drop i) := by
      intro e' he'
      rcases List.mem_cons.mp (hperm.mem_iff.mp he') with rfl | he'
      · exact hfirst
      · exact hsorted e' he'
    obtain ⟨made, hmade, hall⟩ := ih htextual hothers
    refine ⟨made, by rw [insertSorted, hi]; exact hmade, hall.trans ?_⟩
    exact (hperm.append_right entries).trans List.perm_middle.symm

/-- Entries whose keys are texts can be sorted. -/
lemma exists_sortEntries (h : Textual entries) :
    ∃ sorted, sortEntries entries = .ok sorted ∧ sorted.Perm entries := by
  match entries, h with
  | [], _ => exact ⟨[], by rw [sortEntries]; nofun, .refl _⟩
  | [e], _ => exact ⟨[e], by rw [sortEntries]; nofun, .refl _⟩
  | first :: second :: entries, h =>
    obtain ⟨hfirst, hsecond, hothers⟩ : (∃ name, first.1 = .str name) ∧
        (∃ name, second.1 = .str name) ∧ Textual entries := by
      simpa only [Textual, List.forall_mem_cons] using h
    obtain ⟨descending, hbefore⟩ := exists_before hsecond hfirst
    obtain ⟨run, rest, hrun, rfl⟩ := exists_takeRun descending hsecond hothers
    have hperm : (if descending then (first :: second :: run).reverse
        else first :: second :: run).Perm (first :: second :: run) := by
      split
      · exact List.reverse_perm _
      · exact .refl _
    obtain ⟨sorted, hsorted, hall⟩ := exists_insertSorted
      (fun e he => h e (List.mem_append_left rest (hperm.mem_iff.mp he)))
      fun e (he : e ∈ rest) => h e (List.mem_append_right (first :: second :: run) he)
    refine ⟨sorted, ?_, hall.trans (hperm.append_right rest)⟩
    rw [sortEntries, hbefore]
    dsimp only [bind, Except.bind]
    rw [hrun]
    exact hsorted

end

lemma memberWriters_named (members : List (Text × Value)) :
    memberWriters (Value.named members) = members.map fun (name, v) => (.str name, write v) := by
  induction members with
  | nil => rfl
  | cons member members ih =>
    rw [Value.named, List.map_cons, memberWriters, ← Value.named, ih]
    rfl

lemma exists_writeItems {items : List Value} (level : Nat)
    (h : ∀ item ∈ items, ∀ level, ∃ text, write item level = .ok text) :
    ∃ texts, writeItems items level = .ok texts := by
  induction items with
  | nil => exact ⟨[], by rw [writeItems]⟩
  | cons item items ih =>
    obtain ⟨hfirst, hothers⟩ := List.forall_mem_cons.mp h
    obtain ⟨text, htext⟩ := hfirst level
    obtain ⟨texts, htexts⟩ := ih hothers
    exact ⟨text :: texts, by rw [writeItems, htext, htexts]; rfl⟩

/-- Text of a member of an object. -/
def memberText (level : Nat) (member : Value × (Nat → Except WriteError String)) :
    Except WriteError String := do
  let name ← keyText member.1
  return stringText name ++ ": " ++ (← member.2 (level + 1))

lemma write_dict (entries : List (Value × Value)) (level : Nat) :
    write (.dict entries) level = do
      let sorted ← sortEntries (memberWriters entries)
      let texts ← sorted.mapM (memberText level)
      return block "\x7b" "\x7d" level texts := by
  rw [write]
  rfl

lemma exists_memberTexts {members : List (Text × Value)} {level : Nat}
    (h : ∀ v ∈ members.map Prod.snd, ∃ text, write v (level + 1) = .ok text)
    {sorted : List (Value × (Nat → Except WriteError String))}
    (hsorted : sorted ⊆ memberWriters (Value.named members)) :
    ∃ texts, sorted.mapM (memberText level) = .ok texts := by
  refine exists_mapM_eq_ok fun e he => ?_
  have hmem := hsorted he
  rw [memberWriters_named] at hmem
  obtain ⟨member, hmember, rfl⟩ := List.mem_map.mp hmem
  obtain ⟨text, htext⟩ := h member.2 (List.mem_map_of_mem hmember)
  exact ⟨stringText member.1 ++ ": " ++ text, by simp only [memberText, keyText, htext]; rfl⟩

/-- A value that can be written in JSON has a text at every level. -/
lemma exists_write {v : Value} (h : v.Decoded) (level : Nat) :
    ∃ text, write v level = .ok text := by
  induction h generalizing level with
  | @list items _ ih =>
    obtain ⟨texts, htexts⟩ := exists_writeItems (level + 1) ih
    exact ⟨block "[" "]" level texts, by rw [write, htexts]; rfl⟩
  | @object members _ _ ih =>
    have htextual : Textual (memberWriters (Value.named members)) := by
      rw [memberWriters_named]
      intro e he
      obtain ⟨member, -, rfl⟩ := List.mem_map.mp he
      exact ⟨member.1, rfl⟩
    obtain ⟨sorted, hsorted, hall⟩ := exists_sortEntries htextual
    obtain ⟨texts, htexts⟩ := exists_memberTexts (fun v hv => ih v hv (level + 1)) hall.subset
    refine ⟨block "\x7b" "\x7d" level texts, ?_⟩
    rw [write_dict, hsorted]
    change sorted.mapM (memberText level) >>= _ = _
    rw [htexts]
    rfl
  | _ => exact ⟨_, by rw [write]⟩

end Json

/-! ### Texts that are strings -/

namespace Text

/-- A text is that of a string: there are no surrogates in it. -/
def Sound (t : Text) : Prop := ∃ s : String, t = ofString s

lemma sound_ofString (s : String) : (ofString s).Sound := ⟨s, rfl⟩

lemma Sound.append {t t' : Text} (h : t.Sound) (h' : t'.Sound) : (t ++ t').Sound := by
  obtain ⟨s, rfl⟩ := h
  obtain ⟨s', rfl⟩ := h'
  exact ⟨s ++ s', by simp [ofString, ofChars]⟩

lemma Sound.separated {separator : Text} (hseparator : separator.Sound) {texts : List Text}
    (h : ∀ t ∈ texts, t.Sound) : (separated separator texts).Sound := by
  induction texts with
  | nil => exact sound_ofString ""
  | cons t texts ih =>
    obtain ⟨hfirst, hothers⟩ := List.forall_mem_cons.mp h
    cases texts with
    | nil => simpa [Text.separated] using hfirst
    | cons t' texts =>
      have hsplit : Text.separated separator (t :: t' :: texts) =
          t ++ separator ++ Text.separated separator (t' :: texts) := by
        simp [Text.separated, List.intercalate, List.intersperse]
      rw [hsplit]
      exact (hfirst.append hseparator).append (ih hothers)

/-- A string can be put into a file as it is. -/
lemma encode_ofString (s : String) : (ofString s).encode = .ok s := by
  have hnone : (ofString s).stray? (fun _ => false) = none := by
    rw [stray?, Option.map_eq_none_iff, List.findIdx?_eq_none_iff]
    intro c hc
    obtain ⟨c, -, rfl⟩ := List.mem_map.mp hc
    rfl
  have hshown : (ofString s).shown = s := by
    simp [shown, ofString, ofChars, Function.comp_def, CodePoint.char?]
  rw [encode, hnone, hshown]

end Text

/-- The names of the bindings of a success are strings. -/
def Outcome.NamesSound : Outcome → Prop
  | .success result => ∀ name ∈ result.environment.bindings.names, name.Sound
  | .failure _ => True

lemma Outcome.NamesSound.explain {outcome : Outcome} (h : outcome.NamesSound) :
    outcome.explain.Sound := by
  cases outcome with
  | failure f => exact Text.sound_ofString _
  | success result =>
    refine .separated (Text.sound_ofString _) (List.forall_mem_cons.mpr
      ⟨Text.sound_ofString _, fun line hline => ?_⟩)
    obtain ⟨⟨name, v⟩, hbinding, rfl⟩ := List.mem_map.mp hline
    have hname : name.Sound := h name (List.mem_map_of_mem hbinding)
    exact ((Text.sound_ofString _).append hname).append (Text.sound_ofString _)

namespace CommandLine

/-- A report as text is a string if the names in it are. -/
lemma sound_reportText {outcomes : List Outcome} (h : ∀ outcome ∈ outcomes, outcome.NamesSound) :
    (reportText outcomes).Sound := by
  refine .append (.separated (Text.sound_ofString _) fun block hblock => ?_) ⟨"\n", rfl⟩
  obtain ⟨⟨outcome, i⟩, hmem, rfl⟩ := List.mem_map.mp hblock
  have hexplain := (h outcome (List.fst_mem_of_mem_zipIdx hmem)).explain
  dsimp only
  split
  · exact (Text.sound_ofString _).append hexplain
  · exact hexplain

end CommandLine

end Motif
