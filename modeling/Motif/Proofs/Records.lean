import Motif.Document
import Motif.Proofs.Excerpts
import Mathlib

/-!
# Files of records

A file of records holds one document a line. A line may end in any of three ways, blank lines hold
nothing, and white space around a document does not count; other characters that separate lines
elsewhere are part of the line they stand in. Reading such a file gives its documents in order.
-/

namespace Motif

/-! ### Stripped lines -/

/-- What is stripped off is white space. -/
lemma Text.exists_strip (line : List Char) :
    ∃ before after, line = before ++ strip line ++ after ∧
      (∀ c ∈ before, isBlank c = true) ∧ ∀ c ∈ after, isBlank c = true := by
  set rest := line.dropWhile isBlank with hrest
  refine ⟨line.takeWhile isBlank, (rest.reverse.takeWhile isBlank).reverse, ?_,
    fun _ => List.mem_takeWhile_imp, fun c hc => ?_⟩
  · rw [List.append_assoc, strip, ← hrest, ← List.reverse_append, List.takeWhile_append_dropWhile,
      List.reverse_reverse, hrest, List.takeWhile_append_dropWhile]
  · exact List.mem_takeWhile_imp (List.mem_reverse.mp hc)

lemma Text.strip_eq_nil_iff {line : List Char} :
    strip line = [] ↔ ∀ c ∈ line, isBlank c = true := by
  constructor
  · intro h
    obtain ⟨before, after, hline, hbefore, hafter⟩ := exists_strip line
    rw [h, List.append_nil] at hline
    rw [hline]
    exact List.forall_mem_append.mpr ⟨hbefore, hafter⟩
  · intro h
    rw [strip, List.dropWhile_eq_nil_iff.mpr h]
    rfl

namespace Document

variable {line lineBreak text : List Char} {v : Value} {vs : List Value}

/-! ### Line breaks -/

/-- The three ways to end a line. -/
def lineBreaks : List (List Char) := [['\n'], ['\r', '\n'], ['\r']]

/-- Characters among which no line ends. -/
structure OneLine (line : List Char) : Prop where
  not_cr : '\r' ∉ line
  not_lf : '\n' ∉ line

lemma plainBreaks_append (h : '\r' ∉ line) (text : List Char) :
    plainBreaks (line ++ text) = line ++ plainBreaks text := by
  induction line with
  | nil => rfl
  | cons c line ih =>
    obtain ⟨hc, hline⟩ := List.ne_and_not_mem_of_not_mem_cons h
    rw [List.cons_append, plainBreaks.eq_3, ih hline, List.cons_append]
    · exact fun _ hc' => absurd hc'.symm hc
    · exact fun hc' => absurd hc'.symm hc

lemma plainBreaks_eq_self (h : '\r' ∉ line) : plainBreaks line = line := by
  have happend := plainBreaks_append h []
  rwa [List.append_nil, plainBreaks, List.append_nil] at happend

lemma lines_append (h : '\n' ∉ line) (text : List Char) :
    lines (line ++ '\n' :: text) = line :: lines text := by
  induction line with
  | nil => simp [lines, Text.divide]
  | cons c line ih =>
    obtain ⟨hc, hline⟩ := List.ne_and_not_mem_of_not_mem_cons h
    rw [lines] at ih
    rw [lines, List.cons_append, Text.divide, if_neg (Ne.symm hc), ih hline]

lemma lines_eq_singleton (h : '\n' ∉ line) : lines line = [line] := by
  induction line with
  | nil => rfl
  | cons c line ih =>
    obtain ⟨hc, hline⟩ := List.ne_and_not_mem_of_not_mem_cons h
    rw [lines] at ih
    rw [lines, Text.divide, if_neg (Ne.symm hc), ih hline]

lemma records_line (h : '\n' ∉ line) :
    records line = if Text.strip line = [] then [] else [Text.strip line] := by
  rw [records, lines_eq_singleton h]
  split <;> simp_all

lemma records_append (h : '\n' ∉ line) (text : List Char) :
    records (line ++ '\n' :: text) = records line ++ records text := by
  rw [records, lines_append h, records, lines_eq_singleton h, ← List.singleton_append,
    List.map_append, List.filter_append]
  rfl

/-- However a line ends, its records come before those of what follows. A line feed that belongs to
the break before it adds a blank line at most. -/
lemma records_plainBreaks (hline : OneLine line) (hbreak : lineBreak ∈ lineBreaks)
    (text : List Char) :
    records (plainBreaks (line ++ lineBreak ++ text)) =
      records line ++ records (plainBreaks text) := by
  rw [List.append_assoc, plainBreaks_append hline.not_cr, ← records_append hline.not_lf]
  simp only [lineBreaks, List.mem_cons, List.not_mem_nil, or_false] at hbreak
  rcases hbreak with rfl | rfl | rfl
  · rfl
  · rfl
  · cases text with
    | nil => rfl
    | cons c text =>
      by_cases hc : c = '\n'
      · subst hc
        change records (line ++ '\n' :: plainBreaks text) =
          records (line ++ '\n' :: '\n' :: plainBreaks text)
        rw [records_append hline.not_lf, records_append hline.not_lf]
        rfl
      · rw [List.singleton_append, plainBreaks.eq_2]
        rintro cs ⟨⟩
        exact hc rfl

/-- The first line of a text of several lines. -/
lemma exists_line (text : List Char) : OneLine text ∨ ∃ line lineBreak rest,
    text = line ++ lineBreak ++ rest ∧ OneLine line ∧ lineBreak ∈ lineBreaks := by
  induction text with
  | nil => exact .inl ⟨nofun, nofun⟩
  | cons c text ih =>
    by_cases hcr : c = '\r'
    · exact .inr ⟨[], ['\r'], text, by rw [hcr]; rfl, ⟨nofun, nofun⟩, by simp [lineBreaks]⟩
    by_cases hlf : c = '\n'
    · exact .inr ⟨[], ['\n'], text, by rw [hlf]; rfl, ⟨nofun, nofun⟩, by simp [lineBreaks]⟩
    have hcons {line : List Char} (h : OneLine line) : OneLine (c :: line) :=
      ⟨List.not_mem_cons_of_ne_of_not_mem (Ne.symm hcr) h.not_cr,
        List.not_mem_cons_of_ne_of_not_mem (Ne.symm hlf) h.not_lf⟩
    rcases ih with hline | ⟨line, lineBreak, rest, rfl, hline, hbreak⟩
    · exact .inl (hcons hline)
    · exact .inr ⟨c :: line, lineBreak, rest, rfl, hcons hline, hbreak⟩

/-! ### Documents in lines -/

/-- A line holds no document if it is blank, and else one with white space around it. -/
inductive LineHolds : List Char → List Value → Prop where
  | blank {line : List Char} (h : ∀ c ∈ line, Text.isBlank c = true) : LineHolds line []
  | document {before text after : List Char} {v : Value}
    (hbefore : ∀ c ∈ before, Text.isBlank c = true) (hafter : ∀ c ∈ after, Text.isBlank c = true)
    (h : Json.decode text = .ok v) : LineHolds (before ++ text ++ after) [v]

/-- A text holds the documents of its lines in order. Each line but the last has a line break. -/
inductive Holds : List Char → List Value → Prop where
  | last {line : List Char} {vs : List Value} (hline : OneLine line) (h : LineHolds line vs) :
    Holds line vs
  | line {line lineBreak text : List Char} {vs ws : List Value} (hline : OneLine line)
    (hbreak : lineBreak ∈ lineBreaks) (h : LineHolds line vs) (htext : Holds text ws) :
    Holds (line ++ lineBreak ++ text) (vs ++ ws)

lemma decode_eq_ok_iff : decode text = .ok v ↔ Json.decode text = .ok v := by
  rw [decode]
  split <;> simp_all

lemma LineHolds.mapM_decode (h : LineHolds line vs) (hline : '\n' ∉ line) :
    (records line).mapM decode = .ok vs := by
  rw [records_line hline]
  cases h with
  | blank h =>
    rw [if_pos (Text.strip_eq_nil_iff.mpr h)]
    rfl
  | @document before text after v hbefore hafter h =>
    have hdecode := Json.decode_strip h hbefore hafter
    have hne : Text.strip (before ++ text ++ after) ≠ [] := by
      intro hnil
      rw [hnil] at hdecode
      cases hdecode
    rw [if_neg hne, List.mapM_cons, decode_eq_ok_iff.mpr hdecode]
    rfl

lemma lineHolds_of_mapM_decode (hline : '\n' ∉ line) (h : (records line).mapM decode = .ok vs) :
    LineHolds line vs := by
  rw [records_line hline] at h
  split at h
  · rename_i hblank
    cases h
    exact .blank (Text.strip_eq_nil_iff.mp hblank)
  · rw [List.mapM_cons] at h
    obtain ⟨v, hv, h⟩ := exists_of_bind_eq_ok h
    cases h
    obtain ⟨before, after, hparts, hbefore, hafter⟩ := Text.exists_strip line
    rw [hparts]
    exact .document hbefore hafter (decode_eq_ok_iff.mp hv)

lemma Holds.mapM_decode (h : Holds text vs) :
    (records (plainBreaks text)).mapM decode = .ok vs := by
  induction h with
  | last hline h =>
    rw [plainBreaks_eq_self hline.not_cr]
    exact h.mapM_decode hline.not_lf
  | line hline hbreak h _ ih =>
    rw [records_plainBreaks hline hbreak, List.mapM_append, h.mapM_decode hline.not_lf, ih]
    rfl

lemma holds_of_mapM_decode (h : (records (plainBreaks text)).mapM decode = .ok vs) :
    Holds text vs := by
  -- the first line is cut off as long as there is a line break
  induction hn : text.length using Nat.strong_induction_on generalizing text vs with
  | _ n ih =>
    rcases exists_line text with hline | ⟨line, lineBreak, rest, rfl, hline, hbreak⟩
    · rw [plainBreaks_eq_self hline.not_cr] at h
      exact .last hline (lineHolds_of_mapM_decode hline.not_lf h)
    · rw [records_plainBreaks hline hbreak, List.mapM_append] at h
      obtain ⟨first, hfirst, h⟩ := exists_of_bind_eq_ok h
      obtain ⟨others, hothers, h⟩ := exists_of_bind_eq_ok h
      cases h
      refine .line hline hbreak (lineHolds_of_mapM_decode hline.not_lf hfirst)
        (ih rest.length ?_ hothers rfl)
      have hpos : 0 < lineBreak.length := by
        simp only [lineBreaks, List.mem_cons, List.not_mem_nil, or_false] at hbreak
        rcases hbreak with rfl | rfl | rfl <;> decide
      simp only [List.length_append] at hn
      omega

/-! ### The ending of a path -/

section

variable {α : Type} [BEq α] [LawfulBEq α] {x : α}

/-- What follows the last `x` in a list. -/
lemma exists_last_part (x : α) (l : List α) :
    ∃ init part, (l.reverse.takeWhile (· != x)).reverse = part ∧ l = init ++ part ∧
      (init = [] ∨ init.getLast? = some x) ∧ x ∉ part := by
  refine ⟨(l.reverse.dropWhile (· != x)).reverse, _, rfl, ?_, ?_, fun hmem => ?_⟩
  · rw [← List.reverse_append, List.takeWhile_append_dropWhile, List.reverse_reverse]
  · rw [List.reverse_eq_nil_iff, List.getLast?_reverse]
    cases hdrop : l.reverse.dropWhile (· != x) with
    | nil => exact .inl rfl
    | cons y ys =>
      have := List.head?_dropWhile_not (· != x) l.reverse
      rw [hdrop] at this
      exact .inr (by simpa using this)
  · have := List.mem_takeWhile_imp (List.mem_reverse.mp hmem)
    simp at this

lemma last_part_eq {init part : List α} (hinit : init = [] ∨ init.getLast? = some x)
    (hpart : x ∉ part) : ((init ++ part).reverse.takeWhile (· != x)).reverse = part := by
  have hne : ∀ y ∈ part.reverse, (y != x) = true := by
    intro y hy
    rw [bne_iff_ne]
    rintro rfl
    exact hpart (List.mem_reverse.mp hy)
  rw [List.reverse_append, List.takeWhile_append_of_pos hne]
  rcases hinit with rfl | hinit
  · simp
  · obtain ⟨init, rfl⟩ := List.getLast?_eq_some_iff.mp hinit
    simp

end

/-- A path has an ending if there is a dot in its last part, other than those that the part starts
with. The ending starts at the last dot. -/
theorem ending_eq_cons_iff {path extension : Text} :
    ending path = .char '.' :: extension ↔ ∃ folder stem,
      path = folder ++ (stem ++ .char '.' :: extension) ∧
      (folder = [] ∨ folder.getLast? = some (.char '/')) ∧
      .char '/' ∉ stem ++ .char '.' :: extension ∧ .char '.' ∉ extension ∧
      ∃ c ∈ stem, c ≠ .char '.' := by
  constructor
  · intro h
    obtain ⟨folder, base, hbase, rfl, hfolder, hslash⟩ :=
      exists_last_part (CodePoint.char '/') path
    rw [ending, baseName, hbase] at h
    split at h
    · rename_i hdot
      obtain ⟨init, part, hpart, hname, hinit, hnotDot⟩ :=
        exists_last_part (CodePoint.char '.') (base.dropWhile (· == .char '.'))
      obtain rfl : part = extension := hpart.symm.trans (List.cons.inj h).2
      have hlast : init.getLast? = some (.char '.') := by
        refine hinit.resolve_left ?_
        rintro rfl
        rw [hname] at hdot
        exact hnotDot (by simpa using hdot)
      obtain ⟨head, rfl⟩ := List.getLast?_eq_some_iff.mp hlast
      have hparts : base = base.takeWhile (· == .char '.') ++ head ++ .char '.' :: part := by
        conv_lhs => rw [← @List.takeWhile_append_dropWhile _ (· == CodePoint.char '.') base, hname]
        simp
      refine ⟨folder, base.takeWhile (· == .char '.') ++ head, ?_, hfolder, ?_, hnotDot, ?_⟩
      · rw [← hparts]
      · rwa [← hparts]
      · -- the head starts where the dots at the start have ended
        have hfirst := List.head?_dropWhile_not (· == CodePoint.char '.') base
        rw [hname] at hfirst
        cases head with
        | nil => simp at hfirst
        | cons c head =>
          exact ⟨c, List.mem_append_right _ List.mem_cons_self, by simpa using hfirst⟩
    · cases h
  · rintro ⟨folder, stem, rfl, hfolder, hslash, hdot, c, hmem, hc⟩
    have hbase : baseName (folder ++ (stem ++ .char '.' :: extension)) =
        stem ++ .char '.' :: extension := last_part_eq hfolder hslash
    have hname : (stem ++ .char '.' :: extension).dropWhile (· == .char '.') =
        stem.dropWhile (· == .char '.') ++ [.char '.'] ++ extension := by
      rw [List.dropWhile_append, if_neg]
      · simp
      · rw [List.isEmpty_iff, List.dropWhile_eq_nil_iff]
        exact fun h => hc (eq_of_beq (h c hmem))
    rw [ending, hbase, hname]
    simp only [last_part_eq (.inr List.getLast?_concat) hdot]
    simp

/-! ### Files of lines -/

/-- A file that holds one document a line is read as exactly the documents that its text holds. -/
theorem readInputs_eq_ok_iff {files : Files} {path : Text} {name : List Char} {text : String}
    {vs : List Value} (hending : ending path = .ofChars name)
    (hname : name.map Char.toLower = ".jsonl".toList) (htext : files.read path = .ok text) :
    readInputs files path = .ok vs ↔ Holds text.toList vs := by
  have hlines : holdsLines path = true := by
    rw [holdsLines, hending, Text.chars?_ofChars, Option.getD_some, hname, beq_self_eq_true]
  have hload : load files path = .ok (plainBreaks text.toList) := by
    rw [load, htext]
  have hread : readInputs files path = (records (plainBreaks text.toList)).mapM decode := by
    rw [readInputs, hload, hlines]
    rfl
  rw [hread]
  exact ⟨holds_of_mapM_decode, Holds.mapM_decode⟩

/-- A line separator inside a string, and a carriage return and a line feed that may be one line
break or two. -/
theorem readInputs_eq_ok_iff_mixed :
    let path : Text := "runs.d/Day.JsonL"
    let name := ".JsonL".toList
    let record := ['\u000b', '\"', '\u2028', '\"', ' ', '\u001c']
    let text := String.ofList (record ++ ['\r', '\n', '\u00a0', '\r', '7', '\u2003'])
    let files : Files := ⟨fun _ => .ok text, fun _ => .ok ()⟩
    ending path = .ofChars name ∧ name.map Char.toLower = ".jsonl".toList ∧
      files.read path = .ok text ∧
      readInputs files path = .ok [.str [.char '\u2028'], .int 7] := by
  intro path name record text files
  have hending : ending path = .ofChars name := by
    dsimp only [path, name]
    cbv
  have hname : name.map Char.toLower = ".jsonl".toList := by decide
  have hstring : Json.decode ['\"', '\u2028', '\"'] = .ok (.str [.char '\u2028']) := rfl
  have hnumber : Json.decode ['7'] = .ok (.int 7) := rfl
  have hrecord : LineHolds record [.str [.char '\u2028']] :=
    @LineHolds.document ['\u000b'] _ [' ', '\u001c'] _ (by simp [Text.isBlank])
      (by simp [Text.isBlank]) hstring
  have hblank : LineHolds ['\u00a0'] [] := .blank (by simp [Text.isBlank])
  have hlast : LineHolds ['7', '\u2003'] [.int 7] :=
    @LineHolds.document [] _ ['\u2003'] _ (List.forall_mem_nil _) (by simp [Text.isBlank]) hnumber
  have hholds : Holds (record ++ ['\r'] ++ ([] ++ ['\n'] ++ (['\u00a0'] ++ ['\r'] ++
      ['7', '\u2003']))) ([.str [.char '\u2028']] ++ ([] ++ ([] ++ [.int 7]))) :=
    .line ⟨by simp [record], by simp [record]⟩ (by simp [lineBreaks]) hrecord <|
    .line ⟨List.not_mem_nil, List.not_mem_nil⟩ (by simp [lineBreaks])
      (.blank (List.forall_mem_nil _)) <|
    .line ⟨by simp, by simp⟩ (by simp [lineBreaks]) hblank <|
    .last ⟨by simp, by simp⟩ hlast
  refine ⟨hending, hname, rfl, (readInputs_eq_ok_iff hending hname rfl).mpr ?_⟩
  rw [String.toList_ofList]
  exact hholds

end Document
end Motif
