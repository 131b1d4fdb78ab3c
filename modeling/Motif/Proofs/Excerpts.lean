import Motif.Proofs.Decoded
import Motif.Text.Blank
import Mathlib

/-!
# Excerpts of a JSON text

A reader of JSON takes what it reads from the start of a text. What it took can be cut out: it is
read as the same value at the start of any other text that does not go on with a number, and with
any fuel that is enough for its own length. So a document may stand among white space, also white
space that JSON does not know, as long as that is stripped off first.
-/

namespace Motif

namespace Text

variable {text before after : List Char}

/-- A text that starts and ends with characters that are no white space. -/
structure Trimmed (text : List Char) : Prop where
  first : ∃ c, text.head? = some c ∧ isBlank c = false
  last : ∃ c, text.getLast? = some c ∧ isBlank c = false

lemma trimmed_single {c : Char} (h : isBlank c = false) : Trimmed [c] := ⟨⟨c, rfl, h⟩, c, rfl, h⟩

lemma Trimmed.length_pos (h : Trimmed text) : 0 < text.length := by
  obtain ⟨c, hc, -⟩ := h.first
  exact List.length_pos_of_mem (List.mem_of_mem_head? hc)

lemma Trimmed.around (hbefore : Trimmed before) (text : List Char) (hafter : Trimmed after) :
    Trimmed (before ++ text ++ after) := by
  obtain ⟨c, hc, hfirst⟩ := hbefore.first
  obtain ⟨d, hd, hlast⟩ := hafter.last
  exact ⟨⟨c, by simp [hc], hfirst⟩, d, by simp [hd], hlast⟩

/-- Stripping takes off all white space around what has none at its ends. -/
lemma Trimmed.strip_append (h : Trimmed text) (hbefore : ∀ c ∈ before, isBlank c = true)
    (hafter : ∀ c ∈ after, isBlank c = true) : strip (before ++ text ++ after) = text := by
  have hfirst : (before ++ text ++ after).dropWhile isBlank = text ++ after := by
    obtain ⟨c, hc, hblank⟩ := h.first
    obtain ⟨cs, rfl⟩ := List.head?_eq_some_iff.mp hc
    rw [List.append_assoc, List.dropWhile_append_of_pos hbefore, List.cons_append,
      List.dropWhile_cons_of_neg (by simp [hblank])]
  have hafter' : ∀ c ∈ after.reverse, isBlank c = true := fun c hc =>
    hafter c (List.mem_reverse.mp hc)
  obtain ⟨c, hc, hblank⟩ := h.last
  obtain ⟨cs, rfl⟩ := List.getLast?_eq_some_iff.mp hc
  rw [strip, hfirst, List.reverse_append, List.dropWhile_append_of_pos hafter', List.reverse_concat,
    List.dropWhile_cons_of_neg (by simp [hblank]), ← List.reverse_concat, List.reverse_reverse]

end Text

namespace Json

open Text (Trimmed trimmed_single)

/-! ### White space -/

lemma skipBlanks_eq (cs : List Char) : skipBlanks cs = cs.dropWhile Char.isWhitespace := by
  rw [skipBlanks]
  congr 1
  funext c
  simp only [Char.isWhitespace]
  grind

/-- What is skipped is white space, and is skipped before anything else too. -/
lemma exists_skipped (cs : List Char) :
    ∃ blanks, cs = blanks ++ skipBlanks cs ∧ (∀ c ∈ blanks, Text.isBlank c = true) ∧
      ∀ rest, skipBlanks (blanks ++ rest) = skipBlanks rest := by
  refine ⟨cs.takeWhile Char.isWhitespace, ?_, fun c hc => ?_, fun rest => ?_⟩
  · rw [skipBlanks_eq, List.takeWhile_append_dropWhile]
  · exact Text.isBlank_of_isWhitespace (List.mem_takeWhile_imp hc)
  · rw [skipBlanks_eq, skipBlanks_eq, List.dropWhile_append_of_pos fun c hc =>
      List.mem_takeWhile_imp hc]

lemma skipBlanks_append {text : List Char} (h : Trimmed text) (rest : List Char) :
    skipBlanks (text ++ rest) = text ++ rest := by
  obtain ⟨c, hc, hblank⟩ := h.first
  obtain ⟨cs, rfl⟩ := List.head?_eq_some_iff.mp hc
  rw [skipBlanks_eq]
  refine List.dropWhile_cons_of_neg fun hwhite => ?_
  rw [Text.isBlank_of_isWhitespace hwhite] at hblank
  cases hblank

/-! ### Numbers -/

/-- Characters with which no number goes on. -/
def EndsNumber (rest : List Char) : Prop :=
  ∀ c ∈ rest.head?, c.isDigit = false ∧ c ≠ '.' ∧ c ≠ 'e' ∧ c ≠ 'E'

lemma endsNumber_of_skipBlanks {cs : List Char} (h : EndsNumber (skipBlanks cs)) :
    EndsNumber cs := by
  cases cs with
  | nil => exact nofun
  | cons c cs =>
    by_cases hc : c.isWhitespace = true
    · rintro _ ⟨⟩
      simp only [Char.isWhitespace, Bool.or_eq_true, decide_eq_true_eq] at hc
      rcases hc with ((rfl | rfl) | rfl) | rfl <;> decide
    · rwa [skipBlanks_eq, List.dropWhile_cons_of_neg hc] at h

/-- Digits, one or more. -/
structure Digits (ds : List Char) : Prop where
  ne_nil : ds ≠ []
  isDigit : ∀ c ∈ ds, c.isDigit = true

lemma isBlank_of_isDigit {c : Char} (h : c.isDigit = true) : Text.isBlank c = false := by
  simp only [Char.isDigit, ge_iff_le, Bool.and_eq_true, decide_eq_true_eq,
    UInt32.le_iff_toNat_le] at h
  have hlower : 48 ≤ c.toNat := h.1
  have hupper : c.toNat ≤ 57 := h.2
  rw [Text.isBlank]
  grind

lemma Digits.trimmed {ds : List Char} (h : Digits ds) : Trimmed ds where
  first := ⟨ds.head h.ne_nil, List.head?_eq_some_head h.ne_nil,
    isBlank_of_isDigit (h.isDigit _ (List.head_mem h.ne_nil))⟩
  last := ⟨ds.getLast h.ne_nil, List.getLast?_eq_some_getLast h.ne_nil,
    isBlank_of_isDigit (h.isDigit _ (List.getLast_mem h.ne_nil))⟩

lemma takeDigits_append {ds rest : List Char} (h : ∀ c ∈ ds, c.isDigit = true)
    (hrest : ∀ c ∈ rest.head?, c.isDigit = false) : takeDigits (ds ++ rest) = (ds, rest) := by
  rw [takeDigits, List.takeWhile_append_of_pos h, List.dropWhile_append_of_pos h]
  cases rest with
  | nil => simp
  | cons c rest =>
    have hc : ¬ c.isDigit = true := by simp [hrest c rfl]
    rw [List.takeWhile_cons_of_neg hc, List.dropWhile_cons_of_neg hc, List.append_nil]

lemma takeDigits_cases (cs : List Char) : (∃ rest, takeDigits cs = ([], rest)) ∨
    ∃ d ds rest, takeDigits cs = (d :: ds, rest) ∧ Digits (d :: ds) ∧ cs = d :: ds ++ rest := by
  have hcs : cs.takeWhile Char.isDigit ++ cs.dropWhile Char.isDigit = cs :=
    List.takeWhile_append_dropWhile
  have hdigits (c : Char) (hc : c ∈ cs.takeWhile Char.isDigit) : c.isDigit = true :=
    List.mem_takeWhile_imp hc
  rw [takeDigits]
  cases htake : cs.takeWhile Char.isDigit with
  | nil => exact .inl ⟨_, rfl⟩
  | cons d ds =>
    rw [htake] at hcs hdigits
    exact .inr ⟨d, ds, _, rfl, ⟨nofun, hdigits⟩, hcs.symm⟩

/-- A whole part is read as far as its digits go. -/
lemma of_readWhole {cs whole rest : List Char} (h : readWhole cs = some (whole, rest)) :
    Digits whole ∧ cs = whole ++ rest ∧ ∀ rest', (∀ c ∈ rest'.head?, c.isDigit = false) →
      readWhole (whole ++ rest') = some (whole, rest') := by
  unfold readWhole at h
  split at h
  · cases h
    exact ⟨⟨nofun, by simp⟩, rfl, fun _ _ => rfl⟩
  · rename_i hzero
    rcases takeDigits_cases cs with ⟨_, hread⟩ | ⟨d, ds, _, hread, hdigits, rfl⟩
    · rw [hread] at h
      cases h
    · rw [hread] at h
      cases h
      refine ⟨hdigits, rfl, fun rest' hrest' => ?_⟩
      rw [readWhole.eq_2, takeDigits_append hdigits.isDigit hrest']
      rintro cs hcs
      obtain ⟨rfl, -⟩ := List.cons.inj hcs
      exact hzero _ rfl

/-- `read?` reads a part of a number that may be left out: one of `marks` and what ends with digits,
as far as the digits go. -/
structure Part {α : Type} (marks : List Char) (read? : List Char → Option (α × List Char)) :
    Prop where
  of_some : ∀ cs a rest, read? cs = some (a, rest) → ∃ mark ∈ marks, ∃ between ds, Digits ds ∧
    cs = mark :: between ++ ds ++ rest ∧ ∀ rest', (∀ c ∈ rest'.head?, c.isDigit = false) →
      read? (mark :: between ++ ds ++ rest') = some (a, rest')
  of_not_mem : ∀ cs, (∀ c ∈ cs.head?, c ∉ marks) → read? cs = none

lemma part_fraction : Part ['.'] readFraction? where
  of_some cs fraction rest h := by
    unfold readFraction? at h
    split at h
    · rename_i cs
      rcases takeDigits_cases cs with ⟨_, hread⟩ | ⟨d, ds, _, hread, hdigits, rfl⟩
      · rw [hread] at h
        cases h
      · rw [hread] at h
        cases h
        refine ⟨'.', List.mem_cons_self, [], _, hdigits, rfl, fun rest' hrest' => ?_⟩
        rw [List.singleton_append, List.cons_append, readFraction?,
          takeDigits_append hdigits.isDigit hrest']
    · cases h
  of_not_mem cs h := by
    cases cs with
    | nil => rfl
    | cons c cs =>
      exact readFraction?.eq_2 _ fun cs' hcs =>
        h c rfl (List.mem_singleton.mpr (List.cons.inj hcs).1)

/-- Whether a minus sign stands before what is left, where any sign may stand. -/
def readSign : List Char → Bool × List Char
  | '+' :: cs => (false, cs)
  | '-' :: cs => (true, cs)
  | cs => (false, cs)

lemma exists_sign (cs : List Char) : ∃ sign, cs = sign ++ (readSign cs).2 ∧
    ∀ d rest, d.isDigit = true → readSign (sign ++ d :: rest) = ((readSign cs).1, d :: rest) := by
  unfold readSign
  split
  · exact ⟨['+'], rfl, fun _ _ _ => rfl⟩
  · exact ⟨['-'], rfl, fun _ _ _ => rfl⟩
  · refine ⟨[], rfl, fun d rest hd => ?_⟩
    rw [List.nil_append]
    split
    · rename_i heq
      obtain ⟨rfl, -⟩ := List.cons.inj heq
      cases hd
    · rename_i heq
      obtain ⟨rfl, -⟩ := List.cons.inj heq
      cases hd
    · rfl

lemma readExponent?_cons {e : Char} (he : e = 'e' ∨ e = 'E') (cs : List Char) :
    readExponent? (e :: cs) =
      match takeDigits (readSign cs).2 with
      | ([], _) => none
      | (digits, rest) =>
        let n : Int := digitsValue digits
        some (if (readSign cs).1 then -n else n, rest) := by
  unfold readSign
  rw [readExponent?.eq_def]
  exact if_pos he

lemma part_exponent : Part ['e', 'E'] readExponent? where
  of_some cs exponent rest h := by
    cases cs with
    | nil => cases h
    | cons e cs =>
      by_cases he : e = 'e' ∨ e = 'E'
      · obtain ⟨sign, hcs, hsign⟩ := exists_sign cs
        rw [readExponent?_cons he] at h
        rcases takeDigits_cases (readSign cs).2 with ⟨_, hread⟩ | ⟨d, ds, _, hread, hdigits, hds⟩
        · rw [hread] at h
          cases h
        · rw [hread] at h
          cases h
          refine ⟨e, by simpa using he, sign, _, hdigits, ?_, fun rest' hrest' => ?_⟩
          · rw [hcs, hds]
            simp
          · have := hsign d (ds ++ rest') (hdigits.isDigit d List.mem_cons_self)
            simp only [List.cons_append, List.append_assoc]
            rw [readExponent?_cons he, this, ← List.cons_append,
              takeDigits_append hdigits.isDigit hrest']
      · rw [readExponent?.eq_def] at h
        simp only [if_neg he] at h
        cases h
  of_not_mem cs h := by
    cases cs with
    | nil => rfl
    | cons c cs =>
      have hc : ¬ (c = 'e' ∨ c = 'E') := by simpa using h c rfl
      rw [readExponent?.eq_def]
      simp only [if_neg hc]

/-- A part of a number that may be left out. -/
def IsPart (marks text : List Char) : Prop :=
  text = [] ∨ ∃ mark ∈ marks, ∃ between ds, Digits ds ∧ text = mark :: between ++ ds

lemma IsPart.trimmed {marks text before : List Char} (h : IsPart marks text)
    (hbefore : Trimmed before) : Trimmed (before ++ text) := by
  rcases h with rfl | ⟨mark, -, between, ds, hds, rfl⟩
  · rwa [List.append_nil]
  · rw [← List.append_assoc]
    exact hbefore.around _ hds.trimmed

lemma IsPart.forall_head {marks text rest : List Char} {P : Char → Prop} (h : IsPart marks text)
    (hmarks : ∀ c ∈ marks, P c) (hrest : ∀ c ∈ rest.head?, P c) :
    ∀ c ∈ (text ++ rest).head?, P c := by
  rcases h with rfl | ⟨mark, hmark, between, ds, -, rfl⟩
  · exact hrest
  · rintro _ ⟨⟩
    exact hmarks mark hmark

/-- A part that may be left out is read the same before anything else that does not go on with
it. -/
lemma Part.exists_text {α : Type} {marks : List Char} {read? : List Char → Option (α × List Char)}
    (h : Part marks read?) (a : α) (cs : List Char) :
    ∃ text, IsPart marks text ∧ cs = text ++ ((read? cs).getD (a, cs)).2 ∧
      ∀ rest, (∀ c ∈ rest.head?, c.isDigit = false ∧ c ∉ marks) →
        (read? (text ++ rest)).isNone = (read? cs).isNone ∧
          (read? (text ++ rest)).getD (a, text ++ rest) = (((read? cs).getD (a, cs)).1, rest) := by
  cases hread : read? cs with
  | none =>
    refine ⟨[], .inl rfl, rfl, fun rest hrest => ?_⟩
    rw [List.nil_append, h.of_not_mem rest fun c hc => (hrest c hc).2]
    exact ⟨rfl, rfl⟩
  | some read =>
    obtain ⟨mark, hmark, between, ds, hds, rfl, hagain⟩ := h.of_some cs read.1 read.2 hread
    refine ⟨_, .inr ⟨mark, hmark, between, ds, hds, rfl⟩, rfl, fun rest hrest => ?_⟩
    rw [hagain rest fun c hc => (hrest c hc).1]
    exact ⟨rfl, rfl⟩

lemma readNumber_of_readWhole {negative : Bool} {cs whole rest : List Char}
    (h : readWhole cs = some (whole, rest)) :
    readNumber negative cs =
      let fraction := (readFraction? rest).getD ([], rest)
      let exponent := (readExponent? fraction.2).getD (0, fraction.2)
      if (readFraction? rest).isNone && (readExponent? fraction.2).isNone then
        if Text.maxDigits < whole.length then .error (.tooManyDigits whole.length)
        else
          let n : Int := digitsValue whole
          .ok (.int (if negative then -n else n), exponent.2)
      else
        .ok (.float (.ofDecimal negative (digitsValue (whole ++ fraction.1))
          (exponent.1 - fraction.1.length)), exponent.2) := by
  rw [readNumber, h]
  rfl

/-- A number is read as far as it goes on. -/
lemma of_readNumber {negative : Bool} {cs rest : List Char} {v : Value}
    (h : readNumber negative cs = .ok (v, rest)) :
    ∃ d text, d.isDigit = true ∧ Trimmed (d :: text) ∧ cs = d :: text ++ rest ∧
      ∀ rest', EndsNumber rest' → readNumber negative (d :: text ++ rest') = .ok (v, rest') := by
  cases hread : readWhole cs with
  | none =>
    rw [readNumber, hread] at h
    cases h
  | some read =>
    obtain ⟨whole, cs'⟩ := read
    obtain ⟨hdigits, rfl, hwhole⟩ := of_readWhole hread
    obtain ⟨fraction, hfraction, hcs, hreadFraction⟩ := part_fraction.exists_text [] cs'
    obtain ⟨exponent, hexponent, hcs', hreadExponent⟩ :=
      part_exponent.exists_text 0 ((readFraction? cs').getD ([], cs')).2
    have hagain (rest' : List Char) (hrest' : EndsNumber rest') :
        readNumber negative (whole ++ (fraction ++ (exponent ++ rest'))) = .ok (v, rest') ∧
          ((readExponent? ((readFraction? cs').getD ([], cs')).2).getD
            (0, ((readFraction? cs').getD ([], cs')).2)).2 = rest := by
      obtain ⟨hnone, hget⟩ := hreadFraction (exponent ++ rest') <|
        hexponent.forall_head (by simp) fun c hc =>
          ⟨(hrest' c hc).1, by simpa using (hrest' c hc).2.1⟩
      obtain ⟨hnone', hget'⟩ := hreadExponent rest' fun c hc =>
        ⟨(hrest' c hc).1, by simpa using (hrest' c hc).2.2⟩
      have hreadWhole := hwhole (fraction ++ (exponent ++ rest')) <|
        hfraction.forall_head (by simp) <|
          hexponent.forall_head (by simp) fun c hc => (hrest' c hc).1
      rw [readNumber_of_readWhole hread] at h
      rw [readNumber_of_readWhole hreadWhole]
      dsimp only at h ⊢
      rw [hnone, hget, hnone', hget']
      split at h
      · split at h
        · cases h
        · rename_i hshort hmax
          cases h
          rw [if_pos hshort, if_neg hmax]
          exact ⟨rfl, rfl⟩
      · rename_i hlong
        cases h
        rw [if_neg hlong]
        exact ⟨rfl, rfl⟩
    rw [(hagain [] nofun).2] at hcs'
    obtain ⟨d, ds, rfl⟩ := List.exists_cons_of_ne_nil hdigits.ne_nil
    refine ⟨d, ds ++ fraction ++ exponent, hdigits.isDigit d List.mem_cons_self, ?_, ?_, ?_⟩
    · exact hexponent.trimmed (hfraction.trimmed hdigits.trimmed)
    · rw [hcs, hcs']
      simp
    · intro rest' hrest'
      simpa using (hagain rest' hrest').1

/-! ### Strings and words -/

/-- A string is read up to its closing quote. -/
lemma of_readUnits {cs rest : List Char} {units : List Nat}
    (h : readUnits cs = some (units, rest)) :
    ∃ text, cs = text ++ '\"' :: rest ∧
      ∀ rest', readUnits (text ++ '\"' :: rest') = some (units, rest') := by
  induction cs using readUnits.induct generalizing units with
  | case1 cs =>
    cases h
    exact ⟨[], rfl, fun _ => rfl⟩
  | case2 a b c d cs ih =>
    rw [readUnits] at h
    obtain ⟨unit, hunit, h⟩ := Option.bind_eq_some_iff.mp h
    obtain ⟨⟨units', rest'⟩, hunits, h⟩ := Option.bind_eq_some_iff.mp h
    cases h
    obtain ⟨text, rfl, hagain⟩ := ih hunits
    refine ⟨'\\' :: 'u' :: a :: b :: c :: d :: text, rfl, fun rest' => ?_⟩
    simp only [List.cons_append]
    rw [readUnits, hunit, hagain]
    rfl
  | case3 e cs hu ih =>
    rw [readUnits.eq_3 _ _ hu] at h
    obtain ⟨unit, hunit, h⟩ := Option.bind_eq_some_iff.mp h
    obtain ⟨⟨units', rest'⟩, hunits, h⟩ := Option.bind_eq_some_iff.mp h
    cases h
    obtain ⟨text, rfl, hagain⟩ := ih hunits
    refine ⟨'\\' :: e :: text, rfl, fun rest' => ?_⟩
    simp only [List.cons_append]
    rw [readUnits.eq_3, hunit, hagain]
    · rfl
    · -- an escaped `u` is no short escape
      rintro _ _ _ _ _ rfl
      cases hunit
  | case4 c cs hquote hu hescape hc =>
    rw [readUnits.eq_4 _ _ hquote hu hescape, if_pos hc] at h
    cases h
  | case5 c cs hquote hu hescape hc ih =>
    rw [readUnits.eq_4 _ _ hquote hu hescape, if_neg hc] at h
    obtain ⟨⟨units', rest'⟩, hunits, h⟩ := Option.bind_eq_some_iff.mp h
    cases h
    have hbackslash : c ≠ '\\' := by
      rintro rfl
      cases cs with
      | nil => cases hunits
      | cons e cs => exact hescape e cs rfl rfl
    obtain ⟨text, rfl, hagain⟩ := ih hunits
    refine ⟨c :: text, rfl, fun rest' => ?_⟩
    rw [List.cons_append, readUnits.eq_4, if_neg hc, hagain]
    · rfl
    · exact hquote
    · exact fun _ _ _ _ _ hc' => absurd hc' hbackslash
    · exact fun _ _ hc' => absurd hc' hbackslash
  | case6 => cases h

lemma of_readString {cs rest : List Char} {s : Text} (h : readString cs = some (s, rest)) :
    ∃ text, cs = text ++ '\"' :: rest ∧
      ∀ rest', readString (text ++ '\"' :: rest') = some (s, rest') := by
  obtain ⟨⟨units, rest'⟩, hunits, h⟩ := Option.bind_eq_some_iff.mp h
  cases h
  obtain ⟨text, rfl, hagain⟩ := of_readUnits hunits
  refine ⟨text, rfl, fun rest' => ?_⟩
  rw [readString, hagain]
  rfl

lemma of_dropWord? {word : String} {cs rest : List Char} (h : dropWord? word cs = some rest) :
    cs = word.toList ++ rest := by
  unfold dropWord? at h
  dsimp only at h
  split at h
  · rename_i hprefix
    obtain ⟨rest', rfl⟩ := List.isPrefixOf_iff_prefix.mp hprefix
    cases h
    rw [List.drop_left]
  · cases h

lemma readPlain_of_digit {d : Char} (hd : d.isDigit = true) (cs : List Char) :
    readPlain (d :: cs) = readNumber false (d :: cs) := by
  have hne (c : Char) (hc : c.isDigit = false) : c ≠ d := by
    rintro rfl
    rw [hd] at hc
    cases hc
  simp [readPlain, dropWord?, hne 'n' rfl, hne 't' rfl, hne 'f' rfl, hne 'N' rfl, hne 'I' rfl,
    hne '-' rfl, (hne '-' rfl).symm]

lemma readPlain_of_minus {d : Char} (hd : d.isDigit = true) (cs : List Char) :
    readPlain ('-' :: d :: cs) = readNumber true (d :: cs) := by
  have hne : 'I' ≠ d := by
    rintro rfl
    cases hd
  simp [readPlain, dropWord?, hne]

/-! ### Values -/

/-- What is read for `a` at the start of `cs`, up to `rest`, is trimmed, and is read as well with
any other fuel that is enough for its length, whatever comes after it that ends a number. -/
def Cuts {α : Type} (read : Nat → List Char → Except ReadError (α × List Char))
    (cs : List Char) (a : α) (rest : List Char) : Prop :=
  ∃ text, Trimmed text ∧ cs = text ++ rest ∧ ∀ fuel rest', text.length ≤ fuel →
    EndsNumber rest' → read fuel (text ++ rest') = .ok (a, rest')

/-- Characters that start a string, a list or an object. -/
def opening : List Char := ['\"', '[', '\x7b']

/-- A word or a number is read as far as it goes on. -/
lemma of_readPlain {cs rest : List Char} {v : Value} (h : readPlain cs = .ok (v, rest)) :
    ∃ text, Trimmed text ∧ (∀ c ∈ text.head?, c ∉ opening) ∧ cs = text ++ rest ∧
      ∀ rest', EndsNumber rest' → readPlain (text ++ rest') = .ok (v, rest') := by
  have hnumber (d : Char) (hd : d.isDigit = true) : d ∉ opening := by
    rintro hmem
    simp only [opening, List.mem_cons, List.not_mem_nil, or_false] at hmem
    rcases hmem with rfl | rfl | rfl <;> cases hd
  unfold readPlain at h
  dsimp only at h
  split at h
  · rename_i read hread
    cases h
    obtain ⟨⟨word, w⟩, hmem, hw⟩ := List.exists_of_findSome?_eq_some hread
    obtain ⟨rest', hdrop, heq⟩ := Option.map_eq_some_iff.mp hw
    cases heq
    have hword : Trimmed word.toList ∧ (∀ c ∈ word.toList.head?, c ∉ opening) ∧
        ∀ rest', readPlain (word.toList ++ rest') = .ok (w, rest') := by
      simp only [List.mem_cons, Prod.mk.injEq, List.not_mem_nil, or_false] at hmem
      rcases hmem with ⟨rfl, rfl⟩ | ⟨rfl, rfl⟩ | ⟨rfl, rfl⟩ | ⟨rfl, rfl⟩ | ⟨rfl, rfl⟩ |
          ⟨rfl, rfl⟩ <;>
        exact ⟨⟨⟨_, rfl, rfl⟩, _, rfl, rfl⟩, by rintro _ ⟨⟩; decide, fun _ => rfl⟩
    exact ⟨word.toList, hword.1, hword.2.1, of_dropWord? hdrop, fun rest' _ => hword.2.2 rest'⟩
  · split at h
    · obtain ⟨d, text, hd, htext, rfl, hagain⟩ := of_readNumber h
      refine ⟨'-' :: d :: text, ?_, ?_, rfl, fun rest' hrest' => ?_⟩
      · exact (trimmed_single rfl).around [] htext
      · rintro _ ⟨⟩
        decide
      · rw [← hagain rest' hrest']
        exact readPlain_of_minus hd _
    · obtain ⟨d, text, hd, htext, rfl, hagain⟩ := of_readNumber h
      refine ⟨d :: text, htext, ?_, rfl, fun rest' hrest' => ?_⟩
      · rintro _ ⟨⟩
        exact hnumber d hd
      · rw [← hagain rest' hrest']
        exact readPlain_of_digit hd _

section

variable {α : Type} {read : Nat → List Char → Except ReadError (α × List Char)}
  {a : α} {cs cs' rest : List Char} {mark : Char}

/-- Characters that stand between values or after them. -/
def marks : List Char := [',', ':', ']', '\x7d']

lemma isBlank_of_mem_marks (h : mark ∈ marks) : Text.isBlank mark = false := by
  simp only [marks, List.mem_cons, List.not_mem_nil, or_false] at h
  rcases h with rfl | rfl | rfl | rfl <;> rfl

lemma endsNumber_of_mem_marks (h : mark ∈ marks) (rest : List Char) :
    EndsNumber (mark :: rest) := by
  simp only [marks, List.mem_cons, List.not_mem_nil, or_false] at h
  rcases h with rfl | rfl | rfl | rfl <;> (rintro _ ⟨⟩; decide)

/-- What stands before a mark is read as well before the mark and anything else. -/
lemma Cuts.before_mark (h : Cuts read cs a cs') (hmark : mark ∈ marks)
    (hskip : skipBlanks cs' = mark :: rest) :
    ∃ text, Trimmed (text ++ [mark]) ∧ cs = text ++ mark :: rest ∧
      ∀ fuel rest', text.length ≤ fuel → ∃ cs'', read fuel (text ++ mark :: rest') = .ok (a, cs'') ∧
        skipBlanks cs'' = mark :: rest' := by
  have htrimmed := trimmed_single (isBlank_of_mem_marks hmark)
  obtain ⟨text, htext, rfl, hagain⟩ := h
  obtain ⟨blanks, hcs', -, hblanks⟩ := exists_skipped cs'
  rw [hskip] at hcs'
  refine ⟨text ++ blanks, htext.around blanks htrimmed, by simp [hcs'], fun fuel rest' hfuel => ?_⟩
  have hskip' : skipBlanks (blanks ++ mark :: rest') = mark :: rest' := by
    rw [hblanks]
    exact skipBlanks_append htrimmed rest'
  refine ⟨blanks ++ mark :: rest', ?_, hskip'⟩
  rw [List.append_assoc]
  refine hagain fuel _ ?_ (endsNumber_of_skipBlanks ?_)
  · rw [List.length_append] at hfuel
    omega
  · rw [hskip']
    exact endsNumber_of_mem_marks hmark rest'

/-- What stands after white space is read as well before anything else. -/
lemma Cuts.after_blanks (h : Cuts read (skipBlanks cs) a rest) :
    ∃ text, (∀ before, Trimmed before → Trimmed (before ++ text)) ∧ cs = text ++ rest ∧
      ∀ rest', EndsNumber rest' →
        (skipBlanks (text ++ rest')).head? = (skipBlanks cs).head? ∧
          ∀ fuel, text.length ≤ fuel → read fuel (skipBlanks (text ++ rest')) = .ok (a, rest') := by
  obtain ⟨text, htext, hcs', hagain⟩ := h
  obtain ⟨blanks, hcs, -, hblanks⟩ := exists_skipped cs
  have hskip (rest' : List Char) : skipBlanks (blanks ++ text ++ rest') = text ++ rest' := by
    rw [List.append_assoc, hblanks, skipBlanks_append htext]
  refine ⟨blanks ++ text, fun before hbefore => ?_, ?_,
    fun rest' hrest' => ⟨?_, fun fuel hfuel => ?_⟩⟩
  · rw [← List.append_assoc]
    exact hbefore.around blanks htext
  · rw [List.append_assoc, ← hcs', ← hcs]
  · obtain ⟨c, hc, -⟩ := htext.first
    rw [hskip, hcs', List.head?_append, List.head?_append, hc]
    rfl
  · rw [List.length_append] at hfuel
    rw [hskip]
    exact hagain fuel rest' (by omega) hrest'

/-! ### Values in a row -/

/-- `many` reads what `one` reads, once or more often, with commas in between and `close` at the
end. -/
structure Separated (close : Char) (one : Nat → List Char → Except ReadError (α × List Char))
    (many : Nat → List Char → Except ReadError (List α × List Char)) : Prop where
  cons : ∀ {fuel cs cs' cs'' rest a as}, one fuel cs = .ok (a, cs') → skipBlanks cs' = ',' :: cs'' →
    many fuel (skipBlanks cs'') = .ok (as, rest) → many (fuel + 1) cs = .ok (a :: as, rest)
  single : ∀ {fuel cs cs' rest a}, one fuel cs = .ok (a, cs') → skipBlanks cs' = close :: rest →
    many (fuel + 1) cs = .ok ([a], rest)
  cases : ∀ {fuel cs rest as}, many (fuel + 1) cs = .ok (as, rest) → ∃ a cs',
    one fuel cs = .ok (a, cs') ∧ ((as = [a] ∧ skipBlanks cs' = close :: rest) ∨
      ∃ cs'' others, as = a :: others ∧ skipBlanks cs' = ',' :: cs'' ∧
        many fuel (skipBlanks cs'') = .ok (others, rest))

variable {close : Char} {one : Nat → List Char → Except ReadError (α × List Char)}
  {many : Nat → List Char → Except ReadError (List α × List Char)} {as : List α}

lemma Separated.cuts_cons (h : Separated close one many) (hone : Cuts one cs a cs')
    (hskip : skipBlanks cs' = ',' :: rest) {rest' : List Char}
    (hmany : Cuts many (skipBlanks rest) as rest') : Cuts many cs (a :: as) rest' := by
  obtain ⟨text, htext, rfl, hagain⟩ := hone.before_mark (by simp [marks]) hskip
  obtain ⟨others, hothers, rfl, hagain'⟩ := hmany.after_blanks
  refine ⟨text ++ [','] ++ others, hothers _ htext, by simp, fun fuel rest'' hfuel hrest => ?_⟩
  cases fuel with
  | zero => simp at hfuel
  | succ fuel =>
    simp only [List.length_append, List.length_singleton] at hfuel
    obtain ⟨cs'', hread, hskip'⟩ := hagain fuel (others ++ rest'') (by omega)
    rw [List.append_assoc, List.append_assoc, List.singleton_append]
    exact h.cons hread hskip' ((hagain' rest'' hrest).2 fuel (by omega))

lemma Separated.cuts_single (h : Separated close one many) (hclose : close ∈ marks)
    (hone : Cuts one cs a cs') (hskip : skipBlanks cs' = close :: rest) :
    Cuts many cs [a] rest := by
  obtain ⟨text, htext, rfl, hagain⟩ := hone.before_mark hclose hskip
  refine ⟨text ++ [close], htext, by simp, fun fuel rest' hfuel _ => ?_⟩
  cases fuel with
  | zero => simp at hfuel
  | succ fuel =>
    simp only [List.length_append, List.length_singleton] at hfuel
    obtain ⟨cs'', hread, hskip'⟩ := hagain fuel rest' (by omega)
    rw [List.append_assoc, List.singleton_append]
    exact h.single hread hskip'

lemma Separated.cuts (h : Separated close one many) (hclose : close ∈ marks) {fuel : Nat}
    (hone : ∀ {cs rest a}, one fuel cs = .ok (a, rest) → Cuts one cs a rest)
    (hmany : ∀ {cs rest as}, many fuel cs = .ok (as, rest) → Cuts many cs as rest)
    (hread : many (fuel + 1) cs = .ok (as, rest)) : Cuts many cs as rest := by
  obtain ⟨a, cs', hfirst, ⟨rfl, hskip⟩ | ⟨cs'', others, rfl, hskip, hothers⟩⟩ := h.cases hread
  · exact h.cuts_single hclose (hone hfirst) hskip
  · exact h.cuts_cons (hone hfirst) hskip (hmany hothers)

end

lemma separated_items : Separated ']' readValue readItems where
  cons hone hskip hmany := by
    rw [readItems, hone]
    simp only [bind, Except.bind, hskip, hmany]
    rfl
  single hone hskip := by
    rw [readItems, hone]
    simp only [bind, Except.bind, hskip]
    rfl
  cases h := by
    rw [readItems] at h
    obtain ⟨⟨item, cs'⟩, hone, h⟩ := exists_of_bind_eq_ok h
    dsimp only at h
    split at h
    · rename_i hskip
      obtain ⟨⟨others, rest⟩, hmany, h⟩ := exists_of_bind_eq_ok h
      cases h
      exact ⟨item, cs', hone, .inr ⟨_, others, rfl, hskip, hmany⟩⟩
    · rename_i hskip
      cases h
      exact ⟨item, cs', hone, .inl ⟨rfl, hskip⟩⟩
    · cases h

/-- A string from its opening quote on. -/
def readQuoted (_ : Nat) : List Char → Except ReadError (Text × List Char)
  | '\"' :: cs => orMalformed (readString cs)
  | _ => .error .malformed

lemma cuts_quoted {fuel : Nat} {cs rest : List Char} {s : Text}
    (h : readQuoted fuel cs = .ok (s, rest)) : Cuts readQuoted cs s rest := by
  unfold readQuoted at h
  split at h
  · rename_i cs
    cases hread : readString cs with
    | none =>
      rw [hread] at h
      cases h
    | some read =>
      rw [hread] at h
      cases h
      obtain ⟨text, rfl, hagain⟩ := of_readString hread
      have hquote : Trimmed ['\"'] := trimmed_single rfl
      refine ⟨['\"'] ++ text ++ ['\"'], hquote.around text hquote, by simp, fun _ rest' _ _ => ?_⟩
      simp [readQuoted, hagain, orMalformed]
  · cases h

/-- The rest of a member of an object after its key. -/
def readMemberValue (fuel : Nat) (key : Text) :
    List Char → Except ReadError ((Value × Value) × List Char)
  | ':' :: cs => do
    let (v, rest) ← readValue fuel (skipBlanks cs)
    return ((.str key, v), rest)
  | _ => .error .malformed

/-- A member of an object. -/
def readMember (fuel : Nat) (cs : List Char) : Except ReadError ((Value × Value) × List Char) := do
  let (key, cs) ← readQuoted fuel cs
  readMemberValue fuel key (skipBlanks cs)

lemma readMembers_succ (fuel : Nat) (cs : List Char) :
    readMembers (fuel + 1) cs = (do
      let (member, cs) ← readMember fuel cs
      match skipBlanks cs with
      | ',' :: cs =>
        let (entries, rest) ← readMembers fuel (skipBlanks cs)
        return (member :: entries, rest)
      | '\x7d' :: rest => return ([member], rest)
      | _ => throw .malformed) := by
  rw [readMembers.eq_def, readMember, bind_assoc]
  dsimp only
  split
  · rw [readQuoted]
    refine bind_congr fun read => ?_
    obtain ⟨key, cs⟩ := read
    dsimp only
    split
    · rename_i hskip
      rw [hskip, readMemberValue, bind_assoc]
      rfl
    · rename_i hcolon
      rw [readMemberValue.eq_2 _ _ _ hcolon]
      rfl
  · rename_i hquote
    rw [readQuoted.eq_2 _ _ hquote]
    rfl

lemma separated_members : Separated '\x7d' readMember readMembers where
  cons hone hskip hmany := by
    rw [readMembers_succ, hone]
    simp only [bind, Except.bind, hskip, hmany]
    rfl
  single hone hskip := by
    rw [readMembers_succ, hone]
    simp only [bind, Except.bind, hskip]
    rfl
  cases h := by
    rw [readMembers_succ] at h
    obtain ⟨⟨member, cs'⟩, hone, h⟩ := exists_of_bind_eq_ok h
    dsimp only at h
    split at h
    · rename_i hskip
      obtain ⟨⟨others, rest⟩, hmany, h⟩ := exists_of_bind_eq_ok h
      cases h
      exact ⟨member, cs', hone, .inr ⟨_, others, rfl, hskip, hmany⟩⟩
    · rename_i hskip
      cases h
      exact ⟨member, cs', hone, .inl ⟨rfl, hskip⟩⟩
    · cases h

lemma cuts_member {fuel : Nat} {cs rest : List Char} {member : Value × Value}
    (hvalue : ∀ {cs rest v}, readValue fuel cs = .ok (v, rest) → Cuts readValue cs v rest)
    (h : readMember fuel cs = .ok (member, rest)) : Cuts readMember cs member rest := by
  obtain ⟨⟨key, cs'⟩, hkey, h⟩ := exists_of_bind_eq_ok h
  dsimp only at h
  unfold readMemberValue at h
  split at h
  · rename_i hskip
    obtain ⟨⟨v, rest'⟩, hv, h⟩ := exists_of_bind_eq_ok h
    cases h
    obtain ⟨text, htext, rfl, hagain⟩ := (cuts_quoted hkey).before_mark (by simp [marks]) hskip
    obtain ⟨text', htext', rfl, hagain'⟩ := (hvalue hv).after_blanks
    refine ⟨text ++ [':'] ++ text', htext' _ htext, by simp, fun fuel rest'' hfuel hrest => ?_⟩
    simp only [List.length_append, List.length_singleton] at hfuel
    obtain ⟨cs'', hread, hskip'⟩ := hagain fuel (text' ++ rest'') (by omega)
    rw [List.append_assoc, List.append_assoc, List.singleton_append, readMember, hread]
    simp only [bind, Except.bind, hskip', readMemberValue,
      (hagain' rest'' hrest).2 fuel (by omega)]
    rfl
  · cases h

/-! ### Whole values -/

section

variable {α : Type} {read : Nat → List Char → Except ReadError (α × List Char)} {a : α}
  {cs rest : List Char} {start close : Char} {v : Value} {f : α → Value}

/-- Brackets of either kind around nothing. -/
lemma cuts_empty (hstart : Text.isBlank start = false) (hclose : close ∈ marks)
    (hvalue : ∀ {fuel cs rest}, skipBlanks cs = close :: rest →
      readValue (fuel + 1) (start :: cs) = .ok (v, rest))
    (hskip : skipBlanks cs = close :: rest) : Cuts readValue (start :: cs) v rest := by
  have htrimmed := trimmed_single (isBlank_of_mem_marks hclose)
  obtain ⟨blanks, hcs, -, hblanks⟩ := exists_skipped cs
  refine ⟨[start] ++ blanks ++ [close], (trimmed_single hstart).around blanks htrimmed, ?_,
    fun fuel rest' hfuel _ => ?_⟩
  · rw [hcs, hskip]
    simp
  · cases fuel with
    | zero => simp at hfuel
    | succ fuel =>
      rw [List.append_assoc, List.append_assoc, List.singleton_append]
      exact hvalue ((hblanks _).trans (skipBlanks_append htrimmed rest'))

/-- Brackets of either kind around what `read` reads. -/
lemma Cuts.bracketed (h : Cuts read (skipBlanks cs) a rest) (hstart : Text.isBlank start = false)
    (hvalue : ∀ {fuel cs a rest}, (skipBlanks cs).head? ≠ some close →
      read fuel (skipBlanks cs) = .ok (a, rest) →
      readValue (fuel + 1) (start :: cs) = .ok (f a, rest))
    (hclose : (skipBlanks cs).head? ≠ some close) : Cuts readValue (start :: cs) (f a) rest := by
  obtain ⟨text, htext, hcs, hagain⟩ := h.after_blanks
  refine ⟨[start] ++ text, htext _ (trimmed_single hstart), by rw [hcs]; rfl,
    fun fuel rest' hfuel hrest => ?_⟩
  cases fuel with
  | zero => simp at hfuel
  | succ fuel =>
    simp only [List.length_append, List.length_singleton] at hfuel
    obtain ⟨hhead, hread⟩ := hagain rest' hrest
    rw [List.append_assoc, List.singleton_append]
    exact hvalue (hhead ▸ hclose) (hread fuel (by omega))

end

lemma readValue_string {fuel fuel' : Nat} {cs rest : List Char} {s : Text}
    (h : readQuoted fuel cs = .ok (s, rest)) : readValue (fuel' + 1) cs = .ok (.str s, rest) := by
  unfold readQuoted at h
  split at h
  · rw [readValue, h]
    rfl
  · cases h

lemma readValue_list {fuel : Nat} {cs rest : List Char} {items : List Value}
    (hclose : (skipBlanks cs).head? ≠ some ']')
    (h : readItems fuel (skipBlanks cs) = .ok (items, rest)) :
    readValue (fuel + 1) ('[' :: cs) = .ok (.list items, rest) := by
  rw [readValue]
  split
  · rename_i hskip
    exact absurd (congrArg List.head? hskip) hclose
  · rw [h]
    rfl

lemma readValue_object {fuel : Nat} {cs rest : List Char} {entries : List (Value × Value)}
    (hclose : (skipBlanks cs).head? ≠ some '\x7d')
    (h : readMembers fuel (skipBlanks cs) = .ok (entries, rest)) :
    readValue (fuel + 1) ('\x7b' :: cs) = .ok (.ofEntries entries, rest) := by
  rw [readValue]
  split
  · rename_i hskip
    exact absurd (congrArg List.head? hskip) hclose
  · rw [h]
    rfl

lemma readValue_plain {cs : List Char} (h : ∀ c ∈ cs.head?, c ∉ opening) (fuel : Nat) :
    readValue (fuel + 1) cs = readPlain cs := by
  rw [readValue.eq_def]
  dsimp only
  split
  · exact absurd (by simp [opening]) (h _ rfl)
  · exact absurd (by simp [opening]) (h _ rfl)
  · exact absurd (by simp [opening]) (h _ rfl)
  · rfl

/-- What reads a value without looking at its fuel reads it as a value. -/
lemma cuts_value {cs text rest : List Char} {v : Value} (htext : Trimmed text)
    (hcs : cs = text ++ rest)
    (h : ∀ fuel rest', EndsNumber rest' → readValue (fuel + 1) (text ++ rest') = .ok (v, rest')) :
    Cuts readValue cs v rest := by
  refine ⟨text, htext, hcs, fun fuel rest' hfuel hrest => ?_⟩
  obtain ⟨fuel, rfl⟩ := Nat.exists_eq_add_one.mpr (htext.length_pos.trans_le hfuel)
  exact h fuel rest' hrest

lemma cuts_string {fuel : Nat} {cs rest : List Char} {s : Text}
    (h : readQuoted fuel cs = .ok (s, rest)) : Cuts readValue cs (.str s) rest := by
  obtain ⟨text, htext, hcs, hagain⟩ := cuts_quoted h
  exact cuts_value htext hcs fun fuel rest' hrest =>
    readValue_string (hagain text.length rest' le_rfl hrest)

lemma cuts_plain {cs rest : List Char} {v : Value} (h : readPlain cs = .ok (v, rest)) :
    Cuts readValue cs v rest := by
  obtain ⟨text, htext, hhead, hcs, hagain⟩ := of_readPlain h
  refine cuts_value htext hcs fun fuel rest' hrest => ?_
  rw [readValue_plain, hagain rest' hrest]
  obtain ⟨c, hc, -⟩ := htext.first
  rw [List.head?_append, hc]
  rw [hc] at hhead
  exact hhead

/-- What the readers read can be cut out. -/
lemma cuts_of_read (fuel : Nat) :
    (∀ {cs rest v}, readValue fuel cs = .ok (v, rest) → Cuts readValue cs v rest) ∧
      (∀ {cs rest items}, readItems fuel cs = .ok (items, rest) → Cuts readItems cs items rest) ∧
      ∀ {cs rest entries}, readMembers fuel cs = .ok (entries, rest) →
        Cuts readMembers cs entries rest := by
  induction fuel with
  | zero => exact ⟨nofun, nofun, nofun⟩
  | succ fuel ih =>
    obtain ⟨ihvalue, ihitems, ihmembers⟩ := ih
    refine ⟨fun {cs rest v} h => ?_, separated_items.cuts (by simp [marks]) ihvalue ihitems,
      separated_members.cuts (by simp [marks]) (cuts_member ihvalue) ihmembers⟩
    rw [readValue.eq_def] at h
    dsimp only at h
    split at h
    · obtain ⟨⟨s, rest'⟩, hread, h⟩ := exists_of_bind_eq_ok h
      cases h
      exact @cuts_string fuel _ _ _ hread
    · split at h
      · rename_i hskip
        cases h
        refine cuts_empty rfl (by simp [marks]) (fun hskip => ?_) hskip
        rw [readValue, hskip]
        rfl
      · rename_i hclose
        obtain ⟨⟨items, rest'⟩, hitems, h⟩ := exists_of_bind_eq_ok h
        cases h
        refine (ihitems hitems).bracketed rfl readValue_list fun hhead => ?_
        obtain ⟨cs', hcs'⟩ := List.head?_eq_some_iff.mp hhead
        exact hclose cs' hcs'
    · split at h
      · rename_i hskip
        cases h
        refine cuts_empty rfl (by simp [marks]) (fun hskip => ?_) hskip
        rw [readValue, hskip]
        rfl
      · rename_i hclose
        obtain ⟨⟨entries, rest'⟩, hentries, h⟩ := exists_of_bind_eq_ok h
        cases h
        refine (ihmembers hentries).bracketed rfl readValue_object fun hhead => ?_
        obtain ⟨cs', hcs'⟩ := List.head?_eq_some_iff.mp hhead
        exact hclose cs' hcs'
    · exact cuts_plain h

/-- White space around a document does not count, be it white space of JSON or not. -/
theorem decode_strip {text before after : List Char} {v : Value} (h : decode text = .ok v)
    (hbefore : ∀ c ∈ before, Text.isBlank c = true) (hafter : ∀ c ∈ after, Text.isBlank c = true) :
    decode (Text.strip (before ++ text ++ after)) = .ok v := by
  obtain ⟨⟨v', rest⟩, hread, h⟩ := exists_of_bind_eq_ok h
  dsimp only at h
  split at h
  · rename_i hrest
    cases h
    obtain ⟨core, hcore, hskip, hagain⟩ := (cuts_of_read _).1 hread
    obtain ⟨blanks, htext, hblanks, -⟩ := exists_skipped text
    obtain ⟨blanks', hrest', hblanks', -⟩ := exists_skipped rest
    rw [List.isEmpty_iff.mp hrest, List.append_nil] at hrest'
    subst hrest'
    have hparts : before ++ text ++ after = before ++ blanks ++ core ++ (rest ++ after) := by
      rw [htext, hskip]
      simp
    have hdecode : decode core = .ok v := by
      have hread := hagain (core.length + 1) [] (Nat.le_succ _) nofun
      have hskip := skipBlanks_append hcore []
      rw [List.append_nil] at hread hskip
      rw [decode, hskip, hread]
      rfl
    rwa [hparts, hcore.strip_append]
    · exact List.forall_mem_append.mpr ⟨hbefore, hblanks⟩
    · exact List.forall_mem_append.mpr ⟨hblanks', hafter⟩
  · cases h

end Json
end Motif
