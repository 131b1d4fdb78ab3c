import Motif.Value.Equality
import Mathlib.Data.List.Forall2

/-!
# Likeness is an equivalence

A value is alike to itself, and likeness holds in chains and both ways. The last asks that no
dictionary has two keys that are alike, which is so for every dictionary that is made from entries.
-/

namespace Motif

/-! ### What a value is alike to -/

namespace Value

variable {v w : Value}

@[simp] lemma alike_null : Value.null.alike w = true ↔ w = .null := by
  cases w <;> simp [alike]

@[simp] lemma alike_rest : Value.rest.alike w = true ↔ w = .rest := by
  cases w <;> simp [alike]

@[simp] lemma alike_form {f : Form} : (Value.form f).alike w = true ↔ w = .form f := by
  cases w with
  | form g => simpa [alike] using eq_comm
  | _ => simp [alike]

@[simp] lemma alike_str {s : Text} : (Value.str s).alike w = true ↔ w = .str s := by
  cases w with
  | str t => simpa [alike] using eq_comm
  | _ => simp [alike]

/-- A number is alike to what has the same quantity. -/
lemma alike_of_quantity {q : Quantity} (hv : v.quantity? = some q) :
    v.alike w = true ↔ w.quantity? = some q := by
  cases v with
  | bool b => simpa [alike, hv] using eq_comm
  | int n => simpa [alike, hv] using eq_comm
  | float x => simpa [alike, hv] using eq_comm
  | _ => simp [quantity?] at hv

@[simp] lemma alike_seq {shape : Shape} {items : List Value} :
    (Value.seq shape items).alike w = true ↔
      ∃ items', w = .seq shape items' ∧ alikeItems items items' = true := by
  cases w with
  | seq shape' items' =>
    simp only [alike, Bool.and_eq_true, beq_iff_eq, seq.injEq]
    constructor
    · rintro ⟨rfl, h⟩
      exact ⟨items', ⟨rfl, rfl⟩, h⟩
    · rintro ⟨_, ⟨rfl, rfl⟩, h⟩
      exact ⟨rfl, h⟩
  | _ => simp [alike]

@[simp] lemma alike_dict {entries : List (Value × Value)} :
    (Value.dict entries).alike w = true ↔ ∃ entries', w = .dict entries' ∧
      entries.length = entries'.length ∧ alikeEntries entries entries' = true := by
  cases w with
  | dict entries' => simp [alike]
  | _ => simp [alike]

@[simp] lemma alike_matcher {m : Matcher} :
    (Value.matcher m).alike w = true ↔ ∃ m', w = .matcher m' ∧ m.alike m' = true := by
  cases w <;> simp [alike]

end Value

@[simp] lemma alikeItems_iff {vs ws : List Value} :
    alikeItems vs ws = true ↔ List.Forall₂ (fun v w => v.alike w = true) vs ws := by
  induction vs generalizing ws with
  | nil => cases ws <;> simp [alikeItems]
  | cons v vs ih => cases ws <;> simp [alikeItems, ih]

@[simp] lemma alikeEntries_iff {entries others : List (Value × Value)} :
    alikeEntries entries others = true ↔ ∀ entry ∈ entries, ∃ other ∈ others,
      entry.1.alike other.1 = true ∧ entry.2.alike other.2 = true := by
  induction entries with
  | nil => simp [alikeEntries]
  | cons entry entries ih =>
    obtain ⟨k, v⟩ := entry
    simp only [alikeEntries, Bool.and_eq_true, List.any_eq_true, ih, List.forall_mem_cons]

@[simp] lemma alikeMatchers_iff {ms ms' : List Matcher} :
    alikeMatchers ms ms' = true ↔ List.Forall₂ (fun m m' => m.alike m' = true) ms ms' := by
  induction ms generalizing ms' with
  | nil => cases ms' <;> simp [alikeMatchers]
  | cons m ms ih => cases ms' <;> simp [alikeMatchers, ih]

@[simp] lemma alikeRules_iff {rules rules' : List (Value × Matcher)} :
    alikeRules rules rules' = true ↔
      List.Forall₂ (fun rule rule' => rule.1.alike rule'.1 = true ∧ rule.2.alike rule'.2 = true)
        rules rules' := by
  induction rules generalizing rules' with
  | nil => cases rules' <;> simp [alikeRules]
  | cons rule rules ih =>
    obtain ⟨n, m⟩ := rule
    cases rules' with
    | nil => simp [alikeRules]
    | cons rule' rules' =>
      obtain ⟨n', m'⟩ := rule'
      simp only [alikeRules, Bool.and_eq_true, ih, List.forall₂_cons]

/-! ### What a matcher is alike to -/

namespace Matcher

variable {m : Matcher}

@[simp] lemma alike_constant {v : Value} :
    (Matcher.constant v).alike m = true ↔ ∃ w, m = .constant w ∧ v.alike w = true := by
  cases m <;> simp [alike]

@[simp] lemma alike_element {name : Text} {only : Option Restriction} :
    (Matcher.element name only).alike m = true ↔ m = .element name only := by
  cases m with
  | element name' only' => simpa [alike] using and_congr eq_comm eq_comm
  | _ => simp [alike]

@[simp] lemma alike_segment {name : Text} {only : Option Restriction} :
    (Matcher.segment name only).alike m = true ↔ m = .segment name only := by
  cases m with
  | segment name' only' => simpa [alike] using and_congr eq_comm eq_comm
  | _ => simp [alike]

@[simp] lemma alike_segmentExact {name : Text} {only : Option Restriction} :
    (Matcher.segmentExact name only).alike m = true ↔ m = .segmentExact name only := by
  cases m with
  | segmentExact name' only' => simpa [alike] using and_congr eq_comm eq_comm
  | _ => simp [alike]

@[simp] lemma alike_rest : Matcher.rest.alike m = true ↔ m = .rest := by
  cases m <;> simp [alike]

@[simp] lemma alike_array {elements : List Matcher} :
    (Matcher.array elements).alike m = true ↔
      ∃ elements', m = .array elements' ∧ alikeMatchers elements elements' = true := by
  cases m <;> simp [alike]

@[simp] lemma alike_choice {alternatives : List Matcher} :
    (Matcher.choice alternatives).alike m = true ↔
      ∃ alternatives', m = .choice alternatives' ∧
        alikeMatchers alternatives alternatives' = true := by
  cases m <;> simp [alike]

@[simp] lemma alike_reference {name : Text} :
    (Matcher.reference name).alike m = true ↔ m = .reference name := by
  cases m with
  | reference name' => simpa [alike] using eq_comm
  | _ => simp [alike]

@[simp] lemma alike_letrec {rules : List (Value × Matcher)} {body : Matcher} :
    (Matcher.letrec rules body).alike m = true ↔
      ∃ rules' body', m = .letrec rules' body' ∧ alikeRules rules rules' = true ∧
        body.alike body' = true := by
  cases m with
  | letrec rules' body' => simp [alike]
  | _ => simp [alike]

@[simp] lemma alike_abstract {stamp : Nat} :
    (Matcher.abstract stamp).alike m = true ↔ m = .abstract stamp := by
  cases m with
  | abstract stamp' => simpa [alike] using eq_comm
  | _ => simp [alike]

end Matcher

/-! ### Likeness to itself -/

mutual

theorem Value.alike_refl : (v : Value) → v.alike v = true
  | .null => by simp
  | .bool b => (Value.alike_of_quantity rfl).mpr rfl
  | .int n => (Value.alike_of_quantity rfl).mpr rfl
  | .float x => (Value.alike_of_quantity rfl).mpr rfl
  | .str s => by simp
  | .seq shape items => Value.alike_seq.mpr ⟨items, rfl, alikeItems_refl items⟩
  | .dict entries => Value.alike_dict.mpr ⟨entries, rfl, rfl, by
      rw [alikeEntries_iff]
      exact fun entry hentry => ⟨entry, hentry, alike_refl_of_mem entries entry hentry⟩⟩
  | .rest => by simp
  | .form f => by simp
  | .matcher m => Value.alike_matcher.mpr ⟨m, rfl, Matcher.alike_refl m⟩

theorem alikeItems_refl : (vs : List Value) → alikeItems vs vs = true
  | [] => by simp [alikeItems]
  | v :: vs => by simp only [alikeItems, Value.alike_refl v, alikeItems_refl vs, Bool.and_self]

theorem alike_refl_of_mem : (entries : List (Value × Value)) → (entry : Value × Value) →
    entry ∈ entries → entry.1.alike entry.1 = true ∧ entry.2.alike entry.2 = true
  | (k, v) :: entries, entry, hentry => by
    rcases List.mem_cons.mp hentry with rfl | hentry
    · exact ⟨Value.alike_refl k, Value.alike_refl v⟩
    · exact alike_refl_of_mem entries entry hentry

theorem Matcher.alike_refl : (m : Matcher) → m.alike m = true
  | .constant v => Matcher.alike_constant.mpr ⟨v, rfl, Value.alike_refl v⟩
  | .element .. => by simp
  | .segment .. => by simp
  | .segmentExact .. => by simp
  | .rest => by simp
  | .array elements => Matcher.alike_array.mpr ⟨elements, rfl, alikeMatchers_refl elements⟩
  | .choice alternatives =>
    Matcher.alike_choice.mpr ⟨alternatives, rfl, alikeMatchers_refl alternatives⟩
  | .reference _ => by simp
  | .letrec rules body =>
    Matcher.alike_letrec.mpr ⟨rules, body, rfl, alikeRules_refl rules, Matcher.alike_refl body⟩
  | .abstract _ => by simp

theorem alikeMatchers_refl : (ms : List Matcher) → alikeMatchers ms ms = true
  | [] => by simp [alikeMatchers]
  | m :: ms => by
    simp only [alikeMatchers, Matcher.alike_refl m, alikeMatchers_refl ms, Bool.and_self]

theorem alikeRules_refl : (rules : List (Value × Matcher)) → alikeRules rules rules = true
  | [] => by simp [alikeRules]
  | (n, m) :: rules => by
    simp only [alikeRules, Value.alike_refl n, Matcher.alike_refl m, alikeRules_refl rules,
      Bool.and_self]

end

/-! ### Chains -/

mutual

theorem Value.alike_trans : (u : Value) → {v w : Value} → u.alike v = true → v.alike w = true →
    u.alike w = true
  | .null, v, w, h, h' => by
    obtain rfl := Value.alike_null.mp h
    exact h'
  | .bool b, v, w, h, h' =>
    (Value.alike_of_quantity rfl).mpr
      ((Value.alike_of_quantity ((Value.alike_of_quantity rfl).mp h)).mp h')
  | .int n, v, w, h, h' =>
    (Value.alike_of_quantity rfl).mpr
      ((Value.alike_of_quantity ((Value.alike_of_quantity rfl).mp h)).mp h')
  | .float x, v, w, h, h' =>
    (Value.alike_of_quantity rfl).mpr
      ((Value.alike_of_quantity ((Value.alike_of_quantity rfl).mp h)).mp h')
  | .str s, v, w, h, h' => by
    obtain rfl := Value.alike_str.mp h
    exact h'
  | .seq shape items, v, w, h, h' => by
    obtain ⟨items', rfl, hitems⟩ := Value.alike_seq.mp h
    obtain ⟨items'', rfl, hitems'⟩ := Value.alike_seq.mp h'
    exact Value.alike_seq.mpr ⟨items'', rfl, alikeItems_trans items hitems hitems'⟩
  | .dict entries, v, w, h, h' => by
    obtain ⟨others, rfl, hlength, hothers⟩ := Value.alike_dict.mp h
    obtain ⟨thirds, rfl, hlength', hthirds⟩ := Value.alike_dict.mp h'
    exact Value.alike_dict.mpr
      ⟨thirds, rfl, hlength.trans hlength', alikeEntries_trans entries hothers hthirds⟩
  | .rest, v, w, h, h' => by
    obtain rfl := Value.alike_rest.mp h
    exact h'
  | .form f, v, w, h, h' => by
    obtain rfl := Value.alike_form.mp h
    exact h'
  | .matcher m, v, w, h, h' => by
    obtain ⟨m', rfl, hm⟩ := Value.alike_matcher.mp h
    obtain ⟨m'', rfl, hm'⟩ := Value.alike_matcher.mp h'
    exact Value.alike_matcher.mpr ⟨m'', rfl, Matcher.alike_trans m hm hm'⟩

theorem alikeItems_trans : (us : List Value) → {vs ws : List Value} →
    alikeItems us vs = true → alikeItems vs ws = true → alikeItems us ws = true
  | [], vs, ws, h, h' => by
    obtain rfl : vs = [] := by simpa using h
    exact h'
  | u :: us, vs, ws, h, h' => by
    obtain ⟨v, vs', hv, hvs, rfl⟩ := List.forall₂_cons_left_iff.mp (alikeItems_iff.mp h)
    obtain ⟨w, ws', hw, hws, rfl⟩ := List.forall₂_cons_left_iff.mp (alikeItems_iff.mp h')
    simp only [alikeItems, Bool.and_eq_true]
    exact ⟨Value.alike_trans u hv hw,
      alikeItems_trans us (alikeItems_iff.mpr hvs) (alikeItems_iff.mpr hws)⟩

theorem alikeEntries_trans : (entries : List (Value × Value)) →
    {others thirds : List (Value × Value)} → alikeEntries entries others = true →
    alikeEntries others thirds = true → alikeEntries entries thirds = true
  | [], _, _, _, _ => by simp
  | (k, v) :: entries, others, thirds, h, h' => by
    simp only [alikeEntries, Bool.and_eq_true, List.any_eq_true] at h ⊢
    obtain ⟨⟨other, hother, hk, hv⟩, hentries⟩ := h
    obtain ⟨third, hthird, hk', hv'⟩ := alikeEntries_iff.mp h' other hother
    exact ⟨⟨third, hthird, Value.alike_trans k hk hk', Value.alike_trans v hv hv'⟩,
      alikeEntries_trans entries hentries h'⟩

theorem Matcher.alike_trans : (m : Matcher) → {m' m'' : Matcher} → m.alike m' = true →
    m'.alike m'' = true → m.alike m'' = true
  | .constant v, m', m'', h, h' => by
    obtain ⟨v', rfl, hv⟩ := Matcher.alike_constant.mp h
    obtain ⟨v'', rfl, hv'⟩ := Matcher.alike_constant.mp h'
    exact Matcher.alike_constant.mpr ⟨v'', rfl, Value.alike_trans v hv hv'⟩
  | .element .., m', m'', h, h' => by
    obtain rfl := Matcher.alike_element.mp h
    exact h'
  | .segment .., m', m'', h, h' => by
    obtain rfl := Matcher.alike_segment.mp h
    exact h'
  | .segmentExact .., m', m'', h, h' => by
    obtain rfl := Matcher.alike_segmentExact.mp h
    exact h'
  | .rest, m', m'', h, h' => by
    obtain rfl := Matcher.alike_rest.mp h
    exact h'
  | .array ms, m', m'', h, h' => by
    obtain ⟨ms', rfl, hms⟩ := Matcher.alike_array.mp h
    obtain ⟨ms'', rfl, hms'⟩ := Matcher.alike_array.mp h'
    exact Matcher.alike_array.mpr ⟨ms'', rfl, alikeMatchers_trans ms hms hms'⟩
  | .choice ms, m', m'', h, h' => by
    obtain ⟨ms', rfl, hms⟩ := Matcher.alike_choice.mp h
    obtain ⟨ms'', rfl, hms'⟩ := Matcher.alike_choice.mp h'
    exact Matcher.alike_choice.mpr ⟨ms'', rfl, alikeMatchers_trans ms hms hms'⟩
  | .reference _, m', m'', h, h' => by
    obtain rfl := Matcher.alike_reference.mp h
    exact h'
  | .letrec rules body, m', m'', h, h' => by
    obtain ⟨rules', body', rfl, hrules, hbody⟩ := Matcher.alike_letrec.mp h
    obtain ⟨rules'', body'', rfl, hrules', hbody'⟩ := Matcher.alike_letrec.mp h'
    exact Matcher.alike_letrec.mpr ⟨rules'', body'', rfl, alikeRules_trans rules hrules hrules',
      Matcher.alike_trans body hbody hbody'⟩
  | .abstract _, m', m'', h, h' => by
    obtain rfl := Matcher.alike_abstract.mp h
    exact h'

theorem alikeMatchers_trans : (ms : List Matcher) → {ms' ms'' : List Matcher} →
    alikeMatchers ms ms' = true → alikeMatchers ms' ms'' = true → alikeMatchers ms ms'' = true
  | [], ms', ms'', h, h' => by
    obtain rfl : ms' = [] := by simpa using h
    exact h'
  | m :: ms, ms', ms'', h, h' => by
    obtain ⟨m', others, hm, hms, rfl⟩ := List.forall₂_cons_left_iff.mp (alikeMatchers_iff.mp h)
    obtain ⟨m'', thirds, hm', hms', rfl⟩ := List.forall₂_cons_left_iff.mp (alikeMatchers_iff.mp h')
    simp only [alikeMatchers, Bool.and_eq_true]
    exact ⟨Matcher.alike_trans m hm hm',
      alikeMatchers_trans ms (alikeMatchers_iff.mpr hms) (alikeMatchers_iff.mpr hms')⟩

theorem alikeRules_trans : (rules : List (Value × Matcher)) →
    {rules' rules'' : List (Value × Matcher)} → alikeRules rules rules' = true →
    alikeRules rules' rules'' = true → alikeRules rules rules'' = true
  | [], rules', rules'', h, h' => by
    obtain rfl : rules' = [] := by simpa using h
    exact h'
  | (n, m) :: rules, rules', rules'', h, h' => by
    obtain ⟨rule', others, hrule, hrules, rfl⟩ :=
      List.forall₂_cons_left_iff.mp (alikeRules_iff.mp h)
    obtain ⟨rule'', thirds, hrule', hrules', rfl⟩ :=
      List.forall₂_cons_left_iff.mp (alikeRules_iff.mp h')
    have hfirst := Value.alike_trans n hrule.1 hrule'.1
    have hsecond := Matcher.alike_trans m hrule.2 hrule'.2
    have hothers := alikeRules_trans rules (alikeRules_iff.mpr hrules) (alikeRules_iff.mpr hrules')
    exact alikeRules_iff.mpr (.cons ⟨hfirst, hsecond⟩ (alikeRules_iff.mp hothers))

end

/-! ### Dictionaries with distinct keys -/

mutual

/-- No dictionary in a value has two keys that are alike. -/
def Value.proper : Value → Bool
  | .seq _ items => properItems items
  | .dict entries => properEntries entries
  | .matcher m => m.proper
  | _ => true

/-- As `Value.proper`, for items. -/
def properItems : List Value → Bool
  | [] => true
  | v :: vs => v.proper && properItems vs

/-- As `Value.proper`, for the entries of one dictionary. -/
def properEntries : List (Value × Value) → Bool
  | [] => true
  | (k, v) :: entries =>
    k.proper && v.proper && entries.all (fun entry => !k.alike entry.1) && properEntries entries

/-- As `Value.proper`, for the values in a matcher. -/
def Matcher.proper : Matcher → Bool
  | .constant v => v.proper
  | .array ms => properMatchers ms
  | .choice ms => properMatchers ms
  | .letrec rules body => properRules rules && body.proper
  | _ => true

/-- As `Matcher.proper`, for matchers. -/
def properMatchers : List Matcher → Bool
  | [] => true
  | m :: ms => m.proper && properMatchers ms

/-- As `Matcher.proper`, for rules, names and matchers. -/
def properRules : List (Value × Matcher) → Bool
  | [] => true
  | (n, m) :: rules => n.proper && m.proper && properRules rules

end

lemma properItems_iff {vs : List Value} : properItems vs = true ↔ ∀ v ∈ vs, v.proper = true := by
  induction vs with
  | nil => simp [properItems]
  | cons v vs ih => simp [properItems, ih]

lemma pairwise_of_properEntries {entries : List (Value × Value)}
    (h : properEntries entries = true) :
    entries.Pairwise fun entry entry' => entry.1.alike entry'.1 = false := by
  induction entries with
  | nil => exact .nil
  | cons entry entries ih =>
    obtain ⟨k, v⟩ := entry
    simp only [properEntries, Bool.and_eq_true, List.all_eq_true, Bool.not_eq_true'] at h
    exact .cons h.1.2 (ih h.2)

/-- Where everything on the left has a partner on the right, no two of them the same, and there is
no more on the right than on the left, everything on the right is a partner. -/
lemma exists_of_pairwise {α β : Type} {R : α → β → Prop} {as : List α} {bs : List β}
    (hpartner : ∀ a ∈ as, ∃ b ∈ bs, R a b)
    (hdistinct : as.Pairwise fun a a' => ∀ b, R a b → ¬ R a' b) (hlength : bs.length ≤ as.length) :
    ∀ b ∈ bs, ∃ a ∈ as, R a b := by
  induction as generalizing bs with
  | nil =>
    obtain rfl : bs = [] := by simpa using hlength
    simp
  | cons a as ih =>
    obtain ⟨b, hb, hab⟩ := hpartner a List.mem_cons_self
    obtain ⟨before, after, rfl⟩ := List.append_of_mem hb
    obtain ⟨ha, has⟩ := List.pairwise_cons.mp hdistinct
    -- the partner of `a` is no partner of the others, so they have theirs among the rest
    have hrest : ∀ a' ∈ as, ∃ b' ∈ before ++ after, R a' b' := by
      intro a' ha'
      obtain ⟨b', hb', hab'⟩ := hpartner a' (List.mem_cons_of_mem _ ha')
      have hne : b' ≠ b := fun h => ha a' ha' b hab (h ▸ hab')
      exact ⟨b', by simpa [hne] using hb', hab'⟩
    intro b' hb'
    by_cases hbb' : b' = b
    · exact ⟨a, List.mem_cons_self, hbb' ▸ hab⟩
    · obtain ⟨a', ha', hab'⟩ := ih hrest has (by simp at hlength ⊢; omega) b'
        (by simpa [hbb'] using hb')
      exact ⟨a', List.mem_cons_of_mem _ ha', hab'⟩

/-! ### Likeness both ways -/

/-- Entries are alike both ways if each of their keys and values is. -/
lemma alikeEntries_of_symm {entries others : List (Value × Value)}
    (hlength : others.length ≤ entries.length)
    (hproper : properEntries entries = true) (h : alikeEntries entries others = true)
    (hsymm : ∀ entry ∈ entries, ∀ w,
      (entry.1.alike w = true → w.alike entry.1 = true) ∧
      (entry.2.alike w = true → w.alike entry.2 = true)) :
    alikeEntries others entries = true := by
  have hdistinct : entries.Pairwise fun entry entry' => ∀ other : Value × Value,
      (entry.1.alike other.1 = true ∧ entry.2.alike other.2 = true) →
      ¬ (entry'.1.alike other.1 = true ∧ entry'.2.alike other.2 = true) := by
    refine (pairwise_of_properEntries hproper).imp_of_mem fun {entry entry'} _ hentry' hkeys => ?_
    rintro other ⟨hk, -⟩ ⟨hk', -⟩
    have := Value.alike_trans entry.1 hk ((hsymm entry' hentry' other.1).1 hk')
    rw [hkeys] at this
    cases this
  rw [alikeEntries_iff]
  intro other hother
  obtain ⟨entry, hentry, hk, hv⟩ :=
    exists_of_pairwise (alikeEntries_iff.mp h) hdistinct hlength other hother
  exact ⟨entry, hentry, (hsymm entry hentry other.1).1 hk, (hsymm entry hentry other.2).2 hv⟩

mutual

theorem Value.alike_symm : (v : Value) → v.proper = true → {w : Value} → v.alike w = true →
    w.alike v = true
  | .null, _, w, h => by
    obtain rfl := Value.alike_null.mp h
    exact h
  | .bool b, _, w, h => (Value.alike_of_quantity ((Value.alike_of_quantity rfl).mp h)).mpr rfl
  | .int n, _, w, h => (Value.alike_of_quantity ((Value.alike_of_quantity rfl).mp h)).mpr rfl
  | .float x, _, w, h => (Value.alike_of_quantity ((Value.alike_of_quantity rfl).mp h)).mpr rfl
  | .str s, _, w, h => by
    obtain rfl := Value.alike_str.mp h
    exact h
  | .seq shape items, hproper, w, h => by
    obtain ⟨items', rfl, hitems⟩ := Value.alike_seq.mp h
    exact Value.alike_seq.mpr ⟨items, rfl, alikeItems_symm items hproper hitems⟩
  | .dict entries, hproper, w, h => by
    obtain ⟨others, rfl, hlength, hothers⟩ := Value.alike_dict.mp h
    exact Value.alike_dict.mpr ⟨entries, rfl, hlength.symm,
      alikeEntries_of_symm (Nat.le_of_eq hlength.symm) hproper hothers fun entry hentry _ =>
        alike_symm_of_mem entries hproper entry hentry⟩
  | .rest, _, w, h => by
    obtain rfl := Value.alike_rest.mp h
    exact h
  | .form f, _, w, h => by
    obtain rfl := Value.alike_form.mp h
    exact h
  | .matcher m, hproper, w, h => by
    obtain ⟨m', rfl, hm⟩ := Value.alike_matcher.mp h
    exact Value.alike_matcher.mpr ⟨m, rfl, Matcher.alike_symm m hproper hm⟩

theorem alikeItems_symm : (vs : List Value) → properItems vs = true → {ws : List Value} →
    alikeItems vs ws = true → alikeItems ws vs = true
  | [], _, ws, h => by
    obtain rfl : ws = [] := by simpa using h
    exact h
  | v :: vs, hproper, ws, h => by
    simp only [properItems, Bool.and_eq_true] at hproper
    obtain ⟨w, ws', hw, hws, rfl⟩ := List.forall₂_cons_left_iff.mp (alikeItems_iff.mp h)
    simp only [alikeItems, Bool.and_eq_true]
    exact ⟨Value.alike_symm v hproper.1 hw,
      alikeItems_symm vs hproper.2 (alikeItems_iff.mpr hws)⟩

theorem alike_symm_of_mem : (entries : List (Value × Value)) → properEntries entries = true →
    (entry : Value × Value) → entry ∈ entries → {w : Value} →
      (entry.1.alike w = true → w.alike entry.1 = true) ∧
      (entry.2.alike w = true → w.alike entry.2 = true)
  | (k, v) :: entries, hproper, entry, hentry, w => by
    simp only [properEntries, Bool.and_eq_true] at hproper
    rcases List.mem_cons.mp hentry with rfl | hentry
    · exact ⟨Value.alike_symm k hproper.1.1.1, Value.alike_symm v hproper.1.1.2⟩
    · exact alike_symm_of_mem entries hproper.2 entry hentry

theorem Matcher.alike_symm : (m : Matcher) → m.proper = true → {m' : Matcher} →
    m.alike m' = true → m'.alike m = true
  | .constant v, hproper, m', h => by
    obtain ⟨w, rfl, hw⟩ := Matcher.alike_constant.mp h
    exact Matcher.alike_constant.mpr ⟨v, rfl, Value.alike_symm v hproper hw⟩
  | .element .., _, m', h => by
    obtain rfl := Matcher.alike_element.mp h
    exact h
  | .segment .., _, m', h => by
    obtain rfl := Matcher.alike_segment.mp h
    exact h
  | .segmentExact .., _, m', h => by
    obtain rfl := Matcher.alike_segmentExact.mp h
    exact h
  | .rest, _, m', h => by
    obtain rfl := Matcher.alike_rest.mp h
    exact h
  | .array ms, hproper, m', h => by
    obtain ⟨ms', rfl, hms⟩ := Matcher.alike_array.mp h
    exact Matcher.alike_array.mpr ⟨ms, rfl, alikeMatchers_symm ms hproper hms⟩
  | .choice ms, hproper, m', h => by
    obtain ⟨ms', rfl, hms⟩ := Matcher.alike_choice.mp h
    exact Matcher.alike_choice.mpr ⟨ms, rfl, alikeMatchers_symm ms hproper hms⟩
  | .reference _, _, m', h => by
    obtain rfl := Matcher.alike_reference.mp h
    exact h
  | .letrec rules body, hproper, m', h => by
    simp only [Matcher.proper, Bool.and_eq_true] at hproper
    obtain ⟨rules', body', rfl, hrules, hbody⟩ := Matcher.alike_letrec.mp h
    exact Matcher.alike_letrec.mpr ⟨rules, body, rfl, alikeRules_symm rules hproper.1 hrules,
      Matcher.alike_symm body hproper.2 hbody⟩
  | .abstract _, _, m', h => by
    obtain rfl := Matcher.alike_abstract.mp h
    exact h

theorem alikeMatchers_symm : (ms : List Matcher) → properMatchers ms = true →
    {ms' : List Matcher} → alikeMatchers ms ms' = true → alikeMatchers ms' ms = true
  | [], _, ms', h => by
    obtain rfl : ms' = [] := by simpa using h
    exact h
  | m :: ms, hproper, ms', h => by
    simp only [properMatchers, Bool.and_eq_true] at hproper
    obtain ⟨m', others, hm, hms, rfl⟩ := List.forall₂_cons_left_iff.mp (alikeMatchers_iff.mp h)
    simp only [alikeMatchers, Bool.and_eq_true]
    exact ⟨Matcher.alike_symm m hproper.1 hm,
      alikeMatchers_symm ms hproper.2 (alikeMatchers_iff.mpr hms)⟩

theorem alikeRules_symm : (rules : List (Value × Matcher)) → properRules rules = true →
    {rules' : List (Value × Matcher)} → alikeRules rules rules' = true →
    alikeRules rules' rules = true
  | [], _, rules', h => by
    obtain rfl : rules' = [] := by simpa using h
    exact h
  | (n, m) :: rules, hproper, rules', h => by
    simp only [properRules, Bool.and_eq_true] at hproper
    obtain ⟨rule', others, hrule, hrules, rfl⟩ :=
      List.forall₂_cons_left_iff.mp (alikeRules_iff.mp h)
    have hfirst := Value.alike_symm n hproper.1.1 hrule.1
    have hsecond := Matcher.alike_symm m hproper.1.2 hrule.2
    have hothers := alikeRules_symm rules hproper.2 (alikeRules_iff.mpr hrules)
    exact alikeRules_iff.mpr (.cons ⟨hfirst, hsecond⟩ (alikeRules_iff.mp hothers))

end

/-! ### Values compared on their own -/

namespace Value

variable {v w : Value}

lemma alike_of_equal (h : v.equal w = true) : v.alike w = true := by
  unfold equal at h
  split at h
  · cases h
  · exact h

/-- All but the value that is not a number equal what they are alike to. -/
lemma equal_of_alike (hv : v ≠ .float .nan) (h : v.alike w = true) : v.equal w = true := by
  unfold equal
  split
  · exact absurd rfl hv
  · exact h

end Value

end Motif
