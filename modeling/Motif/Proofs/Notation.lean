import Motif.CommandLine
import Motif.Proofs.Decoded
import Mathlib

/-!
# Bad notation

Reading a pattern from JSON either gives a matcher or says what is wrong with the pattern. The only
other way in which it ends is over a list or an object in the place of the name of a restriction,
which is looked up without being looked at. Compiling what has been read cannot fail at all.
-/

namespace Motif

/-! ### Compiled literals -/

namespace Value

lemma compile_choose (alternatives : List Value) :
    (chooseLiteral alternatives).compile = .choice <$> compileItems alternatives := by
  simp [chooseLiteral, Value.list, compile]

/-- A list without a tag at its head is the literal of an array. -/
lemma compile_list {shape : Shape} {items : List Value}
    (h : ∀ form, items.head? ≠ some (.form form)) :
    (Value.seq shape items).compile = .array <$> compileItems items := by
  cases items with
  | nil => simp [compile]
  | cons item items =>
    cases item with
    | form f => exact absurd rfl (h f)
    | _ => simp [compile]

lemma compileItems_eq_mapM (literals : List Value) :
    compileItems literals = literals.mapM compile := by
  induction literals with
  | nil => rw [compileItems, List.mapM_nil]; rfl
  | cons literal literals ih => rw [compileItems, List.mapM_cons, ih]

/-- Literals compile together if each of them compiles. -/
lemma exists_compileItems {literals : List Value}
    (h : ∀ literal ∈ literals, ∃ matcher, literal.compile = .ok matcher) :
    ∃ matchers, compileItems literals = .ok matchers := by
  rw [compileItems_eq_mapM]
  exact exists_mapM_eq_ok h

/-- The parts of the literal of a letrec before its body. -/
def rulePairs (rules : List (Text × Value)) : List Value :=
  rules.map fun (name, literal) => .tuple [.str name, literal]

/-- There is nothing wrong with rules whose names are texts no two of which are equal. -/
lemma rulesFault?_rulePairs {rules : List (Text × Value)} (hnames : (rules.map Prod.fst).Nodup) :
    rulesFault? (rulePairs rules) = none := by
  have hfind : (rulePairs rules).find? (·.ruleName?.isNone) = none := by
    rw [List.find?_eq_none]
    intro pair hpair
    obtain ⟨⟨name, literal⟩, -, rfl⟩ := List.mem_map.mp hpair
    simp [ruleName?]
  have hmap : (rulePairs rules).filterMap ruleName? = rules.map Prod.fst := by
    rw [rulePairs, List.filterMap_map]
    exact List.filterMap_eq_map_iff_forall_eq_some.mpr fun _ _ => rfl
  have hrepeated : repeated (rules.map Prod.fst) = [] := by
    rw [repeated, List.filter_eq_nil_iff.mpr]
    · rfl
    · intro name _
      simpa using List.nodup_iff_count_le_one.mp hnames name
  simp only [rulesFault?, hfind, hmap, hrepeated]

lemma compileRules_rulePairs_cons (name : Text) (literal : Value) (rules : List (Text × Value))
    (body : Value) : compileRules (rulePairs ((name, literal) :: rules) ++ [body]) = do
      let matcher ← literal.compile
      let (matchers, matcher') ← compileRules (rulePairs rules ++ [body])
      return ((.str name, matcher) :: matchers, matcher') := by
  rw [rulePairs, List.map_cons, List.cons_append, compileRules]
  · rfl
  · simp

lemma exists_compileRules {rules : List (Text × Value)} {body : Value}
    (hrules : ∀ rule ∈ rules, ∃ matcher, rule.2.compile = .ok matcher)
    (hbody : ∃ matcher, body.compile = .ok matcher) :
    ∃ compiled, compileRules (rulePairs rules ++ [body]) = .ok compiled := by
  induction rules with
  | nil =>
    obtain ⟨matcher, hmatcher⟩ := hbody
    refine ⟨([], matcher), ?_⟩
    simp only [rulePairs, List.map_nil, List.nil_append, compileRules, hmatcher]
    rfl
  | cons rule rules ih =>
    obtain ⟨name, literal⟩ := rule
    obtain ⟨matcher, hmatcher⟩ := hrules _ List.mem_cons_self
    obtain ⟨⟨others, body'⟩, hcompiled⟩ := ih fun rule hrule =>
      hrules rule (List.mem_cons_of_mem _ hrule)
    refine ⟨((.str name, matcher) :: others, body'), ?_⟩
    rw [compileRules_rulePairs_cons, hmatcher, hcompiled]
    rfl

/-- A letrec whose rules are given as pairs goes by what is wrong with these. -/
lemma compile_letrecLiteral_eq (entries : List (Value × Value)) (body : Value) :
    let pairs := entries.map fun (name, literal) => Value.tuple [name, literal]
    (letrecLiteral entries body).compile =
      match rulesFault? pairs with
      | some e => .error e
      | none => (compileRules (pairs ++ [body])).map fun compiled =>
        .letrec compiled.1 compiled.2 := by
  intro pairs
  have hlast : (pairs ++ [body]).dropLast = pairs := List.dropLast_concat
  cases entries with
  | nil =>
    simp only [letrecLiteral, pairs, List.map_nil, List.cons_append, List.nil_append, compile,
      List.dropLast_singleton]
    cases compileRules [body] <;> rfl
  | cons entry entries =>
    simp only [letrecLiteral, pairs, List.map_cons, List.cons_append, compile] at hlast ⊢
    rw [hlast]
    cases compileRules _ <;> rfl

/-- The literal of a letrec compiles to one if the names of its rules are texts no two of which are
equal. -/
lemma compile_letrecLiteral {rules : List (Text × Value)} {body : Value}
    {matchers : List (Value × Matcher)} {matcher : Matcher} (hnames : (rules.map Prod.fst).Nodup)
    (h : compileRules (rulePairs rules ++ [body]) = .ok (matchers, matcher)) :
    (letrecLiteral (named rules) body).compile = .ok (.letrec matchers matcher) := by
  have hpairs : (named rules).map (fun (name, literal) => Value.tuple [name, literal]) =
      rulePairs rules := List.map_map
  rw [compile_letrecLiteral_eq, hpairs, rulesFault?_rulePairs hnames, h]
  rfl

/-- The literal of a letrec compiles if its rules and its body do and the names of its rules are
texts no two of which are equal. -/
lemma exists_compile_letrec {rules : List (Text × Value)} {body : Value}
    (hnames : (rules.map Prod.fst).Nodup)
    (hrules : ∀ rule ∈ rules, ∃ matcher, rule.2.compile = .ok matcher)
    (hbody : ∃ matcher, body.compile = .ok matcher) :
    ∃ matcher, (letrecLiteral (named rules) body).compile = .ok matcher := by
  obtain ⟨⟨matchers, matcher⟩, hcompiled⟩ := exists_compileRules hrules hbody
  exact ⟨.letrec matchers matcher, compile_letrecLiteral hnames hcompiled⟩

lemma Decoded.ne_form {v : Value} (h : v.Decoded) (form : Form) : v ≠ .form form := by
  cases h <;> nofun

lemma Decoded.head?_ne_form {items : List Value} (h : ∀ item ∈ items, item.Decoded) (form : Form) :
    items.head? ≠ some (.form form) := fun hhead =>
  (h _ (List.mem_of_mem_head? hhead)).ne_form form rfl

/-- What stands for itself compiles. -/
lemma Decoded.exists_compile {v : Value} (h : v.Decoded) : ∃ matcher, v.compile = .ok matcher := by
  induction h with
  | @list items h ih =>
    obtain ⟨matchers, hmatchers⟩ := exists_compileItems ih
    exact ⟨.array matchers, by rw [compile_list (head?_ne_form h), hmatchers]; rfl⟩
  | _ => simp [compile]

end Value

namespace Notation

/-! ### Restrictions -/

/-- In the notation an object for a variable has `got` where the name of a restriction belongs. -/
inductive Restricts (got : Value) : Value → Prop where
  | variable {tag : Tag} {entries : List (Value × Value)} (htag : tagOf entries = .ok tag)
    (hvariable : tag = .var ∨ tag = .segment)
    (hgot : Value.lookupKey "where" entries = some got) : Restricts got (.dict entries)
  | item {items : List Value} {node : Value} (hmem : node ∈ items) (h : Restricts got node) :
    Restricts got (.list items)
  | alternative {entries : List (Value × Value)} {nodes : List Value} {node : Value}
    (htag : tagOf entries = .ok .choose) (hnodes : (.str "choose", .list nodes) ∈ entries)
    (hmem : node ∈ nodes) (h : Restricts got node) : Restricts got (.dict entries)
  | rule {entries rules : List (Value × Value)} {name node : Value}
    (htag : tagOf entries = .ok .letrec) (hrules : (.str "letrec", .dict rules) ∈ entries)
    (hmem : (name, node) ∈ rules) (h : Restricts got node) : Restricts got (.dict entries)
  | body {entries : List (Value × Value)} {node : Value} (htag : tagOf entries = .ok .letrec)
    (hbody : (.str "body", node) ∈ entries) (h : Restricts got node) : Restricts got (.dict entries)

/-- Whether a value is a list or an object, which cannot be looked up. -/
def unhashable : Value → Bool
  | .seq .. | .dict _ => true
  | _ => false

/-- An error says what is wrong with the pattern that `node` stands for, unless it is over a list or
an object where the name of a restriction belongs. -/
def Explained (node : Value) (e : Error) : Prop :=
  e.ofPattern = true ∨
    ∃ got, e = .unhashableRestriction got ∧ unhashable got = true ∧ Restricts got node

lemma explained_of_restrictionOf {tag : Tag} {entries : List (Value × Value)} {e : Error}
    (htag : tagOf entries = .ok tag) (hvariable : tag = .var ∨ tag = .segment)
    (h : restrictionOf entries = .error e) : Explained (.dict entries) e := by
  rw [restrictionOf] at h
  cases hwhere : Value.lookupKey "where" entries with
  | none =>
    rw [hwhere] at h
    cases h
  | some got =>
    rw [hwhere, Option.getD_some] at h
    cases got with
    | seq shape items =>
      cases h
      exact .inr ⟨_, rfl, rfl, .variable htag hvariable hwhere⟩
    | dict items =>
      cases h
      exact .inr ⟨_, rfl, rfl, .variable htag hvariable hwhere⟩
    | str name =>
      dsimp only at h
      split at h <;> cases h
      exact .inl rfl
    | null => cases h
    | _ =>
      cases h
      exact .inl rfl

/-! ### Objects -/

variable {entries : List (Value × Value)}

/-- The alternatives of an object are what stands under `choose`, which must be a list. -/
lemma alternativesIn_eq_lookup (entries : List (Value × Value)) :
    alternativesIn entries = match Value.lookupKey "choose" entries with
      | some (.list nodes) => translateItems nodes
      | _ => .error .alternativesNotListed := by
  induction entries with
  | nil => rw [alternativesIn, Value.lookupKey]
  | cons entry entries ih =>
    obtain ⟨key, v⟩ := entry
    cases key with
    | str s =>
      rw [Value.lookupKey, alternativesIn.eq_def]
      by_cases hkey : s = ("choose" : Text)
      · subst hkey
        cases v with
        | seq shape nodes => cases shape <;> simp
        | _ => simp
      · rw [if_neg (by simpa using hkey), ← ih]
        cases v with
        | seq shape nodes => cases shape <;> simp [hkey]
        | _ => simp [hkey]
    | _ => simpa [Value.lookupKey, alternativesIn] using ih

/-- The rules of an object are what stands under `letrec`, which must be an object. -/
lemma rulesIn_eq_lookup (entries : List (Value × Value)) :
    rulesIn entries = match Value.lookupKey "letrec" entries with
      | some (.dict rules) => translateRules rules
      | _ => .error .rulesNotGiven := by
  induction entries with
  | nil => rw [rulesIn, Value.lookupKey]
  | cons entry entries ih =>
    obtain ⟨key, v⟩ := entry
    cases key with
    | str s =>
      rw [Value.lookupKey, rulesIn.eq_def]
      by_cases hkey : s = ("letrec" : Text)
      · subst hkey
        cases v <;> simp
      · rw [if_neg (by simpa using hkey), ← ih]
        cases v <;> simp [hkey]
    | _ => simpa [Value.lookupKey, rulesIn] using ih

/-- The body of an object is what stands under `body`. -/
lemma bodyIn_eq_lookup (entries : List (Value × Value)) :
    bodyIn entries = match Value.lookupKey "body" entries with
      | some node => translate node
      | none => .error .rulesNotGiven := by
  induction entries with
  | nil => rw [bodyIn, Value.lookupKey]
  | cons entry entries ih =>
    obtain ⟨key, v⟩ := entry
    cases key with
    | str s =>
      rw [Value.lookupKey, bodyIn]
      by_cases hkey : s = ("body" : Text)
      · simp [hkey]
      · rw [if_neg hkey, if_neg (by simpa using hkey), ih]
    | _ => simpa [Value.lookupKey, bodyIn] using ih

lemma alternativesIn_eq (entries : List (Value × Value)) :
    alternativesIn entries = .error .alternativesNotListed ∨
      ∃ nodes, (.str "choose", .list nodes) ∈ entries ∧
        alternativesIn entries = translateItems nodes := by
  rw [alternativesIn_eq_lookup]
  split
  · rename_i nodes hlookup
    exact .inr ⟨nodes, Value.mem_of_lookupKey hlookup, rfl⟩
  · exact .inl rfl

lemma rulesIn_eq (entries : List (Value × Value)) :
    rulesIn entries = .error .rulesNotGiven ∨
      ∃ rules, (.str "letrec", .dict rules) ∈ entries ∧ rulesIn entries = translateRules rules := by
  rw [rulesIn_eq_lookup]
  split
  · rename_i rules hlookup
    exact .inr ⟨rules, Value.mem_of_lookupKey hlookup, rfl⟩
  · exact .inl rfl

lemma bodyIn_eq (entries : List (Value × Value)) :
    bodyIn entries = .error .rulesNotGiven ∨
      ∃ node, (.str "body", node) ∈ entries ∧ bodyIn entries = translate node := by
  rw [bodyIn_eq_lookup]
  split
  · rename_i node hlookup
    exact .inr ⟨node, Value.mem_of_lookupKey hlookup, rfl⟩
  · exact .inl rfl

/-! ### Readings -/

/-- What comes of a text in the notation: a literal that compiles and is no tag, or an error. -/
inductive Sound (explained : Error → Prop) : Except Error Value → Prop where
  | literal {literal : Value} (hcompile : ∃ matcher, literal.compile = .ok matcher)
    (hform : ∀ form, literal ≠ .form form) : Sound explained (.ok literal)
  | error {e : Error} (h : explained e) : Sound explained (.error e)

/-- A value can be read in the notation, or it is said what is wrong with it. -/
def Reads (node : Value) : Prop := Sound (Explained node) (translate node)

lemma Sound.compiles {explained : Error → Prop} {x : Except Error Value} (h : Sound explained x)
    {literal : Value} (hx : x = .ok literal) :
    (∃ matcher, literal.compile = .ok matcher) ∧ ∀ form, literal ≠ .form form := by
  cases h with
  | literal hcompile hform =>
    cases hx
    exact ⟨hcompile, hform⟩
  | error => cases hx

lemma Sound.explains {explained : Error → Prop} {x : Except Error Value} (h : Sound explained x)
    {e : Error} (hx : x = .error e) : explained e := by
  cases h with
  | literal => cases hx
  | error h =>
    cases hx
    exact h

lemma sound_matcher {explained : Error → Prop} (m : Matcher) :
    Sound explained (.ok (.matcher m)) :=
  .literal ⟨m, by rw [Value.compile]⟩ nofun

/-- What is said of a part is said of the whole. -/
lemma Explained.within {node whole : Value} {e : Error} (h : Explained node e)
    (hwhole : ∀ got, Restricts got node → Restricts got whole) : Explained whole e :=
  h.imp_right fun ⟨got, he, hgot, hrestricts⟩ => ⟨got, he, hgot, hwhole got hrestricts⟩

lemma translateItems_eq_mapM (nodes : List Value) :
    translateItems nodes = nodes.mapM translate := by
  induction nodes with
  | nil => rw [translateItems, List.mapM_nil]; rfl
  | cons node nodes ih => rw [translateItems, List.mapM_cons, ih]

/-- The rules of an object keep their names. -/
lemma translateRules_eq_ok {members : List (Text × Value)} {literals : List (Value × Value)}
    (h : translateRules (Value.named members) = .ok literals) :
    ∃ rules : List (Text × Value), literals = Value.named rules ∧
      rules.map Prod.fst = members.map Prod.fst ∧
        ∀ rule ∈ rules, ∃ node ∈ members.map Prod.snd, translate node = .ok rule.2 := by
  induction members generalizing literals with
  | nil =>
    rw [Value.named, List.map_nil, translateRules] at h
    cases h
    exact ⟨[], rfl, rfl, by simp⟩
  | cons member members ih =>
    obtain ⟨name, node⟩ := member
    rw [Value.named, List.map_cons, translateRules] at h
    obtain ⟨literal, hnode, h⟩ := exists_of_bind_eq_ok h
    obtain ⟨others, hothers, h⟩ := exists_of_bind_eq_ok h
    cases h
    obtain ⟨rules, rfl, hnames, hrules⟩ := ih hothers
    refine ⟨(name, literal) :: rules, rfl, by rw [List.map_cons, hnames, List.map_cons], ?_⟩
    intro rule hrule
    rcases List.mem_cons.mp hrule with rfl | hrule
    · exact ⟨node, List.mem_cons_self, hnode⟩
    · obtain ⟨node', hmem, hnode'⟩ := hrules rule hrule
      exact ⟨node', List.mem_cons_of_mem _ hmem, hnode'⟩

lemma translateRules_eq_error {rules : List (Value × Value)} {e : Error}
    (h : translateRules rules = .error e) : ∃ rule ∈ rules, translate rule.2 = .error e := by
  induction rules with
  | nil =>
    rw [translateRules] at h
    cases h
  | cons rule rules ih =>
    obtain ⟨name, node⟩ := rule
    rw [translateRules] at h
    cases hnode : translate node with
    | error e' =>
      rw [hnode] at h
      cases h
      exact ⟨_, List.mem_cons_self, hnode⟩
    | ok literal =>
      cases hothers : translateRules rules with
      | error e' =>
        rw [hnode, hothers] at h
        cases h
        obtain ⟨rule, hmem, hrule⟩ := ih hothers
        exact ⟨rule, List.mem_cons_of_mem _ hmem, hrule⟩
      | ok others =>
        rw [hnode, hothers] at h
        cases h

section

variable {items literals : List Value}

lemma exists_compileItems_of_reads (h : ∀ item ∈ items, Reads item)
    (hitems : translateItems items = .ok literals) :
    (∃ matchers, compileItems literals = .ok matchers) ∧
      ∀ form, literals.head? ≠ some (.form form) := by
  rw [translateItems_eq_mapM] at hitems
  have hcompiles (literal : Value) (hmem : literal ∈ literals) :
      (∃ matcher, literal.compile = .ok matcher) ∧ ∀ form, literal ≠ .form form := by
    obtain ⟨item, hitem, htranslate⟩ := exists_of_mem_of_mapM_eq_ok hitems hmem
    exact (h item hitem).compiles htranslate
  exact ⟨Value.exists_compileItems fun literal hmem => (hcompiles literal hmem).1,
    fun form hhead => (hcompiles _ (List.mem_of_mem_head? hhead)).2 form rfl⟩

lemma exists_explained_of_reads (h : ∀ item ∈ items, Reads item) {e : Error}
    (hitems : translateItems items = .error e) : ∃ item ∈ items, Explained item e := by
  rw [translateItems_eq_mapM] at hitems
  obtain ⟨item, hitem, htranslate⟩ := exists_of_mapM_eq_error hitems
  exact ⟨item, hitem, (h item hitem).explains htranslate⟩

/-- A list reads if its items do. -/
lemma reads_list (h : ∀ item ∈ items, Reads item) : Reads (.list items) := by
  rw [Reads, translate]
  cases hitems : translateItems items with
  | ok literals =>
    obtain ⟨⟨matchers, hmatchers⟩, hhead⟩ := exists_compileItems_of_reads h hitems
    exact .literal ⟨.array matchers, by rw [Value.compile_list hhead, hmatchers]; rfl⟩ nofun
  | error e =>
    obtain ⟨item, hitem, hexplained⟩ := exists_explained_of_reads h hitems
    exact .error (hexplained.within fun _ => .item hitem)

end

/-! ### Objects -/

lemma ofPattern_of_tagOf {entries : List (Value × Value)} {e : Error}
    (h : tagOf entries = .error e) : e.ofPattern = true := by
  rw [tagOf] at h
  split at h
  · split at h <;> cases h
    rfl
  · cases h
    rfl

lemma ofPattern_of_nameUnder {tag : Tag} {entries : List (Value × Value)} {e : Error}
    (h : nameUnder tag entries = .error e) : e.ofPattern = true := by
  rw [nameUnder] at h
  split at h
  · split at h <;> cases h
    rfl
  · cases h
    rfl

/-- What an object stands for, given its tag. -/
def underTag (entries : List (Value × Value)) : Tag → Except Error Value
  | .const => .ok ((Value.lookupKey "const" entries).getD .null)
  | .var => elementOf entries
  | .segment => segmentOf entries
  | .ref => referenceOf entries
  | .choose => Value.chooseLiteral <$> alternativesIn entries
  | .letrec =>
    if (textKeys entries).contains "body" then do
      let rules ← rulesIn entries
      return .letrecLiteral rules (← bodyIn entries)
    else .error .rulesNotGiven

section

variable {entries : List (Value × Value)}

lemma translate_dict (entries : List (Value × Value)) :
    translate (.dict entries) = tagOf entries >>= underTag entries := by
  rw [translate]
  congr 1

lemma sound_variable {tag : Tag} (htag : tagOf entries = .ok tag)
    (hvariable : tag = .var ∨ tag = .segment) (make : Text → Option Restriction → Matcher) :
    Sound (Explained (.dict entries)) (do
      let name ← nameUnder tag entries
      let only ← restrictionOf entries
      return .matcher (make name only)) := by
  cases hname : nameUnder tag entries with
  | error e => exact .error (.inl (ofPattern_of_nameUnder hname))
  | ok name =>
    cases honly : restrictionOf entries with
    | error e => exact .error (explained_of_restrictionOf htag hvariable honly)
    | ok only => exact sound_matcher _

lemma segmentOf_eq (entries : List (Value × Value)) :
    segmentOf entries = do
      let name ← nameUnder .segment entries
      let only ← restrictionOf entries
      return .matcher (if ((Value.lookupKey "exact" entries).getD .null).truthy then
        .segmentExact name only else .segment name only) := by
  rw [segmentOf]
  cases nameUnder .segment entries with
  | error e => rfl
  | ok name =>
    cases restrictionOf entries with
    | error e => rfl
    | ok only =>
      dsimp only [bind, Except.bind]
      split <;> rfl

lemma sound_reference (entries : List (Value × Value)) :
    Sound (Explained (.dict entries)) (referenceOf entries) := by
  rw [referenceOf]
  cases hname : nameUnder .ref entries with
  | error e => exact .error (.inl (ofPattern_of_nameUnder hname))
  | ok name => exact sound_matcher _

lemma sound_choose (htag : tagOf entries = .ok .choose)
    (h : ∀ v ∈ entries.map Prod.snd, ∀ part ∈ v.parts, Reads part) :
    Sound (Explained (.dict entries)) (Value.chooseLiteral <$> alternativesIn entries) := by
  rcases alternativesIn_eq entries with herror | ⟨nodes, hmem, hnodes⟩
  · rw [herror]
    exact .error (.inl rfl)
  · have hreads : ∀ node ∈ nodes, Reads node := h _ (List.mem_map_of_mem hmem)
    rw [hnodes]
    cases hliterals : translateItems nodes with
    | ok literals =>
      obtain ⟨⟨matchers, hmatchers⟩, -⟩ := exists_compileItems_of_reads hreads hliterals
      exact .literal ⟨.choice matchers, by rw [Value.compile_choose, hmatchers]; rfl⟩ nofun
    | error e =>
      obtain ⟨node, hnode, hexplained⟩ := exists_explained_of_reads hreads hliterals
      exact .error (hexplained.within fun _ => .alternative htag hmem hnode)

lemma sound_letrec (htag : tagOf entries = .ok .letrec) (hdecoded : (Value.dict entries).Decoded)
    (h : ∀ v ∈ entries.map Prod.snd, Reads v ∧ ∀ part ∈ v.parts, Reads part) :
    Sound (Explained (.dict entries)) (do
      let rules ← rulesIn entries
      return .letrecLiteral rules (← bodyIn entries)) := by
  rcases rulesIn_eq entries with herror | ⟨rules, hmem, hrules⟩
  · rw [herror]
    exact .error (.inl rfl)
  have hmem' := List.mem_map_of_mem (f := Prod.snd) hmem
  rw [hrules]
  cases hliterals : translateRules rules with
  | error e =>
    obtain ⟨rule, hrule, htranslate⟩ := translateRules_eq_error hliterals
    have hexplained := ((h _ hmem').2 rule.2 (List.mem_map_of_mem hrule)).explains htranslate
    exact .error (hexplained.within fun _ => .rule htag hmem hrule)
  | ok literals =>
    rcases bodyIn_eq entries with herror | ⟨node, hbodymem, hbody⟩
    · rw [herror]
      exact .error (.inl rfl)
    have hreads := (h _ (List.mem_map_of_mem hbodymem)).1
    rw [hbody]
    cases hbodyliteral : translate node with
    | error e => exact .error ((hreads.explains hbodyliteral).within fun _ => .body htag hbodymem)
    | ok bodyLiteral =>
      have hrulesDecoded : (Value.dict rules).Decoded := hdecoded.of_mem_parts hmem'
      cases hrulesDecoded with
      | object hnames =>
        obtain ⟨named, rfl, hkeys, hnamed⟩ := translateRules_eq_ok hliterals
        rw [← hkeys] at hnames
        refine .literal (Value.exists_compile_letrec hnames (fun rule hrule => ?_) ?_) nofun
        · obtain ⟨node, hnode, htranslate⟩ := hnamed rule hrule
          have hreads := (h _ hmem').2
          rw [Value.parts, Value.map_snd_named] at hreads
          exact ((hreads node hnode).compiles htranslate).1
        · exact (hreads.compiles hbodyliteral).1

/-- An object reads if what is in it does. -/
lemma reads_object (hdecoded : (Value.dict entries).Decoded)
    (h : ∀ v ∈ entries.map Prod.snd, Reads v ∧ ∀ part ∈ v.parts, Reads part) :
    Reads (.dict entries) := by
  rw [Reads, translate_dict]
  cases htag : tagOf entries with
  | error e => exact .error (.inl (ofPattern_of_tagOf htag))
  | ok tag =>
    cases tag with
    | const =>
      have hconst : ((Value.lookupKey "const" entries).getD .null).Decoded := by
        cases hlookup : Value.lookupKey "const" entries with
        | none => exact .null
        | some v =>
          exact hdecoded.of_mem_parts (List.mem_map_of_mem (Value.mem_of_lookupKey hlookup))
      exact .literal hconst.exists_compile hconst.ne_form
    | var => exact sound_variable htag (.inl rfl) .element
    | segment =>
      change Sound _ (segmentOf entries)
      rw [segmentOf_eq]
      exact sound_variable htag (.inr rfl) fun name only =>
        if ((Value.lookupKey "exact" entries).getD .null).truthy then .segmentExact name only
        else .segment name only
    | ref => exact sound_reference entries
    | choose => exact sound_choose htag fun v hv => (h v hv).2
    | letrec =>
      change Sound _ (if _ then _ else _)
      split
      · exact sound_letrec htag hdecoded h
      · exact .error (.inl rfl)

end

/-- Every value that can be written in JSON reads, and so does what is in it. -/
lemma reads_of_decoded {node : Value} (h : node.Decoded) :
    Reads node ∧ ∀ part ∈ node.parts, Reads part := by
  induction h with
  | list h ih =>
    have hitems := fun item hitem => (ih item hitem).1
    exact ⟨reads_list hitems, hitems⟩
  | object hnames h ih =>
    rw [Value.parts, Value.map_snd_named]
    refine ⟨reads_object (.object hnames h) ?_, fun v hv => (ih v hv).1⟩
    rw [Value.map_snd_named]
    exact ih
  | @str s =>
    refine ⟨?_, by simp [Value.parts]⟩
    rw [Reads, translate]
    split
    · exact .literal ⟨.rest, by rw [Value.compile]⟩ (by simp)
    · exact .literal Value.Decoded.str.exists_compile (by simp)
  | null => exact ⟨.literal Value.Decoded.null.exists_compile (by simp), by simp [Value.parts]⟩
  | bool => exact ⟨.literal Value.Decoded.bool.exists_compile (by simp), by simp [Value.parts]⟩
  | int => exact ⟨.literal Value.Decoded.int.exists_compile (by simp), by simp [Value.parts]⟩
  | float => exact ⟨.literal Value.Decoded.float.exists_compile (by simp), by simp [Value.parts]⟩

end Notation

/-! ### The command line program -/

namespace CommandLine

open Notation (Explained Restricts translate unhashable)

/-- The path of the pattern that a command is about. -/
def Command.pattern? : Command → Option Text
  | .report pattern .. => pattern
  | .dump pattern => pattern

section

variable {files : Files} {args : List Text} {request : Request} {path : Text} {text : String}
  {node : Value} {α β : Type} {lines lines' : List String}

lemma exists_of_run_bind_eq_ok {x : Work α} {f : α → Work β} {b : β}
    (h : (x >>= f).run.run lines = (.ok b, lines')) :
    ∃ a more, x.run.run lines = (.ok a, more) ∧ (f a).run.run more = (.ok b, lines') := by
  rw [ExceptT.run_bind, StateT.run_bind] at h
  cases hx : x.run.run lines with
  | mk result more =>
    rw [hx] at h
    cases result with
    | error fault => cases h
    | ok a => exact ⟨a, more, rfl, h⟩

/-- A command that comes to its end does so with a status of 0 or 1. -/
lemma status_le_of_perform {command : Command} {status : Nat} {output : Output}
    (h : (perform files command).run.run lines = (.ok (status, output), lines')) : status ≤ 1 := by
  cases command with
  | report pattern data format maxDepth out =>
    obtain ⟨patternPath, _, -, h⟩ := exists_of_run_bind_eq_ok h
    obtain ⟨matcher, _, -, h⟩ := exists_of_run_bind_eq_ok h
    obtain ⟨dataPath, _, -, h⟩ := exists_of_run_bind_eq_ok h
    obtain ⟨inputs, _, -, h⟩ := exists_of_run_bind_eq_ok h
    obtain ⟨outcomes, _, -, h⟩ := exists_of_run_bind_eq_ok h
    obtain ⟨outPath, _, -, h⟩ := exists_of_run_bind_eq_ok h
    obtain ⟨report, _, -, h⟩ := exists_of_run_bind_eq_ok h
    cases h
    rw [reportStatus]
    split <;> omega
  | dump pattern =>
    obtain ⟨patternPath, _, -, h⟩ := exists_of_run_bind_eq_ok h
    obtain ⟨matcher, _, -, h⟩ := exists_of_run_bind_eq_ok h
    cases h
    omega

lemma loadPattern_of_decode (hfile : files.read path = .ok text)
    (hnode : Json.decode (Document.plainBreaks text.toList) = .ok node) :
    Document.loadPattern files path = match translate node with
      | .ok literal => .ok literal
      | .error e => .error (.pattern e) := by
  have hload : Document.load files path = .ok (Document.plainBreaks text.toList) := by
    rw [Document.load, hfile]
  have hdecode : Document.decode (Document.plainBreaks text.toList) = .ok node := by
    rw [Document.decode, hnode]
  rw [Document.loadPattern, hload]
  dsimp only [bind, Except.bind]
  rw [hdecode]
  dsimp only
  cases translate node <;> rfl

lemma loadMatcher_of_error {e : DocumentError}
    (hload : Document.loadPattern files path = .error e) :
    loadMatcher files path = throw (.document e) := by
  rw [loadMatcher, hload]
  rfl

/-- A pattern that there is a fault in keeps every command from its end. -/
lemma perform_of_throw {command : Command} (hpath : command.pattern? = some path) {fault : Fault}
    (hmatcher : loadMatcher files path = throw fault) :
    (perform files command).run.run lines = (.error fault, lines) := by
  cases command with
  | report pattern data format maxDepth out =>
    cases hpath
    change (loadMatcher files path >>= _).run.run lines = _
    rw [hmatcher]
    rfl
  | dump pattern =>
    cases hpath
    change (loadMatcher files path >>= _).run.run lines = _
    rw [hmatcher]
    rfl

/-- A pattern that compiles is shown. -/
lemma perform_dump {literal : Value} {matcher : Matcher}
    (hload : Document.loadPattern files path = .ok literal)
    (hcompile : literal.compile = .ok matcher) :
    ∃ more, (perform files (.dump (some path))).run.run lines =
      (.ok (0, { stdout := Output.endLine matcher.text }), more) := by
  change ∃ more, (loadMatcher files path >>= _).run.run lines = (_, more)
  rw [loadMatcher, hload, attempt, pure_bind, hcompile, attempt, pure_bind]
  exact ⟨_, rfl⟩

lemma run_of_ok (hargs : readArguments args = .ok request) {status : Nat} {output : Output}
    (h : (perform files request.command).run.run [] = (.ok (status, output), lines)) :
    ∃ stderr, run files args = .finished status output stderr := by
  simp only [run, hargs, h]
  exact ⟨_, rfl⟩

/-- A fault that is reported is all that is heard of a command. -/
lemma run_of_message (hargs : readArguments args = .ok request) {fault : Fault} {message : Text}
    (hmessage : fault.message? = some message)
    (h : (perform files request.command).run.run [] = (.error fault, lines)) :
    run files args = .finished 2 {}
      (unlines (if request.verbose then lines.map Text.ofString else []) ++
        (Text.ofString "structmatch: " ++ message ++ [.char '\n'])) := by
  simp only [run, hargs, h, Id.run, hmessage]
  simp [unlines]

lemma run_of_error (hargs : readArguments args = .ok request) {fault : Fault}
    (h : (perform files request.command).run.run [] = (.error fault, lines)) :
    (∃ stderr, run files args = .finished 2 {} stderr) ∨
      fault.message? = none ∧ run files args = .broken fault := by
  cases hmessage : fault.message? with
  | some message => exact .inl ⟨_, run_of_message hargs hmessage h⟩
  | none =>
    refine .inr ⟨rfl, ?_⟩
    simp only [run, hargs, h, Id.run, hmessage]

/-- The program ends on a pattern in JSON with a status of its own, or breaks: over a list or an
object that it looks up as the name of a restriction, or over something else than the pattern after
this has been compiled. -/
def Ending.Answers (command : Command) (node : Value) : Ending → Prop
  | .finished status _ _ => status ≤ 2
  | .stopped _ => False
  | .broken fault =>
    (∃ got, fault = .document (.pattern (.unhashableRestriction got)) ∧ unhashable got = true ∧
      Restricts got node) ∨
    (∃ literal matcher, translate node = .ok literal ∧ literal.compile = .ok matcher) ∧
      ∀ pattern, command ≠ .dump pattern

lemma answers_of_decode (hargs : readArguments args = .ok request)
    (hpath : request.command.pattern? = some path) (hfile : files.read path = .ok text)
    (hnode : Json.decode (Document.plainBreaks text.toList) = .ok node) :
    (run files args).Answers request.command node := by
  have hload := loadPattern_of_decode hfile hnode
  have hreads := (Notation.reads_of_decoded (Json.decoded_of_decode hnode)).1
  cases htranslate : translate node with
  | error e =>
    rw [htranslate] at hload
    have hperform : (perform files request.command).run.run [] =
        (.error (.document (.pattern e)), []) :=
      perform_of_throw hpath (loadMatcher_of_error hload)
    rcases run_of_error hargs hperform with ⟨stderr, hrun⟩ | ⟨hsilent, hrun⟩
    · rw [hrun]
      exact Nat.le_refl 2
    · rw [hrun]
      rcases hreads.explains htranslate with hpattern | ⟨got, rfl, hgot, hrestricts⟩
      · rw [Fault.message?, DocumentError.ofDocument, hpattern] at hsilent
        cases hsilent
      · exact .inl ⟨got, rfl, hgot, hrestricts⟩
  | ok literal =>
    rw [htranslate] at hload
    obtain ⟨matcher, hcompile⟩ := (hreads.compiles htranslate).1
    cases hperform : (perform files request.command).run.run [] with
    | mk result lines =>
      cases result with
      | ok answer =>
        obtain ⟨status, output⟩ := answer
        obtain ⟨stderr, hrun⟩ := run_of_ok hargs hperform
        rw [hrun]
        exact Nat.le_succ_of_le (status_le_of_perform hperform)
      | error fault =>
        rcases run_of_error hargs hperform with ⟨stderr, hrun⟩ | ⟨-, hrun⟩
        · rw [hrun]
          exact Nat.le_refl 2
        · rw [hrun]
          refine .inr ⟨⟨literal, matcher, htranslate, hcompile⟩, ?_⟩
          intro pattern hdump
          rw [hdump] at hpath hperform
          cases hpath
          obtain ⟨more, hshown⟩ :
              ∃ more, (perform files (.dump (some path))).run.run [] = (_, more) :=
            perform_dump hload hcompile
          rw [hshown] at hperform
          cases hperform

end

/-- A value that can be written in JSON either stands for a matcher or it is said what is wrong with
the pattern, unless a list or an object stands in it where the name of a restriction belongs. The
program, given the pattern in a file, then ends with a status of its own, unless it breaks over such
a place or over something else than the pattern. -/
theorem read_or_explained {node : Value} (h : node.Decoded) :
    ((∃ literal matcher, translate node = .ok literal ∧ literal.compile = .ok matcher) ∨
        ∃ e, translate node = .error e ∧ Explained node e) ∧
      ∀ (files : Files) (args : List Text) (request : Request) (path : Text) (text : String),
        readArguments args = .ok request → request.command.pattern? = some path →
        files.read path = .ok text →
        Json.decode (Document.plainBreaks text.toList) = .ok node →
          (run files args).Answers request.command node := by
  refine ⟨?_, fun files args request path text hargs hpath hfile hnode =>
    answers_of_decode hargs hpath hfile hnode⟩
  have hreads := (Notation.reads_of_decoded h).1
  cases htranslate : translate node with
  | ok literal =>
    obtain ⟨matcher, hcompile⟩ := (hreads.compiles htranslate).1
    exact .inl ⟨literal, matcher, rfl, hcompile⟩
  | error e => exact .inr ⟨e, rfl, hreads.explains htranslate⟩

lemma readArguments_dump :
    readArguments ["dump", "--pattern", "p.json"] = .ok ⟨false, .dump (some "p.json")⟩ := by
  cbv

/-- A restriction that there is not is told from those that there are. -/
theorem read_or_explained_prime :
    let node : Value := .dict (Value.named [("var", .str "x"), ("where", .str "prime")])
    let text : String := "\x7b\"var\": \"x\", \"where\": \"prime\"\x7d"
    let files : Files := ⟨fun _ => .ok text, fun _ => .ok ()⟩
    node.Decoded ∧ (∃ e, translate node = .error e ∧ Explained node e) ∧
      Json.decode (Document.plainBreaks text.toList) = .ok node ∧
      (run files ["dump", "--pattern", "p.json"]).Answers (.dump (some "p.json")) node := by
  intro node text files
  have hnode : Json.decode (Document.plainBreaks text.toList) = .ok node := by
    dsimp only [text, node]
    cbv
  have hdecoded : node.Decoded := Json.decoded_of_decode hnode
  obtain ⟨hread, hrun⟩ := read_or_explained hdecoded
  refine ⟨hdecoded, hread.resolve_left ?_, hnode,
    hrun files _ _ _ text readArguments_dump rfl rfl hnode⟩
  rintro ⟨literal, matcher, hliteral, -⟩
  have herror : translate node = .error (.unknownRestriction (.str "prime")) := by
    dsimp only [node]
    cbv
  rw [herror] at hliteral
  cases hliteral

/-- A list in the place of the name of a restriction breaks the program. -/
theorem not_explained_of_list :
    let node : Value := .dict (Value.named [("var", .str "x"), ("where", .list [])])
    let text : String := "\x7b\"var\": \"x\", \"where\": []\x7d"
    let files : Files := ⟨fun _ => .ok text, fun _ => .ok ()⟩
    Json.decode text.toList = .ok node ∧
      translate node = .error (.unhashableRestriction (.list [])) ∧
      run files ["dump", "--pattern", "p.json"] =
        .broken (.document (.pattern (.unhashableRestriction (.list [])))) := by
  intro node text files
  refine ⟨?_, ?_, ?_⟩
  · dsimp only [text, node]
    cbv
  · dsimp only [node]
    cbv
  · rw [run, readArguments_dump]
    dsimp only [files, text]
    cbv

end CommandLine

end Motif
