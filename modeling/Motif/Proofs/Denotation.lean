import Motif.Proofs.Verbatim

/-!
# What the notation denotes

Which matcher a text in the notation denotes, said directly: by recursion on the decoded JSON, with
no literal in between. Reading a pattern goes through a literal, in which lists carry tags at their
heads and matchers stand among plain values, and only then compiles it. The two passes together
accept just what denotes a matcher, and what they make is the matcher that it denotes. In between
nothing is taken for what it is not: what stands under `const` is not looked into by either pass.
-/

namespace Motif

namespace Notation

/-! ### Tags, names and restrictions -/

/-- An object has one tag, and no keys but those that belong beside it. -/
structure Tagged (tag : Tag) (entries : List (Value × Value)) : Prop where
  one : ∀ other : Tag, (other.name : Text) ∈ textKeys entries ↔ other = tag
  keys : ∀ key ∈ textKeys entries, key ∈ tag.keys

/-- What stands under `where` is the name of a restriction of the registry, or nothing is asked
for. -/
inductive Restricted (entries : List (Value × Value)) : Option Restriction → Prop where
  | absent (h : Value.lookupKey "where" entries = none) : Restricted entries none
  | null (h : Value.lookupKey "where" entries = some .null) : Restricted entries none
  | named {r : Restriction} (hr : r ∈ Restriction.registry)
    (h : Value.lookupKey "where" entries = some (.str r.name)) : Restricted entries (some r)

/-- A name stands under a tag. -/
structure Named (tag : Tag) (entries : List (Value × Value)) (name : Text) : Prop where
  given : Value.lookupKey tag.name entries = some (.str name)
  nonempty : name ≠ ""

/-- Whether a variable for a run of items must reach the end of its list. -/
def exact (entries : List (Value × Value)) : Bool :=
  (Value.lookupKey "exact" entries).any Value.truthy

lemma Tag.mem_all (tag : Tag) : tag ∈ all := by
  cases tag <;> decide

lemma Tag.filter_all_eq_singleton_iff {p : Tag → Bool} {tag : Tag} :
    all.filter p = [tag] ↔ ∀ other, p other = true ↔ other = tag := by
  constructor
  · intro h other
    have hmem : other ∈ all.filter p ↔ other ∈ [tag] := by rw [h]
    rwa [List.mem_filter, List.mem_singleton, and_iff_right other.mem_all] at hmem
  · intro h
    have hp : p = fun other => decide (other = tag) := by
      funext other
      rw [Bool.eq_iff_iff, h, decide_eq_true_iff]
    rw [hp]
    cases tag <;> rfl

variable {tag : Tag} {entries : List (Value × Value)} {name : Text}

lemma tagOf_eq_ok_iff : tagOf entries = .ok tag ↔ Tagged tag entries := by
  have hone : (Tag.all.filter fun tag => (textKeys entries).contains (tag.name : Text)) = [tag] ↔
      ∀ other : Tag, (other.name : Text) ∈ textKeys entries ↔ other = tag := by
    rw [Tag.filter_all_eq_singleton_iff]
    simp only [List.contains_iff_mem]
  have hkeys : ((textKeys entries).filter fun key => !tag.keys.contains key) = [] ↔
      ∀ key ∈ textKeys entries, key ∈ tag.keys := by
    simp
  constructor
  · intro h
    rw [tagOf] at h
    split at h
    · rename_i tag' htag
      split at h
      · rename_i hforeign
        cases h
        exact ⟨hone.mp htag, hkeys.mp hforeign⟩
      · cases h
    · cases h
  · rintro ⟨h, h'⟩
    simp only [tagOf, hone.mpr h, hkeys.mpr h']

lemma Tagged.translate (h : Tagged tag entries) :
    translate (.dict entries) = underTag entries tag := by
  rw [translate_dict, tagOf_eq_ok_iff.mpr h]
  rfl

lemma mem_textKeys_iff {key : Text} :
    key ∈ textKeys entries ↔ ∃ v, Value.lookupKey key entries = some v := by
  constructor
  · intro h
    induction entries with
    | nil => cases h
    | cons entry entries ih =>
      obtain ⟨k, v⟩ := entry
      cases k with
      | str s =>
        rw [Value.lookupKey]
        split
        · exact ⟨v, rfl⟩
        · rename_i hne
          rcases List.mem_cons.mp h with rfl | hmem
          · exact absurd (beq_self_eq_true _) hne
          · exact ih hmem
      | _ => exact ih h
  · rintro ⟨v, hv⟩
    exact List.mem_filterMap.mpr ⟨_, Value.mem_of_lookupKey hv, rfl⟩

lemma nameUnder_eq_ok_iff : nameUnder tag entries = .ok name ↔ Named tag entries name := by
  rw [nameUnder]
  constructor
  · intro h
    cases hlookup : Value.lookupKey tag.name entries with
    | none =>
      rw [hlookup] at h
      cases h
    | some v =>
      rw [hlookup] at h
      cases v with
      | str s =>
        dsimp only [Option.getD_some] at h
        split at h
        · cases h
        · cases h
          exact ⟨hlookup, ‹_›⟩
      | _ => cases h
  · rintro ⟨hgiven, hnonempty⟩
    rw [hgiven]
    exact if_neg hnonempty

lemma ofName?_eq_some_iff {r : Restriction} :
    Restriction.ofName? name = some r ↔ r ∈ Restriction.registry ∧ name = r.name := by
  constructor
  · intro h
    exact ⟨List.mem_of_find?_eq_some h, (eq_of_beq (List.find?_some h :)).symm⟩
  · rintro ⟨hr, rfl⟩
    cases r with
    | custom => simp [Restriction.registry] at hr
    | _ => rfl

lemma restrictionOf_eq_ok_iff {only : Option Restriction} :
    restrictionOf entries = .ok only ↔ Restricted entries only := by
  rw [restrictionOf]
  constructor
  · intro h
    cases hlookup : Value.lookupKey "where" entries with
    | none =>
      rw [hlookup] at h
      cases h
      exact .absent hlookup
    | some v =>
      rw [hlookup] at h
      cases v with
      | null =>
        cases h
        exact .null hlookup
      | str s =>
        dsimp only [Option.getD_some] at h
        split at h
        · rename_i r hfound
          cases h
          obtain ⟨hr, rfl⟩ := ofName?_eq_some_iff.mp hfound
          exact .named hr hlookup
        · cases h
      | _ => cases h
  · intro h
    cases h with
    | absent h => rw [h]; rfl
    | null h => rw [h]; rfl
    | named hr h =>
      rw [h]
      dsimp only [Option.getD_some]
      rw [ofName?_eq_some_iff.mpr ⟨hr, rfl⟩]

lemma truthy_exact (entries : List (Value × Value)) :
    ((Value.lookupKey "exact" entries).getD .null).truthy = exact entries := by
  rw [exact]
  cases Value.lookupKey "exact" entries <;> rfl

lemma Tagged.translate_segment (h : Tagged .segment entries) (hname : Named .segment entries name)
    {only : Option Restriction} (honly : Restricted entries only) :
    Notation.translate (.dict entries) = .ok (.matcher
      (if exact entries then .segmentExact name only else .segment name only)) := by
  rw [Tagged.translate h, underTag, segmentOf_eq, nameUnder_eq_ok_iff.mpr hname,
    restrictionOf_eq_ok_iff.mpr honly, truthy_exact]
  rfl

/-! ### Denotations -/

/-- Whether a value is plain: no list, no object and not the filler. -/
def plain : Value → Bool
  | .null | .bool _ | .int _ | .float _ => true
  | .str s => s != "..."
  | _ => false

mutual

/-- A decoded JSON value denotes a matcher. -/
inductive Denotes : Value → Matcher → Prop where
  | filler : Denotes (.str "...") .rest
  | plain {v : Value} (h : plain v = true) : Denotes v (.constant v)
  | list {nodes : List Value} {matchers : List Matcher} (h : AllDenote nodes matchers) :
    Denotes (.list nodes) (.array matchers)
  | var {entries : List (Value × Value)} {name : Text} {only : Option Restriction}
    (htag : Tagged .var entries) (hname : Named .var entries name)
    (honly : Restricted entries only) : Denotes (.dict entries) (.element name only)
  | segment {entries : List (Value × Value)} {name : Text} {only : Option Restriction}
    (htag : Tagged .segment entries) (hname : Named .segment entries name)
    (honly : Restricted entries only) (hexact : exact entries = false) :
    Denotes (.dict entries) (.segment name only)
  | segmentExact {entries : List (Value × Value)} {name : Text} {only : Option Restriction}
    (htag : Tagged .segment entries) (hname : Named .segment entries name)
    (honly : Restricted entries only) (hexact : exact entries = true) :
    Denotes (.dict entries) (.segmentExact name only)
  | ref {entries : List (Value × Value)} {name : Text} (htag : Tagged .ref entries)
    (hname : Named .ref entries name) : Denotes (.dict entries) (.reference name)
  | choose {entries : List (Value × Value)} {nodes : List Value} {matchers : List Matcher}
    (htag : Tagged .choose entries)
    (hnodes : Value.lookupKey "choose" entries = some (.list nodes))
    (h : AllDenote nodes matchers) : Denotes (.dict entries) (.choice matchers)
  | letrec {entries rules : List (Value × Value)} {body : Value}
    {matchers : List (Value × Matcher)} {matcher : Matcher} (htag : Tagged .letrec entries)
    (hrules : Value.lookupKey "letrec" entries = some (.dict rules))
    (hbody : Value.lookupKey "body" entries = some body) (h : RulesDenote rules matchers)
    (h' : Denotes body matcher) : Denotes (.dict entries) (.letrec matchers matcher)
  | const {entries : List (Value × Value)} {v : Value} (htag : Tagged .const entries)
    (hv : Value.lookupKey "const" entries = some v) : Denotes (.dict entries) v.verbatim

/-- Values denote matchers one by one. -/
inductive AllDenote : List Value → List Matcher → Prop where
  | nil : AllDenote [] []
  | cons {node : Value} {nodes : List Value} {matcher : Matcher} {matchers : List Matcher}
    (h : Denotes node matcher) (h' : AllDenote nodes matchers) :
    AllDenote (node :: nodes) (matcher :: matchers)

/-- The entries of an object denote rules of the same names one by one. -/
inductive RulesDenote : List (Value × Value) → List (Value × Matcher) → Prop where
  | nil : RulesDenote [] []
  | cons {name node : Value} {rules : List (Value × Value)} {matcher : Matcher}
    {matchers : List (Value × Matcher)} (h : Denotes node matcher)
    (h' : RulesDenote rules matchers) :
    RulesDenote ((name, node) :: rules) ((name, matcher) :: matchers)

end

/-! ### What denotes a matcher is read and compiled to it -/

lemma translate_of_plain {v : Value} (h : plain v = true) : translate v = .ok v := by
  cases v with
  | str s =>
    rw [plain, bne_iff_ne] at h
    rw [translate, if_neg h]
  | seq | dict => cases h
  | _ => simp [translate]

lemma compile_of_plain {v : Value} (h : plain v = true) : v.compile = .ok (.constant v) := by
  cases v with
  | null | bool | int | float | str => simp [Value.compile]
  | _ => cases h

mutual

/-- What denotes a matcher is read as a literal that compiles to this matcher. -/
theorem Denotes.compiles : {node : Value} → {matcher : Matcher} → Denotes node matcher →
    node.Decoded → ∃ literal, translate node = .ok literal ∧ literal.compile = .ok matcher
  | _, _, .filler, _ => ⟨.rest, rfl, by rw [Value.compile]⟩
  | _, _, .plain h, _ => ⟨_, translate_of_plain h, compile_of_plain h⟩
  | _, _, @Denotes.list nodes _ h, hdecoded => by
    obtain ⟨literals, htranslate, hcompile⟩ := h.compiles fun node => hdecoded.of_mem_parts
    have hreads (node : Value) (hnode : node ∈ nodes) : Reads node :=
      (reads_of_decoded (hdecoded.of_mem_parts hnode)).1
    obtain ⟨-, hhead⟩ := exists_compileItems_of_reads hreads htranslate
    refine ⟨.list literals, ?_, ?_⟩
    · rw [translate, htranslate]
      rfl
    · rw [Value.compile_list hhead, hcompile]
      rfl
  | _, _, @Denotes.var _ name only htag hname honly, _ => by
    refine ⟨.matcher (.element name only), ?_, by rw [Value.compile]⟩
    rw [htag.translate, underTag, elementOf, nameUnder_eq_ok_iff.mpr hname,
      restrictionOf_eq_ok_iff.mpr honly]
    rfl
  | _, _, @Denotes.segment _ name only htag hname honly hexact, _ => by
    refine ⟨.matcher (.segment name only), ?_, by rw [Value.compile]⟩
    rw [htag.translate_segment hname honly, hexact]
    rfl
  | _, _, @Denotes.segmentExact _ name only htag hname honly hexact, _ => by
    refine ⟨.matcher (.segmentExact name only), ?_, by rw [Value.compile]⟩
    rw [htag.translate_segment hname honly, hexact]
    rfl
  | _, _, @Denotes.ref _ name htag hname, _ => by
    refine ⟨.matcher (.reference name), ?_, by rw [Value.compile]⟩
    rw [htag.translate, underTag, referenceOf, nameUnder_eq_ok_iff.mpr hname]
    rfl
  | _, _, .choose htag hnodes h, hdecoded => by
    have hlist := hdecoded.of_mem_parts (List.mem_map_of_mem (Value.mem_of_lookupKey hnodes))
    obtain ⟨literals, htranslate, hcompile⟩ := h.compiles fun node => hlist.of_mem_parts
    refine ⟨Value.chooseLiteral literals, ?_, ?_⟩
    · rw [htag.translate, underTag, alternativesIn_eq_lookup, hnodes]
      dsimp only
      rw [htranslate]
      rfl
    · rw [Value.compile_choose, hcompile]
      rfl
  | _, _, @Denotes.letrec _ rules _ _ _ htag hrules hbody h h', hdecoded => by
    have hobject := hdecoded.of_mem_parts (List.mem_map_of_mem (Value.mem_of_lookupKey hrules))
    have hbody' := hdecoded.of_mem_parts (List.mem_map_of_mem (Value.mem_of_lookupKey hbody))
    obtain ⟨members, hmembers, hnames, hmem⟩ : ∃ members, rules = Value.named members ∧
        (members.map Prod.fst).Nodup ∧ ∀ v ∈ members.map Prod.snd, v.Decoded := by
      cases hobject with
      | object hnames hmem => exact ⟨_, rfl, hnames, hmem⟩
    obtain ⟨literals, htranslate, hliterals, hcompile⟩ := h.compiles hmembers hmem
    obtain ⟨literal, htranslate', hcompile'⟩ := h'.compiles hbody'
    refine ⟨.letrecLiteral (Value.named literals) literal, ?_, ?_⟩
    · rw [htag.translate, underTag, if_pos, rulesIn_eq_lookup, hrules, bodyIn_eq_lookup, hbody]
      · dsimp only
        rw [htranslate, htranslate']
        rfl
      · exact List.contains_iff_mem.mpr (mem_textKeys_iff.mpr ⟨_, hbody⟩)
    · exact Value.compile_letrecLiteral (hliterals ▸ hnames) (hcompile hcompile')
  | _, _, @Denotes.const _ v htag hv, hdecoded => by
    have hdecoded' := hdecoded.of_mem_parts (List.mem_map_of_mem (Value.mem_of_lookupKey hv))
    refine ⟨v, ?_, hdecoded'.compile_eq_verbatim⟩
    rw [htag.translate, underTag, hv, Option.getD_some]

theorem AllDenote.compiles : {nodes : List Value} → {matchers : List Matcher} →
    AllDenote nodes matchers → (∀ node ∈ nodes, node.Decoded) →
    ∃ literals, translateItems nodes = .ok literals ∧ compileItems literals = .ok matchers
  | _, _, .nil, _ => ⟨[], by rw [translateItems], by rw [compileItems]⟩
  | _, _, .cons h h', hdecoded => by
    obtain ⟨hnode, hnodes⟩ := List.forall_mem_cons.mp hdecoded
    obtain ⟨literal, htranslate, hcompile⟩ := h.compiles hnode
    obtain ⟨literals, htranslate', hcompile'⟩ := h'.compiles hnodes
    refine ⟨literal :: literals, ?_, ?_⟩
    · rw [translateItems, htranslate, htranslate']
      rfl
    · rw [compileItems, hcompile, hcompile']
      rfl

theorem RulesDenote.compiles : {rules : List (Value × Value)} →
    {matchers : List (Value × Matcher)} → RulesDenote rules matchers →
    {members : List (Text × Value)} → rules = Value.named members →
    (∀ v ∈ members.map Prod.snd, v.Decoded) → ∃ literals : List (Text × Value),
      translateRules rules = .ok (Value.named literals) ∧
        literals.map Prod.fst = members.map Prod.fst ∧
        ∀ {body : Value} {matcher : Matcher}, body.compile = .ok matcher →
          compileRules (Value.rulePairs literals ++ [body]) = .ok (matchers, matcher)
  | _, _, .nil, [], _, _ => by
    refine ⟨[], by rw [translateRules]; rfl, rfl, fun hbody => ?_⟩
    rw [Value.rulePairs, List.map_nil, List.nil_append, compileRules, hbody]
    rfl
  | _, _, .cons h h', (name, node) :: members, heq, hdecoded => by
    obtain ⟨hnode, hnodes⟩ := List.forall_mem_cons.mp hdecoded
    rw [Value.named, List.map_cons] at heq
    cases heq
    obtain ⟨literal, htranslate, hcompile⟩ := h.compiles hnode
    obtain ⟨literals, htranslate', hnames, hcompile'⟩ := h'.compiles rfl hnodes
    refine ⟨(name, literal) :: literals, ?_, ?_, fun hbody => ?_⟩
    · rw [translateRules, htranslate, htranslate']
      rfl
    · rw [List.map_cons, hnames, List.map_cons]
    · rw [Value.compileRules_rulePairs_cons, hcompile, hcompile' hbody]
      rfl

end

/-! ### What is read denotes a matcher -/

/-- If a value can be read, it denotes a matcher. -/
def Covered (node : Value) : Prop :=
  ∀ literal, translate node = .ok literal → ∃ matcher, Denotes node matcher

lemma exists_allDenote {nodes literals : List Value} (h : ∀ node ∈ nodes, Covered node)
    (htranslate : translateItems nodes = .ok literals) : ∃ matchers, AllDenote nodes matchers := by
  induction nodes generalizing literals with
  | nil => exact ⟨[], .nil⟩
  | cons node nodes ih =>
    obtain ⟨hnode, hnodes⟩ := List.forall_mem_cons.mp h
    rw [translateItems] at htranslate
    obtain ⟨literal, hliteral, htranslate⟩ := exists_of_bind_eq_ok htranslate
    obtain ⟨others, hothers, -⟩ := exists_of_bind_eq_ok htranslate
    obtain ⟨matcher, hmatcher⟩ := hnode literal hliteral
    obtain ⟨matchers, hmatchers⟩ := ih hnodes hothers
    exact ⟨matcher :: matchers, .cons hmatcher hmatchers⟩

lemma exists_rulesDenote {rules literals : List (Value × Value)}
    (h : ∀ node ∈ rules.map Prod.snd, Covered node)
    (htranslate : translateRules rules = .ok literals) :
    ∃ matchers, RulesDenote rules matchers := by
  induction rules generalizing literals with
  | nil => exact ⟨[], .nil⟩
  | cons rule rules ih =>
    obtain ⟨name, node⟩ := rule
    obtain ⟨hnode, hnodes⟩ := List.forall_mem_cons.mp h
    rw [translateRules] at htranslate
    obtain ⟨literal, hliteral, htranslate⟩ := exists_of_bind_eq_ok htranslate
    obtain ⟨others, hothers, -⟩ := exists_of_bind_eq_ok htranslate
    obtain ⟨matcher, hmatcher⟩ := hnode literal hliteral
    obtain ⟨matchers, hmatchers⟩ := ih hnodes hothers
    exact ⟨(name, matcher) :: matchers, .cons hmatcher hmatchers⟩

/-- An object is covered if the values and their parts in it are. -/
lemma covered_object
    (h : ∀ v ∈ entries.map Prod.snd, Covered v ∧ ∀ part ∈ v.parts, Covered part) :
    Covered (.dict entries) := by
  intro _ htranslate
  rw [translate_dict] at htranslate
  obtain ⟨tag, htag, hunder⟩ := exists_of_bind_eq_ok htranslate
  have htagged := tagOf_eq_ok_iff.mp htag
  cases tag with
  | var =>
    obtain ⟨name, hname, hunder⟩ := exists_of_bind_eq_ok hunder
    obtain ⟨only, honly, -⟩ := exists_of_bind_eq_ok hunder
    exact ⟨_, .var htagged (nameUnder_eq_ok_iff.mp hname) (restrictionOf_eq_ok_iff.mp honly)⟩
  | segment =>
    obtain ⟨name, hname, hunder⟩ := exists_of_bind_eq_ok hunder
    obtain ⟨only, honly, -⟩ := exists_of_bind_eq_ok hunder
    have hname := nameUnder_eq_ok_iff.mp hname
    have honly := restrictionOf_eq_ok_iff.mp honly
    cases hexact : exact entries with
    | true => exact ⟨_, .segmentExact htagged hname honly hexact⟩
    | false => exact ⟨_, .segment htagged hname honly hexact⟩
  | ref =>
    obtain ⟨name, hname, -⟩ := exists_of_bind_eq_ok hunder
    exact ⟨_, .ref htagged (nameUnder_eq_ok_iff.mp hname)⟩
  | choose =>
    obtain ⟨literals, hliterals, -⟩ := exists_of_map_eq_ok hunder
    rw [alternativesIn_eq_lookup] at hliterals
    split at hliterals
    · rename_i nodes hnodes
      have hparts := (h _ (List.mem_map_of_mem (Value.mem_of_lookupKey hnodes))).2
      obtain ⟨matchers, hmatchers⟩ := exists_allDenote hparts hliterals
      exact ⟨_, .choose htagged hnodes hmatchers⟩
    · cases hliterals
  | letrec =>
    rw [underTag] at hunder
    split at hunder
    · obtain ⟨literals, hliterals, hunder⟩ := exists_of_bind_eq_ok hunder
      obtain ⟨literal', hliteral', -⟩ := exists_of_bind_eq_ok hunder
      rw [rulesIn_eq_lookup] at hliterals
      rw [bodyIn_eq_lookup] at hliteral'
      split at hliterals
      · rename_i rules hrules
        split at hliteral'
        · rename_i body hbody
          have hparts := (h _ (List.mem_map_of_mem (Value.mem_of_lookupKey hrules))).2
          have hcovered := (h _ (List.mem_map_of_mem (Value.mem_of_lookupKey hbody))).1
          obtain ⟨matchers, hmatchers⟩ := exists_rulesDenote hparts hliterals
          obtain ⟨matcher, hmatcher⟩ := hcovered _ hliteral'
          exact ⟨_, .letrec htagged hrules hbody hmatchers hmatcher⟩
        · cases hliteral'
      · cases hliterals
    · cases hunder
  | const =>
    obtain ⟨v, hv⟩ := mem_textKeys_iff.mp ((htagged.one .const).mpr rfl)
    exact ⟨_, .const htagged hv⟩

/-- Every value that can be written in JSON is covered, and so is what is in it. -/
lemma covered_of_decoded {node : Value} (h : node.Decoded) :
    Covered node ∧ ∀ part ∈ node.parts, Covered part := by
  induction h with
  | @list items h ih =>
    have hitems := fun item hitem => (ih item hitem).1
    refine ⟨fun _ htranslate => ?_, hitems⟩
    rw [translate] at htranslate
    obtain ⟨literals, hliterals, -⟩ := exists_of_map_eq_ok htranslate
    obtain ⟨matchers, hmatchers⟩ := exists_allDenote hitems hliterals
    exact ⟨_, .list hmatchers⟩
  | object hnames h ih =>
    rw [Value.parts, Value.map_snd_named]
    refine ⟨covered_object ?_, fun v hv => (ih v hv).1⟩
    rw [Value.map_snd_named]
    exact ih
  | @str s =>
    refine ⟨fun _ _ => ?_, by simp [Value.parts]⟩
    by_cases hs : s = "..."
    · subst hs
      exact ⟨.rest, .filler⟩
    · exact ⟨_, .plain (bne_iff_ne.mpr hs)⟩
  | _ => exact ⟨fun _ _ => ⟨_, .plain rfl⟩, by simp [Value.parts]⟩

/-! ### The two passes together -/

/-- Where the names of restrictions belong in an object, by its tag. -/
lemma Restricts.under {got : Value} (tag : Tag) (htag : tagOf entries = .ok tag)
    (h : Restricts got (.dict entries)) :
    match tag with
    | .var | .segment => Value.lookupKey "where" entries = some got
    | .choose => ∃ nodes, (.str "choose", .list nodes) ∈ entries ∧ ∃ node ∈ nodes,
        Restricts got node
    | .letrec =>
      (∃ rules, (.str "letrec", .dict rules) ∈ entries ∧ ∃ rule ∈ rules, Restricts got rule.2) ∨
        ∃ node, (.str "body", node) ∈ entries ∧ Restricts got node
    | .ref | .const => False := by
  cases h with
  | «variable» htag' hvariable hgot =>
    cases htag.symm.trans htag'
    rcases hvariable with rfl | rfl <;> exact hgot
  | alternative htag' hnodes hmem h =>
    cases htag.symm.trans htag'
    exact ⟨_, hnodes, _, hmem, h⟩
  | rule htag' hrules hmem h =>
    cases htag.symm.trans htag'
    exact .inl ⟨_, hrules, _, hmem, h⟩
  | body htag' hbody h =>
    cases htag.symm.trans htag'
    exact .inr ⟨_, hbody, h⟩

/-- Where only names are looked up as restrictions, a value that can be written in JSON is read if
and only if it denotes a matcher; what is wrong with it lies in the pattern otherwise. What has been
read compiles, and to the one matcher that the value denotes. -/
theorem translate_iff_denotes {node : Value} (h : node.Decoded)
    (hnames : ∀ got, Restricts got node → unhashable got = false) :
    ((∃ literal, translate node = .ok literal) ↔ ∃ matcher, Denotes node matcher) ∧
      ((¬ ∃ matcher, Denotes node matcher) →
        ∃ e, translate node = .error e ∧ e.ofPattern = true) ∧
      ∀ literal, translate node = .ok literal → ∃ matcher, literal.compile = .ok matcher ∧
        ∀ matcher', Denotes node matcher' ↔ matcher' = matcher := by
  have hread : (∃ literal, translate node = .ok literal) ↔ ∃ matcher, Denotes node matcher := by
    constructor
    · rintro ⟨literal, hliteral⟩
      exact (covered_of_decoded h).1 literal hliteral
    · rintro ⟨matcher, hmatcher⟩
      obtain ⟨literal, hliteral, -⟩ := hmatcher.compiles h
      exact ⟨literal, hliteral⟩
  refine ⟨hread, fun hnone => ?_, fun literal hliteral => ?_⟩
  · cases htranslate : translate node with
    | ok literal => exact absurd (hread.mp ⟨literal, htranslate⟩) hnone
    | error e =>
      refine ⟨e, rfl, ?_⟩
      rcases (reads_of_decoded h).1.explains htranslate with hpattern | ⟨got, -, hgot, hrestricts⟩
      · exact hpattern
      · rw [hnames got hrestricts] at hgot
        cases hgot
  · obtain ⟨matcher, hmatcher⟩ := hread.mp ⟨literal, hliteral⟩
    have hcompile {matcher' : Matcher} (hmatcher' : Denotes node matcher') :
        literal.compile = .ok matcher' := by
      obtain ⟨literal', hliteral', hcompile'⟩ := hmatcher'.compiles h
      rw [hliteral] at hliteral'
      cases hliteral'
      exact hcompile'
    refine ⟨matcher, hcompile hmatcher, fun matcher' => ⟨fun hmatcher' => ?_, ?_⟩⟩
    · exact Except.ok.inj ((hcompile hmatcher').symm.trans (hcompile hmatcher))
    · rintro rfl
      exact hmatcher

/-- A rule with a restriction, and a choice of a reference to it and of filler under `const`, which
is none there. -/
theorem translate_iff_denotes_letrec :
    let var := Value.dict (Value.named [("var", .str "x"), ("where", .str "string")])
    let ref := Value.dict (Value.named [("ref", .str "r")])
    let const := Value.dict (Value.named [("const", .list [.str "..."])])
    let body := Value.dict (Value.named [("choose", .list [ref, const, .str "..."])])
    let node := Value.dict (Value.named
      [("letrec", .dict (Value.named [("r", var)])), ("body", body)])
    node.Decoded ∧ (∀ got, Restricts got node → unhashable got = false) ∧
      Denotes node (.letrec [(.str "r", .element "x" (some .string))]
        (.choice [.reference "r", .array [.constant (.str "...")], .rest])) := by
  intro var ref const body node
  have hvar : var.Decoded := .object (by decide) (by simpa using ⟨.str, .str⟩)
  have href : ref.Decoded := .object (by decide) (by simpa using .str)
  have hfiller : (Value.list [.str "..."]).Decoded := .list (by simpa using .str)
  have hconst : const.Decoded := .object (by decide) (by simpa using hfiller)
  have hlist : (Value.list [ref, const, .str "..."]).Decoded :=
    .list (by simpa using ⟨href, hconst, .str⟩)
  have hbody : body.Decoded := .object (by decide) (by simpa using hlist)
  have hrules : (Value.dict (Value.named [("r", var)])).Decoded :=
    .object (by decide) (by simpa using hvar)
  have hdecoded : node.Decoded := .object (by decide) (by simpa using ⟨hrules, hbody⟩)
  have hnames (got : Value) (h : Restricts got node) : unhashable got = false := by
    have hne : ("letrec" : Text) ≠ "body" := by decide
    rcases h.under .letrec rfl with ⟨rules, hmem, rule, hrule, h⟩ | ⟨node', hmem, h⟩
    · obtain rfl : rules = Value.named [("r", var)] := by simpa [Value.named, hne] using hmem
      obtain rfl : rule = (.str "r", var) := by simpa [Value.named] using hrule
      have hwhere : some (Value.str "string") = some got := h.under .var rfl
      cases hwhere
      rfl
    · obtain rfl : node' = body := by simpa [Value.named, hne.symm] using hmem
      obtain ⟨nodes, hmem, node', hnode', h⟩ := h.under .choose rfl
      obtain rfl : nodes = [ref, const, .str "..."] := by simpa [Value.named] using hmem
      obtain rfl | rfl | rfl : node' = ref ∨ node' = const ∨ node' = .str "..." := by
        simpa using hnode'
      · exact (h.under .ref rfl).elim
      · exact (h.under .const rfl).elim
      · cases h
  obtain ⟨-, -, hdenotes⟩ := translate_iff_denotes hdecoded hnames
  have htranslate : translate node = .ok (.letrecLiteral
      (Value.named [("r", .matcher (.element "x" (some .string)))])
      (.chooseLiteral [.matcher (.reference "r"), .list [.str "..."], .rest])) := by
    dsimp only [node, body, const, ref, var]
    cbv
  obtain ⟨matcher, hcompile, hmatcher⟩ := hdenotes _ htranslate
  refine ⟨hdecoded, hnames, (hmatcher _).mpr (Except.ok.inj (.trans ?_ hcompile))⟩
  symm
  cbv

end Notation

end Motif
