import Motif.Proofs.Lockstep

/-!
# Patterns that are recast

A pattern can be recast in two ways that leave its meaning alone where nothing interferes: its rules
are given other names, and letrecs are replaced by their bodies. What neither is done to stays as it
is.
-/

namespace Motif

/-- A matcher is recast: its rules and its references have new names, and some of the letrecs that
may be dropped are replaced by their bodies. -/
inductive Recast (name : Text → Text) (drops : List (Value × Matcher) → Matcher → Prop) :
    Matcher → Matcher → Prop where
  | constant {v : Value} : Recast name drops (.constant v) (.constant v)
  | element {k : Text} {only : Option Restriction} :
    Recast name drops (.element k only) (.element k only)
  | segment {k : Text} {only : Option Restriction} :
    Recast name drops (.segment k only) (.segment k only)
  | segmentExact {k : Text} {only : Option Restriction} :
    Recast name drops (.segmentExact k only) (.segmentExact k only)
  | rest : Recast name drops .rest .rest
  | array {elements elements' : List Matcher}
    (h : List.Forall₂ (Recast name drops) elements elements') :
    Recast name drops (.array elements) (.array elements')
  | choice {alternatives alternatives' : List Matcher}
    (h : List.Forall₂ (Recast name drops) alternatives alternatives') :
    Recast name drops (.choice alternatives) (.choice alternatives')
  | reference {k : Text} : Recast name drops (.reference k) (.reference (name k))
  | letrec {rules rules' : List (Value × Matcher)} {body body' : Matcher}
    (hkeys : rules'.map Prod.fst = rules.map fun rule => rule.1.renamedKey name)
    (hrules : List.Forall₂ (Recast name drops) (rules.map Prod.snd) (rules'.map Prod.snd))
    (h : Recast name drops body body') :
    Recast name drops (.letrec rules body) (.letrec rules' body')
  | dropped {rules : List (Value × Matcher)} {body body' : Matcher} (hdrops : drops rules body)
    (h : Recast name drops body body') : Recast name drops (.letrec rules body) body'
  | abstract {stamp : Nat} : Recast name drops (.abstract stamp) (.abstract stamp)

section

variable {drops : List (Value × Matcher) → Matcher → Prop}

mutual

theorem Recast.refl : (matcher : Matcher) → Recast id drops matcher matcher
  | .constant _ => .constant
  | .element .. => .element
  | .segment .. => .segment
  | .segmentExact .. => .segmentExact
  | .rest => .rest
  | .array elements => .array (Recast.refl_all elements)
  | .choice alternatives => .choice (Recast.refl_all alternatives)
  | .reference _ => .reference
  | .letrec rules body => .letrec (by simp) (Recast.refl_rules rules) (Recast.refl body)
  | .abstract _ => .abstract

theorem Recast.refl_all : (matchers : List Matcher) →
    List.Forall₂ (Recast id drops) matchers matchers
  | [] => .nil
  | matcher :: matchers => .cons (Recast.refl matcher) (Recast.refl_all matchers)

theorem Recast.refl_rules : (rules : List (Value × Matcher)) →
    List.Forall₂ (Recast id drops) (rules.map Prod.snd) (rules.map Prod.snd)
  | [] => .nil
  | (_, matcher) :: rules => .cons (Recast.refl matcher) (Recast.refl_rules rules)

end

/-- A letrec that may be dropped. -/
def Matcher.Droppable (drops : List (Value × Matcher) → Matcher → Prop) : Matcher → Prop
  | .letrec rules body => drops rules body
  | _ => False

mutual

/-- Where nothing is renamed, what has no letrec in it that may be dropped stays. -/
theorem Recast.eq_of_undropped : (matcher : Matcher) → {matcher' : Matcher} →
    Recast id drops matcher matcher' → (∀ part ∈ matcher.parts, ¬ part.Droppable drops) →
    matcher' = matcher
  | .constant _, _, h, _ => by cases h; rfl
  | .element .., _, h, _ => by cases h; rfl
  | .segment .., _, h, _ => by cases h; rfl
  | .segmentExact .., _, h, _ => by cases h; rfl
  | .rest, _, h, _ => by cases h; rfl
  | .array elements, _, h, hnot => by
    cases h with
    | array h => rw [Recast.all_eq_of_undropped elements h (List.forall_mem_cons.mp hnot).2]
  | .choice alternatives, _, h, hnot => by
    cases h with
    | choice h => rw [Recast.all_eq_of_undropped alternatives h (List.forall_mem_cons.mp hnot).2]
  | .reference _, _, h, _ => by cases h; rfl
  | .letrec rules body, _, h, hnot => by
    obtain ⟨hself, hparts⟩ := List.forall_mem_cons.mp hnot
    obtain ⟨hrules, hbody⟩ := List.forall_mem_append.mp hparts
    cases h with
    | letrec hkeys h h' =>
      have hvalues := Recast.rules_eq_of_undropped rules h hrules
      simp only [Value.renamedKey_id] at hkeys
      rw [Recast.eq_of_undropped body h' hbody, List.zip_of_prod hkeys hvalues,
        ← List.zip_of_prod rfl rfl]
    | dropped hdrops _ => exact absurd hdrops hself
  | .abstract _, _, h, _ => by cases h; rfl

theorem Recast.all_eq_of_undropped : (matchers : List Matcher) → {matchers' : List Matcher} →
    List.Forall₂ (Recast id drops) matchers matchers' →
    (∀ part ∈ allParts matchers, ¬ part.Droppable drops) → matchers' = matchers
  | [], _, h, _ => List.forall₂_nil_left_iff.mp h
  | matcher :: matchers, _, h, hnot => by
    obtain ⟨hfirst, hothers⟩ := List.forall_mem_append.mp hnot
    cases h with
    | cons h hs =>
      rw [Recast.eq_of_undropped matcher h hfirst, Recast.all_eq_of_undropped matchers hs hothers]

theorem Recast.rules_eq_of_undropped : (rules : List (Value × Matcher)) →
    {matchers' : List Matcher} → List.Forall₂ (Recast id drops) (rules.map Prod.snd) matchers' →
    (∀ part ∈ rulesParts rules, ¬ part.Droppable drops) → matchers' = rules.map Prod.snd
  | [], _, h, _ => List.forall₂_nil_left_iff.mp h
  | (_, matcher) :: rules, _, h, hnot => by
    obtain ⟨hfirst, hothers⟩ := List.forall_mem_append.mp hnot
    cases h with
    | cons h hs =>
      rw [Recast.eq_of_undropped matcher h hfirst, Recast.rules_eq_of_undropped rules hs hothers]
      rfl

end

end

lemma Matcher.not_droppable (matcher : Matcher) : ¬ matcher.Droppable fun _ _ => False := by
  cases matcher <;> exact id

/-- Where nothing is renamed and no letrec may be dropped, all stays. -/
lemma Recast.eq_of_id {matcher matcher' : Matcher}
    (h : Recast id (fun _ _ => False) matcher matcher') : matcher' = matcher :=
  Recast.eq_of_undropped matcher h fun part _ => part.not_droppable

end Motif
