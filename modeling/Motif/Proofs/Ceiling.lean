import Motif.Proofs.Interrupts
import Motif.Proofs.Trace
import Mathlib

/-!
# Raising the ceiling

The ceiling on nested references cuts ways off and does nothing else. Under a higher ceiling all
ways remain, in their order, and others may come in between; a search in which no reference meets
the ceiling is the same search under every higher one.
-/

namespace Motif

open scoped List

section

variable {H : Predicates}

/-! ### Environments and ways under another ceiling -/

namespace Environment

@[simp] lemma capped_extend (env : Environment) (ceiling : Int) (name : Text) (value : Value) :
    (env.capped ceiling).extend name value = (env.extend name value).capped ceiling := rfl

lemma exhausted_capped {env : Environment} {ceiling : Int} (hceiling : env.maxDepth ≤ ceiling)
    (h : env.exhausted = false) : (env.capped ceiling).exhausted = false := by
  have hbelow : env.depth < env.maxDepth := by simpa [exhausted] using h
  exact exhausted_of_lt (Int.lt_of_lt_of_le hbelow hceiling)

end Environment

/-- A way under another ceiling. -/
def Way.capped (ceiling : Int) : Way → Way := Except.map fun (env, n) => (env.capped ceiling, n)

/-- Under the ceiling `high` there are all ways that there are under `low`, in the same order. -/
def Adds (low high : Int) (ways ways' : List Value → Environment → List Way) : Prop :=
  ∀ (items : List Value) (env : Environment), env.maxDepth = low →
    (ways items env).map (Way.capped high) <+ ways' items (env.capped high)

variable {low high : Int}

lemma map_capped_map_ok (ways : List (Environment × Nat)) :
    (ways.map .ok).map (Way.capped high) =
      (ways.map fun (env, n) => (env.capped high, n)).map .ok := by
  rw [List.map_map, List.map_map]
  rfl

/-- What puts environments in order does so under every ceiling. -/
lemma map_capped_map_leave (restore restore' : Environment → Environment)
    (h : ∀ env, restore' (env.capped high) = (restore env).capped high) (ways : List Way) :
    (ways.map (Way.leave restore)).map (Way.capped high) =
      (ways.map (Way.capped high)).map (Way.leave restore') := by
  rw [List.map_map, List.map_map]
  congr 1
  funext way
  cases way with
  | error interrupt => rfl
  | ok way =>
    change Except.ok ((restore way.1).capped high, way.2) = Except.ok (restore' _, way.2)
    rw [h]

/-- More ways, each of them followed by more. -/
lemma followed_sublist {ways ways' : List Way}
    {next next' : Environment → Nat → List (Except Interrupt Environment)}
    (h : ways.map (Way.capped high) <+ ways')
    (hnext : ∀ env n, .ok (env, n) ∈ ways →
      (next env n).map (Except.map (·.capped high)) <+ next' (env.capped high) n) :
    (followed ways next).map (Except.map (·.capped high)) <+ followed ways' next' := by
  have hsublist : (followed ways next).map (Except.map (·.capped high)) <+
      followed (ways.map (Way.capped high)) next' := by
    rw [followed, followed, List.map_flatMap, List.flatMap_map]
    apply List.Sublist.flatMap_right
    rintro (interrupt | ⟨env, n⟩) hway
    · exact List.Sublist.refl _
    · exact hnext env n hway
  exact hsublist.trans (h.flatMap _)

/-! ### Runs of items and single items -/

section

variable (items : List Value) (env : Environment) (ceiling : Int)

lemma constantWays_capped (value : Value) : constantWays value items (env.capped ceiling) =
    (constantWays value items env).map fun (env', n) => (env'.capped ceiling, n) := by
  cases items with
  | nil => rfl
  | cons item items =>
    simp only [constantWays]
    split <;> rfl

lemma elementWays_capped (name : Text) (only : Option Restriction) :
    elementWays name only items (env.capped ceiling) =
      (elementWays name only items env).map fun (env', n) => (env'.capped ceiling, n) := by
  cases items with
  | nil => rfl
  | cons item items =>
    simp only [elementWays, Environment.get?_capped, Environment.capped_extend]
    split
    · split
      · rfl
      · split <;> rfl
    · rfl

lemma segmentWays_capped (name : Text) (only : Option Restriction) :
    segmentWays name only items (env.capped ceiling) =
      (segmentWays name only items env).map fun (env', n) => (env'.capped ceiling, n) := by
  simp only [segmentWays, Environment.get?_capped, Environment.capped_extend]
  split
  · rw [List.map_map]
    rfl
  · split <;> rfl
  · rfl

lemma restWays_capped : restWays items (env.capped ceiling) =
    (restWays items env).map fun (env', n) => (env'.capped ceiling, n) := by
  rw [restWays, restWays, List.map_map]
  rfl

end

/-- Ways that do not depend on the ceiling. -/
lemma adds_of_eq {ways : List Value → Environment → List (Environment × Nat)}
    (h : ∀ items env, ways items (env.capped high) =
      (ways items env).map fun (env', n) => (env'.capped high, n)) :
    Adds low high (fun items env => (ways items env).map .ok)
      fun items env => (ways items env).map .ok := by
  intro items env _
  have hsame : ((ways items env).map .ok).map (Way.capped high) =
      (ways items (env.capped high)).map .ok := by
    rw [map_capped_map_ok, h]
  exact hsame ▸ List.Sublist.refl _

lemma adds_segmentExact (name : Text) (only : Option Restriction) :
    Adds low high
      (fun items env =>
        ((segmentWays name only items env).filter fun way => way.2 = items.length).map .ok)
      fun items env =>
        ((segmentWays name only items env).filter fun way => way.2 = items.length).map .ok := by
  apply adds_of_eq
  intro items env
  rw [segmentWays_capped, List.filter_map]
  rfl

/-! ### Combinations -/

section Call

variable {call call' : Text → List Value → Environment → List Way}

variable (low high call call') in
/-- As `Adds`, for the elements of an array. -/
def AddsElements [Predicates] (elements : List Matcher) : Prop :=
  ∀ (items : List Value) (env : Environment), env.maxDepth = low →
    (sequenceWays call elements items env).map (Except.map (·.capped high)) <+
      sequenceWays call' elements items (env.capped high)

lemma addsElements_nil : AddsElements low high call call' [] := by
  intro items env _
  simp only [sequenceWays]
  split
  · exact List.Sublist.refl _
  · exact List.Sublist.refl _

lemma addsElements_cons (hgrow : ∀ name, Grow (call name)) {element : Matcher}
    {elements : List Matcher} (helement : Adds low high (element.ways call) (element.ways call'))
    (helements : AddsElements low high call call' elements) :
    AddsElements low high call call' (element :: elements) := by
  intro items env hcap
  rw [sequenceWays, sequenceWays]
  apply followed_sublist (helement items env hcap)
  intro env' n hway
  have hgrows := (Matcher.grow_ways hgrow element hway).2
  exact helements _ env' (hgrows.maxDepth.trans hcap)

lemma adds_array {elements : List Matcher} (h : AddsElements low high call call' elements) :
    Adds low high ((Matcher.array elements).ways call) ((Matcher.array elements).ways call') := by
  intro items env hcap
  match items with
  | .seq shape inner :: others =>
    simp only [Matcher.ways]
    have hinner := (h inner env hcap).map (Except.map fun env' => (env', 1))
    rw [List.map_map] at hinner ⊢
    have hcapped : Way.capped high ∘ Except.map (fun env' => (env', 1)) =
        (Except.map fun env' => (env', 1)) ∘ Except.map (·.capped high) := by
      funext way
      cases way <;> rfl
    rw [hcapped]
    exact hinner
  | [] | .null :: _ | .bool _ :: _ | .int _ :: _ | .float _ :: _ | .str _ :: _ | .dict _ :: _
  | .rest :: _ | .form _ :: _ | .matcher _ :: _ => exact List.Sublist.refl _

lemma adds_letrec (rules : Table Matcher) {ways ways' : List Value → Environment → List Way}
    (h : Adds low high ways ways') :
    Adds low high
      (fun items env => (ways items (env.define rules)).map (Way.leave (·.scopedTo env)))
      fun items env => (ways' items (env.define rules)).map (Way.leave (·.scopedTo env)) := by
  intro items env hcap
  dsimp only
  rw [map_capped_map_leave _ (·.scopedTo (env.capped high)) fun _ => rfl]
  exact (h items (env.define rules) hcap).map _

mutual

/-- All ways of a matcher remain, if those of every reference do. -/
theorem adds_ways [Predicates]
    (hcall : ∀ name, Adds low high (call name) (call' name)) (hgrow : ∀ name, Grow (call name)) :
    (matcher : Matcher) → Adds low high (matcher.ways call) (matcher.ways call')
  | .constant value => adds_of_eq fun items env => constantWays_capped items env high value
  | .element name only => adds_of_eq fun items env => elementWays_capped items env high name only
  | .segment name only => adds_of_eq fun items env => segmentWays_capped items env high name only
  | .segmentExact name only => adds_segmentExact name only
  | .rest => adds_of_eq fun items env => restWays_capped items env high
  | .array elements => adds_array (addsElements hcall hgrow elements)
  | .choice alternatives => adds_alternativeWays hcall hgrow alternatives
  | .reference name => hcall name
  | .letrec rules body => adds_letrec (namedRules rules) (adds_ways hcall hgrow body)
  | .abstract _ => fun _ _ _ => List.Sublist.refl _

theorem addsElements [Predicates]
    (hcall : ∀ name, Adds low high (call name) (call' name)) (hgrow : ∀ name, Grow (call name)) :
    (elements : List Matcher) → AddsElements low high call call' elements
  | [] => addsElements_nil
  | element :: elements =>
    addsElements_cons hgrow (adds_ways hcall hgrow element) (addsElements hcall hgrow elements)

theorem adds_alternativeWays [Predicates]
    (hcall : ∀ name, Adds low high (call name) (call' name)) (hgrow : ∀ name, Grow (call name)) :
    (alternatives : List Matcher) →
    Adds low high (alternativeWays call alternatives) (alternativeWays call' alternatives)
  | [] => fun _ _ _ => List.Sublist.refl _
  | alternative :: alternatives => by
    intro items env hcap
    rw [alternativeWays, alternativeWays, List.map_append]
    exact (adds_ways hcall hgrow alternative items env hcap).append
      (adds_alternativeWays hcall hgrow alternatives items env hcap)

end

end Call

/-! ### References -/

lemma adds_callWays (stack : Option Nat) (hle : low ≤ high) {room room' : Nat}
    (hroom : room ≤ room') (name : Text) :
    Adds low high (callWays stack room name) (callWays stack room' name) := by
  induction room generalizing room' name with
  | zero =>
    intro items env _
    cases h : env.matcher? name <;> simp [callWays, h]
  | succ room ih =>
    intro items env hcap
    obtain ⟨room', rfl⟩ : ∃ j, room' = j + 1 := ⟨room' - 1, by omega⟩
    simp only [callWays, Environment.matcher?_capped]
    cases h : env.matcher? name with
    | none => exact List.Sublist.refl _
    | some target =>
      cases hexhausted : env.exhausted with
      | true => exact List.nil_sublist _
      | false =>
        have hcapped := Environment.exhausted_capped (hcap ▸ hle) hexhausted
        have htarget := adds_ways (fun name => ih (Nat.le_of_succ_le_succ hroom) name)
          (grow_callWays stack room) target items env.descend hcap
        have hopened := htarget.map (Way.leave (·.atDepth env.depth))
        rw [← map_capped_map_leave (·.atDepth env.depth) _ fun env' => env'.atDepth_capped high _]
          at hopened
        simp only [hcapped, Bool.false_eq_true, if_false]
        rw [Environment.capped_depth]
        split
        · exact List.Sublist.refl _
        · exact hopened

lemma Matcher.adds_waysFrom [Predicates] (stack : Option Nat) (matcher : Matcher)
    (hle : low ≤ high) : Adds low high (matcher.waysFrom stack) (matcher.waysFrom stack) := by
  intro items env hcap
  have hroom : env.room ≤ (env.capped high).room := by
    simp only [Environment.room, Environment.capped, hcap]
    omega
  exact adds_ways (adds_callWays stack hle hroom) (grow_callWays stack env.room) matcher
    items env hcap

/-! ### Continuations that reject every way -/

/-- A continuation that answers every call with a failure. -/
def Continuation.Rejects {σ κ : Type} [Answer κ] (k : Continuation (Stateful σ) κ) : Prop :=
  ∀ env n state, ∃ x state',
    Stateful.ending (k env n) state = (.ok x, state') ∧ accepted? x = none

section Rejects

variable {σ κ : Type} [Answer κ] {k : Continuation (Stateful σ) κ} (hk : k.Rejects)
include hk

lemma recorded_findSomeM?_of_rejects {ways : List Way}
    (hways : ∀ interrupt, .error interrupt ∉ ways) (state : σ)
    (calls : List (Environment × Nat)) :
    (Stateful.ending
      (ways.findSomeM? (attempt fun way => accepted? <$> k.recorded way.1 way.2))
      (state, calls)).2.2 = calls ++ ways.filterMap Except.toOption := by
  induction ways generalizing state calls with
  | nil => rw [List.filterMap_nil, List.append_nil]; rfl
  | cons way ways ih =>
    cases way with
    | error interrupt => exact absurd List.mem_cons_self (hways interrupt)
    | ok way =>
      obtain ⟨x, state', hending, hx⟩ := hk way.1 way.2 state
      have hothers := ih (fun interrupt h => hways interrupt (List.mem_cons_of_mem _ h)) state'
        (calls ++ [way])
      rw [List.findSomeM?_cons, attempt_ok, Stateful.ending_bind, Stateful.ending_map,
        Continuation.ending_recorded, hending]
      simp only [Except.map, hx]
      rw [hothers, List.append_assoc]
      rfl

/-- A continuation that rejects all ways is called for all of them, if nothing interrupts the
search. -/
lemma Matcher.calls_of_rejects {stack : Option Nat} {matcher : Matcher} {input : Input}
    {env : Environment}
    (hways : ∀ interrupt, .error interrupt ∉ matcher.waysFrom stack input.items env) (state : σ) :
    matcher.calls stack input env k state =
      (matcher.waysFrom stack input.items env).filterMap Except.toOption := by
  have hlog := recorded_findSomeM?_of_rejects hk hways state []
  rw [← Matcher.tries_searchFrom stack matcher input env k.recorded, Stateful.ending_map] at hlog
  exact hlog

end Rejects

lemma Concrete.capped {items : List Value} {env : Environment} (h : Concrete items env)
    (ceiling : Int) : Concrete items (env.capped ceiling) := ⟨h.item, h.named⟩

/-- Under a higher ceiling a continuation that rejects all ways is called for more of them. -/
lemma Matcher.calls_capped_sublist {σ κ : Type} [Answer κ] {matcher : Matcher}
    (hbuilt : matcher.builtFrom MatcherKind.all = true) {input : Input} {env : Environment}
    (hconcrete : Concrete input.items env) {k : Continuation (Stateful σ) κ} (hk : k.Rejects)
    (hle : low ≤ high) (state : σ) :
    (matcher.calls none input (env.capped low) k state).map (fun (env', n) => (env'.bindings, n)) <+
      (matcher.calls none input (env.capped high) k state).map
        fun (env', n) => (env'.bindings, n) := by
  have hways := Matcher.adds_waysFrom none matcher hle input.items (env.capped low) rfl
  have hoptions := hways.filterMap Except.toOption
  rw [Matcher.calls_of_rejects hk fun _ =>
      Matcher.uninterrupted_waysFrom hbuilt (hconcrete.capped low),
    Matcher.calls_of_rejects hk fun _ =>
      Matcher.uninterrupted_waysFrom hbuilt (hconcrete.capped high)]
  have hsublist := hoptions.map fun (env', n) => (env'.bindings, n)
  rw [List.filterMap_map, List.map_filterMap] at hsublist
  rw [List.map_filterMap]
  have hsame : (fun way : Way => (Except.toOption way).map fun (env', n) => (env'.bindings, n)) =
      fun way : Way => ((Except.toOption ∘ Way.capped high) way).map
        fun (env', n) => (env'.bindings, n) := by
    funext way
    cases way <;> rfl
  rw [hsame]
  exact hsublist

/-- What matches under a ceiling matches under a higher one. -/
lemma Matcher.exists_outcome_of_le {matcher : Matcher}
    (hbuilt : matcher.builtFrom MatcherKind.all = true) {datum : Value}
    (hconcrete : Concrete [datum] (.empty low)) (hle : low ≤ high) {result : Success}
    (h : matcher.outcome ⟨low, none⟩ datum = .ok (.success result)) :
    ∃ result', matcher.outcome ⟨high, none⟩ datum = .ok (.success result') := by
  have hlow := Matcher.exists_outcome ⟨low, none⟩ matcher datum
    fun _ => Matcher.uninterrupted_waysFrom hbuilt hconcrete
  have hhigh := Matcher.exists_outcome ⟨high, none⟩ matcher datum
    fun _ => Matcher.uninterrupted_waysFrom hbuilt (hconcrete.capped high)
  obtain ⟨outcome, houtcome, -, hway⟩ := hlow
  obtain ⟨outcome', houtcome', hmatched, -⟩ := hhigh
  obtain rfl : outcome = .success result := Except.ok.inj (houtcome.symm.trans h)
  have hmem := (Matcher.adds_waysFrom none matcher hle [datum] (.empty low) rfl).subset
    (List.mem_map_of_mem (f := Way.capped high) (hway result rfl))
  have hsuccess := hmatched.mpr ⟨_, _, hmem⟩
  cases outcome' with
  | success result' => exact ⟨result', houtcome'⟩
  | failure f => cases hsuccess

/-- Raising the ceiling only adds. A continuation that rejects all ways is called under the lower
ceiling for some of those that it is called for under the higher one, in the same order, and what
matches under the lower ceiling matches under the higher one. If no reference meets the lower
ceiling, nothing is added: a continuation that answers alike under both is called alike, and the
search ends alike. -/
theorem Matcher.higher_ceiling_adds (matcher : Matcher) {low high : Int} (hle : low ≤ high) :
    (matcher.builtFrom MatcherKind.all = true → ∀ {σ κ : Type} [Answer κ] (input : Input)
      (env : Environment) (k : Continuation (Stateful σ) κ) (state : σ),
      Concrete input.items env → k.Rejects →
        (matcher.calls none input (env.capped low) k state).map
            (fun (env', n) => (env'.bindings, n)) <+
          (matcher.calls none input (env.capped high) k state).map
            fun (env', n) => (env'.bindings, n)) ∧
      (matcher.builtFrom MatcherKind.all = true → ∀ (datum : Value) (result : Success),
        Concrete [datum] (.empty low) →
        matcher.outcome ⟨low, none⟩ datum = .ok (.success result) →
          ∃ result', matcher.outcome ⟨high, none⟩ datum = .ok (.success result')) ∧
      ∀ {σ κ : Type} [Answer κ] (input : Input) (env : Environment)
        (k k' : Continuation (Stateful σ) κ) (state : σ),
        (∀ (env' : Environment) (n : Nat), k' (env'.capped high) n = k (env'.capped low) n) →
        Calm (matcher.trace none input (env.capped low) k state) →
          Stateful.ending (matcher.searchFrom none input (env.capped high) k') state =
              Stateful.ending (matcher.searchFrom none input (env.capped low) k) state ∧
            matcher.calls none input (env.capped high) k' state =
              (matcher.calls none input (env.capped low) k state).map
                fun (env', n) => (env'.capped high, n) := by
  refine ⟨?_, ?_, ?_⟩
  · intro hbuilt σ κ _ input env k state hconcrete hk
    exact Matcher.calls_capped_sublist hbuilt hconcrete hk hle state
  · intro hbuilt datum result hconcrete hresult
    exact Matcher.exists_outcome_of_le hbuilt hconcrete hle hresult
  · intro σ κ _ input env k k' state hk hcalm
    have hk' (env' : Environment) (n : Nat) (hcap : env'.maxDepth = (env.capped low).maxDepth) :
        k' (env'.capped high) n = k env' n := by
      have hself : env'.capped low = env' := by
        rw [← Environment.capped_maxDepth env low, ← hcap, Environment.capped_self]
      rw [hk, hself]
    exact ⟨Matcher.ending_capped_of_calm none matcher input state hle hk' hcalm,
      Matcher.calls_capped_of_calm none matcher input state hle hk' hcalm⟩

end

/-- Two references inside one another, of which the lower ceiling allows one. -/
theorem Matcher.higher_ceiling_adds_nested :
    let inner : Text := [.char 'b']
    let outer : Text := [.char 'a']
    let name : Text := [.char 'x']
    let matcher := Matcher.letrec
      [(.str outer, .reference inner), (.str inner, .element name none)]
      (.choice [.reference outer, .rest])
    let refuse : Continuation (Stateful Unit) (Verdict Success) := fun _ _ => pure (.own default)
    let calls (ceiling : Int) :=
      (matcher.calls none (.single (.int 7)) ((Environment.empty 0).capped ceiling) refuse ()).map
        fun (env, n) => (env.bindings, n)
    let ending (ceiling : Int) := Stateful.ending
      (matcher.searchFrom none (.single (.int 7)) ((Environment.empty 0).capped ceiling) refuse) ()
    calls 1 <+ calls 2 ∧
      (∃ result, matcher.outcome ⟨2, none⟩ (.int 7) = .ok (.success result)) ∧
      ending 3 = ending 2 := by
  intro inner outer name matcher refuse calls ending
  have hbuilt : matcher.builtFrom MatcherKind.all = true := rfl
  have hconcrete (ceiling : Int) : Concrete [.int 7] (.empty ceiling) := by
    refine ⟨fun m hm => ?_, fun name m hm => nomatch hm⟩
    cases hm with
    | item h => simp at h
    | inside h _ => simp at h
  have hrefuse : refuse.Rejects := fun _ _ _ => ⟨_, _, rfl, rfl⟩
  have hlow : matcher.outcome ⟨1, none⟩ (.int 7) =
      .ok (.success ⟨⟨[], [], 0, 1, 2⟩, 0⟩) := by
    dsimp only [matcher, outer, inner, name]
    cbv
  have hcalm : Calm (matcher.trace none (.single (.int 7)) ((Environment.empty 0).capped 2)
      refuse ()) := by
    rw [calm_iff]
    dsimp only [matcher, outer, inner, name]
    cbv
  obtain ⟨hcalls, houtcome, -⟩ := Matcher.higher_ceiling_adds matcher (show (1 : Int) ≤ 2 by decide)
  obtain ⟨-, -, hsame⟩ := Matcher.higher_ceiling_adds matcher (show (2 : Int) ≤ 3 by decide)
  exact ⟨hcalls hbuilt (.single (.int 7)) _ refuse () (hconcrete 0) hrefuse,
    houtcome hbuilt (.int 7) _ (hconcrete 1) hlow,
    (hsame (.single (.int 7)) (.empty 0) refuse refuse () (fun _ _ => rfl) hcalm).1⟩

end Motif
