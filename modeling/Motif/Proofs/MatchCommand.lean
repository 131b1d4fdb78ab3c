import Motif.Proofs.Interrupts
import Motif.Proofs.Reports
import Motif.Proofs.Shapes
import Mathlib

/-!
# The command that matches

Once its files have been read, the command that matches comes to its end: every datum comes to an
outcome, and the report on all of them can be written. The status tells whether all of them matched,
whatever the form of the report and wherever it goes. What is wrong with the files is found before
that, and then nothing is written.
-/

namespace Motif

/-! ### What is read from files -/

namespace Document

variable {files : Files} {path : Text}

lemma decoded_of_decode {text : List Char} {v : Value} (h : decode text = .ok v) : v.Decoded := by
  rw [decode] at h
  split at h
  · rename_i hdecode
    cases h
    exact Json.decoded_of_decode hdecode
  · cases h

lemma decoded_of_readInputs {inputs : List Value} (h : readInputs files path = .ok inputs) :
    ∀ datum ∈ inputs, datum.Decoded := by
  obtain ⟨text, -, h⟩ := exists_of_bind_eq_ok h
  rw [decodeAll] at h
  split at h
  · intro datum hdatum
    obtain ⟨record, -, hdecode⟩ := exists_of_mem_of_mapM_eq_ok h hdatum
    exact decoded_of_decode hdecode
  · obtain ⟨v, hdecode, h⟩ := exists_of_bind_eq_ok h
    cases h
    exact List.forall_mem_singleton.mpr (decoded_of_decode hdecode)

lemma exists_translate_of_loadPattern {literal : Value} (h : loadPattern files path = .ok literal) :
    ∃ node : Value, node.Decoded ∧ Notation.translate node = .ok literal := by
  obtain ⟨text, -, h⟩ := exists_of_bind_eq_ok h
  obtain ⟨node, hdecode, h⟩ := exists_of_bind_eq_ok h
  refine ⟨node, decoded_of_decode hdecode, ?_⟩
  split at h
  · rename_i htranslate
    cases h
    exact htranslate
  · cases h

/-- Every matcher in a pattern from a file has a search of its own. -/
lemma builtFrom_of_loadPattern {literal : Value} {matcher : Matcher}
    (hload : loadPattern files path = .ok literal) (hcompile : literal.compile = .ok matcher) :
    matcher.builtFrom MatcherKind.all = true := by
  obtain ⟨node, hnode, htranslate⟩ := exists_translate_of_loadPattern hload
  refine matcher.builtFrom_of_parts fun part hpart => ?_
  have hkind : ∃ kind, part.kind? = some kind := by
    rcases Notation.written_of_translate hnode htranslate hcompile part hpart with
      hflat | ⟨entries, rfl⟩
    · exact Matcher.exists_kind?_of_flat hflat
    · exact ⟨_, rfl⟩
  obtain ⟨kind, hkind⟩ := hkind
  exact ⟨kind, by cases kind <;> decide, hkind⟩

end Document

lemma Value.Decoded.inert {v : Value} (h : v.Decoded) : v.Inert := by
  induction h with
  | list _ ih => exact Value.inert_seq_iff.mpr ih
  | _ => exact Value.inert_of_bare rfl fun m h => by cases h

lemma Value.Inert.concrete {datum : Value} (h : datum.Inert) (maxDepth : Int) :
    Concrete [datum] (.empty maxDepth) :=
  ⟨fun m hm => absurd hm (h m), fun _ _ hm => nomatch hm⟩

/-- A success gives values to variables of the pattern alone. -/
lemma Outcome.namesSound_of_variables [Predicates] {matcher : Matcher} {limits : Limits}
    {datum : Value} {outcome : Outcome} (hdatum : datum.Inert)
    (hvariables : ∀ name ∈ matcher.variables, name.Sound)
    (h : matcher.outcome limits datum = .ok outcome) : outcome.NamesSound := by
  cases outcome with
  | failure f => trivial
  | success result =>
    obtain ⟨ceiling, hknown⟩ := Upkeep.known_of_outcome (U := .inert matcher)
      ⟨List.Subset.refl _, nofun⟩ (List.forall_mem_singleton.mpr hdatum) (.empty _ _) h
    replace hknown : (result.environment.capped ceiling).Known matcher := hknown
    intro name hname
    obtain ⟨v, hv⟩ := Table.mem_names_iff.mp hname
    exact hvariables name (hknown.bound hv).1

/-! ### What is reported, and where it goes -/

/-- A text is all that is written: to the standard output or to the file at a path. -/
inductive Output.Holds (text : Text) : Text → Output → Prop where
  | stdout : Holds text stdoutPath { stdout := text }
  | file {path : Text} {s : String} (hpath : path ≠ stdoutPath) (hs : Text.ofString s = text) :
    Holds text path { written := [(path, s)] }

namespace CommandLine

/-- A report in a format. As JSON it has the outcomes under one key, as text a block for each of
them, which begins with its number if there are several. -/
inductive Reports : Format → List Outcome → Text → Prop where
  | json {outcomes : List Outcome} {s : String}
    (h : Json.render (.dict [(.str "results", .list (outcomes.map Outcome.toDict))]) = .ok s) :
    Reports .json outcomes (Text.ofString s ++ [.char '\n'])
  | text {outcomes : List Outcome} {blocks : List Text} (hlength : blocks.length = outcomes.length)
    (h : ∀ (i : Nat) outcome, outcomes[i]? = some outcome → blocks[i]? =
      some ((if 1 < outcomes.length then Text.ofString ("[" ++ toString i ++ "] ") else []) ++
        outcome.explain)) :
    Reports .text outcomes (Text.separated "\n" blocks ++ [.char '\n'])

section

variable {files : Files} {outcomes : List Outcome} {out : Text}

lemma reports_reportText (outcomes : List Outcome) :
    Reports .text outcomes (reportText outcomes) := by
  refine .text (by simp) fun i outcome h => ?_
  rw [List.getElem?_map, List.getElem?_zipIdx, h]
  by_cases hseveral : 1 < outcomes.length <;> simp [hseveral]

lemma exists_ofText {text : Text} (hsound : text.Sound) (hend : text.getLast? = some (.char '\n'))
    (hout : out = Output.stdoutPath ∨ files.writable out = .ok ()) :
    ∃ output, Output.ofText files text out = .ok output ∧ Output.Holds text out output := by
  by_cases hpath : out = Output.stdoutPath
  · subst hpath
    refine ⟨{ stdout := text }, ?_, .stdout⟩
    rw [Output.ofText, if_pos rfl, Output.endLine, if_pos hend]
    rfl
  · obtain ⟨s, rfl⟩ := hsound
    refine ⟨{ written := [(out, s)] }, ?_, .file hpath rfl⟩
    rw [Output.ofText, if_neg hpath, hout.resolve_left hpath, Text.encode_ofString]
    rfl

lemma exists_ofValue {v : Value} {s : String} (hv : Json.render v = .ok s)
    (hout : out = Output.stdoutPath ∨ files.writable out = .ok ()) :
    ∃ output, Document.ofValue files v out = .ok output ∧
      Output.Holds (Text.ofString s ++ [.char '\n']) out output := by
  have hend : Text.ofString (s ++ "\n") = Text.ofString s ++ [.char '\n'] := by
    simp [Text.ofString, Text.ofChars]
  have htext : Document.text v = .ok (s ++ "\n") := by
    rw [Document.text, hv]
  rw [← hend, Document.ofValue, htext]
  by_cases hpath : out = Output.stdoutPath
  · subst hpath
    exact ⟨_, if_pos rfl, .stdout⟩
  · rw [if_neg hpath, hout.resolve_left hpath]
    exact ⟨_, rfl, .file hpath rfl⟩

/-- A report can be written in each format. -/
lemma exists_writeReport (format : Format) (hnames : ∀ outcome ∈ outcomes, outcome.NamesSound)
    (hout : out = Output.stdoutPath ∨ files.writable out = .ok ()) :
    ∃ text output, writeReport files format out outcomes = pure output ∧
      Reports format outcomes text ∧ Output.Holds text out output := by
  cases format with
  | text =>
    obtain ⟨output, houtput, hholds⟩ :=
      exists_ofText (sound_reportText hnames) List.getLast?_concat hout
    exact ⟨_, output, by rw [writeReport, houtput]; rfl, reports_reportText outcomes, hholds⟩
  | json =>
    obtain ⟨s, hs⟩ := Json.exists_write (decoded_reportDict outcomes) 0
    obtain ⟨output, houtput, hholds⟩ := exists_ofValue hs hout
    exact ⟨_, output, by rw [writeReport, houtput]; rfl, .json hs, hholds⟩

end

/-! ### Steps of the command -/

section

variable {α β : Type} {lines more : List String}

lemma run_bind_of_ok {x : Work α} {f : α → Work β} {a : α} (h : x.run.run lines = (.ok a, more)) :
    (x >>= f).run.run lines = (f a).run.run more := by
  rw [ExceptT.run_bind, StateT.run_bind, h]
  rfl

/-- Steps that come to their ends, whatever has been logged, do so one after the other. -/
lemma exists_run_mapM {ε : Type} {f : α → Work β} {g : α → Except ε β}
    (hstep : ∀ {a b}, g a = .ok b → ∀ lines, ∃ more, (f a).run.run lines = (.ok b, more))
    {as : List α} {bs : List β} (h : as.mapM g = .ok bs) (lines : List String) :
    ∃ more, (as.mapM f).run.run lines = (.ok bs, more) := by
  induction as generalizing bs lines with
  | nil =>
    cases h
    exact ⟨lines, rfl⟩
  | cons a as ih =>
    rw [List.mapM_cons] at h
    obtain ⟨b, hb, h⟩ := exists_of_bind_eq_ok h
    obtain ⟨others, hothers, h⟩ := exists_of_bind_eq_ok h
    cases h
    obtain ⟨after, hafter⟩ := hstep hb lines
    obtain ⟨more, hmore⟩ := ih hothers after
    refine ⟨more, ?_⟩
    rw [List.mapM_cons, run_bind_of_ok hafter, run_bind_of_ok hmore]
    rfl

/-- Under a ceiling the command comes to the outcome of a datum. -/
lemma exists_run_matchLogged {ceiling : Int} {matcher : Matcher} {datum : Value} {outcome : Outcome}
    (h : matcher.outcome { maxDepth := ceiling } datum = .ok outcome) (lines : List String) :
    ∃ more, (matchLogged (some ceiling) matcher datum).run.run lines = (.ok outcome, more) := by
  cases hstart : matcher.start (m := Except Interrupt) { maxDepth := ceiling } datum
    Success.keep with
  | ok verdict =>
    cases (Matcher.outcome_of_start hstart).symm.trans h
    simp only [matchLogged, limitsUnder, hstart]
    exact ⟨_, rfl⟩
  | error interrupt =>
    rw [Matcher.outcome_of_interrupt hstart] at h
    simp only [matchLogged, limitsUnder, hstart]
    cases hfailure : interrupt.failure? matcher datum with
    | none =>
      rw [hfailure] at h
      cases h
    | some f =>
      rw [hfailure] at h
      cases h
      exact ⟨_, rfl⟩

end

section

variable {files : Files} {patternPath dataPath out : Text} {literal : Value} {matcher : Matcher}
  {inputs : List Value} {outcomes : List Outcome} {output : Output} {format : Format}
  {maxDepth : Int}

lemma exists_run_loadMatcher (hload : Document.loadPattern files patternPath = .ok literal)
    (hcompile : literal.compile = .ok matcher) :
    ∃ more, (loadMatcher files patternPath).run.run [] = (.ok matcher, more) := by
  rw [loadMatcher, hload, attempt, pure_bind, hcompile, attempt, pure_bind]
  exact ⟨_, rfl⟩

/-- The command comes to its end if the files can be read, every datum comes to an outcome and the
report can be written. -/
lemma exists_run_report (hload : Document.loadPattern files patternPath = .ok literal)
    (hcompile : literal.compile = .ok matcher)
    (hinputs : Document.readInputs files dataPath = .ok inputs)
    (houtcomes : inputs.mapM (matcher.outcome { maxDepth }) = .ok outcomes)
    (hwrite : writeReport files format out outcomes = pure output) :
    ∃ more, (perform files (.report patternPath dataPath format maxDepth out)).run.run [] =
      (.ok (reportStatus outcomes, output), more) := by
  obtain ⟨more, hmatcher⟩ := exists_run_loadMatcher hload hcompile
  obtain ⟨more', hmapM⟩ := exists_run_mapM exists_run_matchLogged houtcomes more
  refine ⟨more', ?_⟩
  change (loadMatcher files patternPath >>= _).run.run [] = _
  rw [run_bind_of_ok hmatcher, requirePath, pure_bind, hinputs, attempt, pure_bind,
    run_bind_of_ok hmapM, requirePath, pure_bind, hwrite, pure_bind]
  rfl

variable (files patternPath dataPath) in
/-- What is wrong with the files keeps the command from its end: the pattern cannot be read or does
not compile, or the data cannot be read. -/
inductive Stops : Fault → Prop
  | pattern {e : DocumentError} (h : Document.loadPattern files patternPath = .error e) :
    Stops (.document e)
  | compile {literal : Value} {e : LiteralError}
    (hload : Document.loadPattern files patternPath = .ok literal)
    (h : literal.compile = .error e) : Stops (.literal e)
  | data {literal : Value} {matcher : Matcher} {e : DocumentError}
    (hload : Document.loadPattern files patternPath = .ok literal)
    (hcompile : literal.compile = .ok matcher)
    (h : Document.readInputs files dataPath = .error e) : Stops (.document e)

/-- What is wrong with the files is found whatever can be written. -/
lemma Stops.exists_run {fault : Fault} (h : Stops files patternPath dataPath fault)
    (format : Format) (ceiling : Option Int) (out : Option Text) :
    ∃ more, ∀ writable,
      (perform { files with writable }
          (.report patternPath dataPath format ceiling out)).run.run [] =
        (.error fault, more) := by
  cases h with
  | pattern hload =>
    exact ⟨[], fun writable => perform_of_throw rfl (loadMatcher_of_error hload)⟩
  | @compile literal e hload hcompile =>
    have hmatcher : loadMatcher files patternPath = throw (.literal e) := by
      rw [loadMatcher, hload, attempt, pure_bind, hcompile]
      rfl
    exact ⟨[], fun writable => perform_of_throw rfl hmatcher⟩
  | @data literal matcher e hload hcompile hinputs =>
    obtain ⟨more, hmatcher⟩ := exists_run_loadMatcher hload hcompile
    refine ⟨more, fun writable => ?_⟩
    have hinputs' : Document.readInputs { files with writable } dataPath = .error e := hinputs
    change (loadMatcher files patternPath >>= _).run.run [] = _
    rw [run_bind_of_ok hmatcher, requirePath, pure_bind, hinputs']
    rfl

end

/-- The command that matches reports on every datum, in their order, if its files can be read and
its report can be written: the status is 0 if all of them match and 1 otherwise, and the report is
all that is written. If something is wrong with the pattern or the data and this is reported, the
status is 2, and nothing is written, whatever could be. -/
theorem report_of_inputs {files : Files} {args : List Text} {verbose : Bool}
    {patternPath dataPath out : Text} {format : Format} {maxDepth : Int}
    (hargs : readArguments args =
      .ok ⟨verbose, .report patternPath dataPath format maxDepth out⟩) :
    (∀ literal matcher inputs, Document.loadPattern files patternPath = .ok literal →
      literal.compile = .ok matcher → Document.readInputs files dataPath = .ok inputs →
      (∀ name ∈ matcher.variables, name.Sound) →
      (out = Output.stdoutPath ∨ files.writable out = .ok ()) →
      ∃ outcomes text output stderr,
        inputs.mapM (matcher.outcome { maxDepth }) = .ok outcomes ∧
        Reports format outcomes text ∧ Output.Holds text out output ∧
        run files args =
          .finished (if ∀ outcome ∈ outcomes, outcome.matched then 0 else 1) output stderr) ∧
      ∀ fault message, Stops files patternPath dataPath fault → fault.message? = some message →
        ∃ logged : Text, ∀ writable, run { files with writable } args = .finished 2 {}
          (logged ++ (Text.ofString "structmatch: " ++ message ++ [.char '\n'])) := by
  refine ⟨fun literal matcher inputs hload hcompile hinputs hvariables hout => ?_,
    fun fault message hstops hmessage => ?_⟩
  · -- nothing that is read from a file has a matcher in it, so only the pattern's own are searched
    have hbuilt := Document.builtFrom_of_loadPattern hload hcompile
    have hinert (datum : Value) (hdatum : datum ∈ inputs) : datum.Inert :=
      (Document.decoded_of_readInputs hinputs datum hdatum).inert
    have houtcome (datum : Value) (hdatum : datum ∈ inputs) :
        ∃ outcome, matcher.outcome { maxDepth } datum = .ok outcome :=
      Matcher.exists_outcome_of_builtFrom hbuilt ((hinert datum hdatum).concrete maxDepth)
    obtain ⟨outcomes, houtcomes⟩ := exists_mapM_eq_ok houtcome
    have hnames (outcome : Outcome) (hmem : outcome ∈ outcomes) : outcome.NamesSound := by
      obtain ⟨datum, hdatum, houtcome⟩ := exists_of_mem_of_mapM_eq_ok houtcomes hmem
      exact Outcome.namesSound_of_variables (hinert datum hdatum) hvariables houtcome
    obtain ⟨text, output, hwrite, hreports, hholds⟩ := exists_writeReport format hnames hout
    obtain ⟨more, hrun⟩ := exists_run_report hload hcompile hinputs houtcomes hwrite
    obtain ⟨stderr, hend⟩ := run_of_ok hargs hrun
    refine ⟨outcomes, text, output, stderr, houtcomes, hreports, hholds, ?_⟩
    rw [hend, reportStatus]
    simp only [List.all_eq_true]
  · obtain ⟨more, hrun⟩ := hstops.exists_run format maxDepth out
    exact ⟨_, fun writable => run_of_message hargs hmessage (hrun writable)⟩

lemma readArguments_match :
    readArguments ["match", "--pattern", "p", "--data", "d.jsonl", "--out", "r"] =
      .ok ⟨false, .report (some "p") (some "d.jsonl") .text (some Environment.defaultMaxDepth)
        (some "r")⟩ := by
  cbv

/-- Of two documents one is a string and the other is not. Where the second cannot be read, nothing
is written. -/
theorem report_of_inputs_strings :
    let pattern : String := "\x7b\"var\": \"x\", \"where\": \"string\"\x7d"
    let files (data : String) : Files :=
      ⟨fun path => .ok (if path = "p" then pattern else data), fun _ => .ok ()⟩
    let args : List Text := ["match", "--pattern", "p", "--data", "d.jsonl", "--out", "r"]
    let matcher : Matcher := .element "x" (some .string)
    (∃ outcomes text output stderr,
        [Value.str "a", .bool true].mapM (matcher.outcome {}) = .ok outcomes ∧
        Reports .text outcomes text ∧ Output.Holds text "r" output ∧
        run (files "\"a\"\ntrue") args = .finished 1 output stderr) ∧
      ∃ logged : Text, ∀ writable, run { files "\"a\"\n\"" with writable } args = .finished 2 {}
        (logged ++ (Text.ofString "structmatch: " ++ Text.ofString "<JSON error>" ++
          [.char '\n'])) := by
  intro pattern files args matcher
  have hload (data : String) :
      Document.loadPattern (files data) "p" = .ok (.matcher matcher) := by
    dsimp only [files, pattern, matcher]
    cbv
  have hcompile : (Value.matcher matcher).compile = .ok matcher := by
    rw [Value.compile]
  have hinputs : Document.readInputs (files "\"a\"\ntrue") "d.jsonl" =
      .ok [.str "a", .bool true] := by
    dsimp only [files]
    cbv
  have hbad : Document.readInputs (files "\"a\"\n\"") "d.jsonl" =
      .error (.json .malformed) := by
    dsimp only [files]
    cbv
  have hnames : ∀ name ∈ matcher.variables, name.Sound := by
    intro name hname
    cases List.mem_singleton.mp hname
    exact Text.sound_ofString "x"
  constructor
  · obtain ⟨outcomes, text, output, stderr, houtcomes, hreports, hholds, hrun⟩ :=
      (report_of_inputs readArguments_match).1 _ _ _ (hload _) hcompile hinputs hnames (.inr rfl)
    refine ⟨outcomes, text, output, stderr, houtcomes, hreports, hholds, ?_⟩
    have hmatched : List.map Outcome.matched <$> [Value.str "a", .bool true].mapM
        (matcher.outcome {}) = .ok [true, false] := by
      dsimp only [matcher]
      cbv
    have hone : outcomes.map Outcome.matched = [true, false] :=
      Except.ok.inj ((congrArg _ houtcomes).symm.trans hmatched)
    obtain ⟨outcome, hmem, hfalse⟩ : ∃ outcome ∈ outcomes, outcome.matched = false :=
      List.mem_map.mp (hone ▸ by simp)
    rw [hrun, if_neg fun hall => by simp [hall outcome hmem] at hfalse]
  · exact (report_of_inputs readArguments_match).2 _ _ (.data (hload _) hcompile hbad) rfl

end CommandLine

end Motif
