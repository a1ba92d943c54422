import Typings.Proofs.Brackets.Output
import Typings.Proofs.Cli.Arguments
import Typings.Proofs.Filled.Outputs

/-!
# What runs leave behind

A run that succeeds hands over one text in one place: the usage text, or the rendering of its source. Any
other run prints nothing on the standard output. It changes no file, but for one case: what it renders has a
surrogate in it, and the output file has been opened before this shows (`run_leaves`).

Runs crash over a number for the indentation that is written in digits and is none, a path that no file can
have, and a rendering with a surrogate in it. All others end with a code, and a bad value is refused
(`run_ends_iff`).
-/

namespace Typings

namespace Cli

/-! ## Runs with options -/

/-- The run ends with the code, prints no more than why, and writes no file. -/
structure Outcome.Fails (outcome : Outcome) (code : Nat) : Prop where
  ending : outcome.ending = .exit code
  stdout : outcome.stdout = ""
  stderr : outcome.stderr ≠ ""
  written : outcome.written = none

/-- The run succeeds, and the text goes to the file if there is one, and else to the standard output. -/
structure Outcome.HandsOver (outcome : Outcome) (text : String) (output : Option String) : Prop where
  ending : outcome.ending = .exit 0
  stdout : outcome.stdout = if output.isNone then text else ""
  written : outcome.written = output.map fun path => (path, text)

/-- The run crashes, and leaves nothing behind but a file that it has emptied, if there is one. -/
structure Outcome.Breaks (outcome : Outcome) (emptied : Option String) : Prop where
  ending : ∃ crash, outcome.ending = .crash crash
  stdout : outcome.stdout = ""
  written : outcome.written = emptied.map fun path => (path, "")

/-- What crashes has no exit code. -/
theorem Outcome.Breaks.ending_ne {outcome : Outcome} {emptied : Option String}
    (breaks : outcome.Breaks emptied) (code : Nat) : outcome.ending ≠ .exit code := by
  obtain ⟨crash, ending⟩ := breaks.ending
  rw [ending]
  intro same
  cases same

namespace Options

/-- With the options, the mapping files and the source can be read, and the source is rendered as the text,
whatever characters are filled in for surrogates. -/
def Renders (o : Options) (world : World) (text : CodePoints) : Prop :=
  ∃ table source noted, readAllMappings world o.mappingFiles = .ok table ∧
    sourceText world o.inputFile = .ok source ∧
    ∀ standIn, Rendering.ofSource (o.config table standIn) source = .ok ⟨text.fill standIn, noted⟩

/-- Why a run with the options crashes, and which file it has emptied by then. -/
inductive Crashes (o : Options) (world : World) : Option String → Prop where
  | nullInInput {table : Table} {path : String} : readAllMappings world o.mappingFiles = .ok table →
      o.inputFile = some path → hasNull path = true → Crashes o world none
  | nullInOutput {text : CodePoints} {path : String} : o.Renders world text → o.output = some path →
      hasNull path = true → Crashes o world none
  | notPrinted {text : CodePoints} {s : Surrogate} : o.Renders world text → .surrogate s ∈ text →
      o.output = none → Crashes o world none
  | notWritten {text : CodePoints} {s : Surrogate} {path : String} : o.Renders world text →
      .surrogate s ∈ text → o.output = some path → hasNull path = false →
      world.writable path = true → Crashes o world (some path)

end Options

theorem reportLine_ne (text : String) : reportLine text ≠ "" := by
  simp [reportLine]

theorem prepare_eq_ok {world : World} {o : Options} {table : Table} {file : File} :
    prepare world o = .ok (table, file) ↔
      ∃ source, readAllMappings world o.mappingFiles = .ok table ∧
        sourceText world o.inputFile = .ok source ∧ File.parse source = .ok file := by
  constructor
  · intro h
    obtain ⟨t, files, h⟩ := exists_ok_of_bind h
    obtain ⟨source, input, h⟩ := exists_ok_of_bind h
    obtain ⟨f, parsed, same⟩ := exists_ok_of_bind h
    cases same
    exact ⟨source, ok_of_mapError files, input, ok_of_mapError parsed⟩
  · rintro ⟨source, files, input, parsed⟩
    rw [prepare, files]
    simp [bind, Except.bind, Except.mapError, input, parsed]

theorem sourceText_eq_crashed {world : World} {input : Option String} {crash : Crash} :
    sourceText world input = .error (.crashed crash) ↔
      crash = .nullInPath ∧ ∃ path, input = some path ∧ hasNull path = true := by
  have decoded : ∀ bytes, sourceBytes world input = .ok bytes →
      sourceText world input ≠ .error (.crashed crash) := by
    intro bytes found
    rw [sourceText, found]
    cases text : Text.decodeUtf8 bytes with
    | ok cs => simp [bind, Except.bind, text]
    | error fault => simp [bind, Except.bind, text]
  have stopped : ∀ stop, sourceBytes world input = .error stop →
      sourceText world input = .error stop := by
    intro stop failed
    rw [sourceText, failed]
    rfl
  cases input with
  | none => exact iff_of_false (decoded _ rfl) fun ⟨_, _, same, _⟩ => Option.some_ne_none _ same.symm
  | some path =>
    cases null : hasNull path with
    | true =>
      have crashed := stopped (.crashed .nullInPath) (if_pos null)
      rw [crashed]
      exact ⟨fun same => ⟨by cases same; rfl, path, rfl, null⟩, fun ⟨same, _⟩ => same ▸ rfl⟩
    | false =>
      refine iff_of_false ?_ fun ⟨_, other, same, isNull⟩ => ?_
      · cases found : world.read path with
        | some bytes => exact decoded bytes (by simp [sourceBytes, null, found])
        | none =>
          rw [stopped (.failed (.cannotOpenInput path)) (by simp [sourceBytes, null, found])]
          exact fun same => by cases same
      · cases same
        exact Bool.false_ne_true (null.symm.trans isNull)

/-- Before anything is rendered, a run crashes over the path of the source only. -/
theorem prepare_eq_crashed {world : World} {o : Options} {crash : Crash} :
    prepare world o = .error (.crashed crash) ↔ crash = .nullInPath ∧
      ∃ table path, readAllMappings world o.mappingFiles = .ok table ∧ o.inputFile = some path ∧
        hasNull path = true := by
  cases files : readAllMappings world o.mappingFiles with
  | error failure =>
    have failed : prepare world o = .error (.failed failure) := by
      rw [prepare, files]
      rfl
    rw [failed]
    exact iff_of_false (fun same => by cases same) fun ⟨_, _, _, same, _⟩ => by cases same
  | ok table =>
    have crashes : sourceText world o.inputFile = .error (.crashed crash) ↔ _ := sourceText_eq_crashed
    have same : prepare world o = .error (.crashed crash) ↔
        sourceText world o.inputFile = .error (.crashed crash) := by
      cases input : sourceText world o.inputFile with
      | error stop =>
        have stopped : prepare world o = .error stop := by
          rw [prepare, files, input]
          rfl
        rw [stopped, Except.error.injEq, Except.error.injEq]
      | ok source =>
        refine iff_of_false (fun crashed => ?_) fun crashed => by cases crashed
        cases parsed : File.parse source <;>
          simp [prepare, files, input, parsed, bind, Except.bind, Except.mapError] at crashed
    rw [same, crashes]
    exact ⟨fun ⟨null, path, input, isNull⟩ => ⟨null, table, path, rfl, input, isNull⟩,
      fun ⟨null, _, path, _, input, isNull⟩ => ⟨null, path, input, isNull⟩⟩

section

variable {world : World} {o : Options} {table : Table} {file : File} {text : CodePoints}

/-- A run whose files are read delivers what it renders. -/
theorem Options.run_of_prepared (prepared : prepare world o = .ok (table, file)) :
    ∃ noted, (∀ standIn, Rendering.ofDecls (o.config table standIn) file.decls =
        .ok ⟨(o.outputText table file).fill standIn, noted⟩) ∧
      o.run world = deliver world o (o.outputText table file)
        (reportText noted (Decl.introduced file.decls)) := by
  obtain ⟨source, -, -, parsed⟩ := prepare_eq_ok.1 prepared
  obtain ⟨noted, rendered⟩ := o.exists_rendered table parsed
  refine ⟨noted, rendered, ?_⟩
  rw [Options.run, prepared]
  dsimp only
  rw [rendered]

theorem Options.renders_of_prepared (prepared : prepare world o = .ok (table, file)) :
    o.Renders world (o.outputText table file) := by
  obtain ⟨source, files, input, parsed⟩ := prepare_eq_ok.1 prepared
  obtain ⟨noted, rendered⟩ := o.exists_rendered table parsed
  exact ⟨table, source, noted, files, input, fun standIn =>
    Rendering.ofSource_eq_ok parsed (rendered standIn)⟩

/-- What is rendered is what the run delivers. -/
theorem Options.Renders.run_eq (renders : o.Renders world text) :
    ∃ reported, o.run world = deliver world o text reported := by
  obtain ⟨table, source, noted, files, input, rendered⟩ := renders
  cases parsed : File.parse source with
  | error e =>
    have refused := rendered CodePoints.plainly
    rw [Rendering.ofSource, parsed] at refused
    cases refused
  | ok file =>
    obtain ⟨noted', rendered', run⟩ :=
      Options.run_of_prepared (prepare_eq_ok.2 ⟨source, files, input, parsed⟩)
    have same : o.outputText table file = text := CodePoints.eq_of_fill fun standIn => by
      have both := (Rendering.ofSource_eq_ok parsed (rendered' standIn)).symm.trans (rendered standIn)
      exact congrArg Rendering.text (Except.ok.inj both)
    exact ⟨_, same ▸ run⟩

/-- What becomes of a text that is rendered. -/
theorem deliver_leaves (renders : o.Renders world text) (reported : String) :
    (deliver world o text reported).Fails 1 ∨
      (∃ s, text = .ofString s ∧ (deliver world o text reported).HandsOver s o.output) ∨
      ∃ emptied, o.Crashes world emptied ∧ (deliver world o text reported).Breaks emptied := by
  unfold deliver
  cases output : o.output with
  | none =>
    cases encoded : text.encode with
    | ok s => exact .inr (.inl ⟨s, CodePoints.encode_eq_ok_iff.1 encoded, rfl, rfl, rfl⟩)
    | error fault =>
      obtain ⟨s, mem⟩ := CodePoints.exists_encode_eq_error_iff.1 ⟨fault, encoded⟩
      exact .inr (.inr ⟨none, .notPrinted renders mem output, ⟨_, rfl⟩, rfl, rfl⟩)
  | some path =>
    dsimp only
    split
    · next null => exact .inr (.inr ⟨none, .nullInOutput renders output null, ⟨_, rfl⟩, rfl, rfl⟩)
    · next plain =>
      split
      · exact .inl ⟨rfl, rfl, by simp [reportLine], rfl⟩
      · next opened =>
        cases encoded : text.encode with
        | ok s => exact .inr (.inl ⟨s, CodePoints.encode_eq_ok_iff.1 encoded, rfl, rfl, rfl⟩)
        | error fault =>
          obtain ⟨s, mem⟩ := CodePoints.exists_encode_eq_error_iff.1 ⟨fault, encoded⟩
          have crashes : o.Crashes world (some path) := .notWritten renders mem output
            (Bool.eq_false_iff.2 plain) (by simpa using opened)
          exact .inr (.inr ⟨some path, crashes, ⟨_, rfl⟩, rfl, rfl⟩)

/-- A run with options fails, hands over what it renders, or crashes. -/
theorem Options.run_cases (o : Options) (world : World) : (o.run world).Fails 1 ∨
    (∃ s, o.Renders world (.ofString s) ∧ (o.run world).HandsOver s o.output) ∨
    ∃ emptied, o.Crashes world emptied ∧ (o.run world).Breaks emptied := by
  cases prepared : prepare world o with
  | ok both =>
    obtain ⟨table, file⟩ := both
    obtain ⟨noted, -, run⟩ := Options.run_of_prepared prepared
    have renders := Options.renders_of_prepared prepared
    rw [run]
    refine (deliver_leaves renders _).imp_right (Or.imp_left ?_)
    rintro ⟨s, same, handed⟩
    exact ⟨s, same ▸ renders, handed⟩
  | error stop =>
    have stopped : o.run world = stop.outcome := by
      rw [Options.run, prepared]
    rw [stopped]
    cases stop with
    | failed failure => exact .inl ⟨rfl, rfl, reportLine_ne _, rfl⟩
    | crashed crash =>
      obtain ⟨-, table, path, files, input, null⟩ := prepare_eq_crashed.1 prepared
      exact .inr (.inr ⟨none, .nullInInput files input null, ⟨_, rfl⟩, rfl, rfl⟩)

end

/-- A run that the options make crash does. -/
theorem Options.Crashes.breaks {o : Options} {world : World} {emptied : Option String}
    (crashes : o.Crashes world emptied) : (o.run world).Breaks emptied := by
  have unencoded : ∀ {text : CodePoints} {s : Surrogate}, .surrogate s ∈ text →
      ∃ fault, text.encode = .error fault := fun mem =>
    CodePoints.exists_encode_eq_error_iff.2 ⟨_, mem⟩
  cases crashes with
  | nullInInput files input null =>
    have stopped := prepare_eq_crashed.2 ⟨rfl, _, _, files, input, null⟩
    rw [Options.run, stopped]
    exact ⟨⟨_, rfl⟩, rfl, rfl⟩
  | nullInOutput renders output null =>
    obtain ⟨reported, run⟩ := renders.run_eq
    rw [run, deliver, output]
    dsimp only
    rw [if_pos null]
    exact ⟨⟨_, rfl⟩, rfl, rfl⟩
  | notPrinted renders mem output =>
    obtain ⟨reported, run⟩ := renders.run_eq
    obtain ⟨fault, encoded⟩ := unencoded mem
    rw [run, deliver, output]
    dsimp only
    rw [encoded]
    exact ⟨⟨_, rfl⟩, rfl, rfl⟩
  | notWritten renders mem output plain opened =>
    obtain ⟨reported, run⟩ := renders.run_eq
    obtain ⟨fault, encoded⟩ := unencoded mem
    rw [run, deliver, output]
    dsimp only
    rw [if_neg (Bool.eq_false_iff.1 plain), if_neg (by simp [opened]), encoded]
    exact ⟨⟨_, rfl⟩, rfl, rfl⟩

/-! ## Bad values -/

/-- Arguments that are settings, with one file to read the source from at the most. -/
structure Asks (memory : Nat) (args : List String) (settings : List Setting) : Prop where
  spells : Spells memory settings args
  one : (inputsOf settings).length ≤ 1

/-- Behind settings there is a flag with a value that it does not take. -/
structure BadValue (memory : Nat) (args : List String) (flag : Flag) (text : String) : Prop where
  behind : ∃ settings spelled argument rest, Asks memory spelled settings ∧
    Flag.ofText? argument = some flag ∧ args = spelled ++ argument :: text :: rest
  refused : ¬flag.Takes memory text

section

variable {memory : Nat} {args : List String} {flag : Flag} {text : String}

/-- A bad value of digits for the indentation cannot be read. -/
theorem BadValue.crashes (bad : BadValue memory args .indent text) (digits : isDigits text = true) :
    ∃ crash, Command.ofArgs memory args = .error crash := by
  obtain ⟨⟨settings, spelled, argument, rest, ⟨spells, one⟩, word, rfl⟩, refused⟩ := bad
  obtain ⟨crash, crashes⟩ := Options.set_crashes (.ofSettings memory settings) refused digits
  exact ⟨crash, (Command.ofArgsAfter_append spells [] _ one).trans
    (Command.ofArgsAfter_crashed word crashes)⟩

/-- Any other bad value is refused. -/
theorem BadValue.refuses (bad : BadValue memory args flag text)
    (other : ¬(flag = .indent ∧ isDigits text = true)) :
    ∃ e, Command.ofArgs memory args = .ok (.refuse e) := by
  obtain ⟨⟨settings, spelled, argument, rest, ⟨spells, one⟩, word, rfl⟩, refused⟩ := bad
  obtain ⟨e, refuses⟩ := Options.set_refuses (.ofSettings memory settings) refused other
  exact ⟨e, (Command.ofArgsAfter_append spells [] _ one).trans
    (Command.ofArgsAfter_refused word refuses)⟩

end

/-! ## Runs with arguments -/

section

variable {world : World} {args : List String}

theorem Asks.run_eq {settings : List Setting} (asks : Asks world.memory args settings) :
    run world args = (Options.ofSettings world.memory settings).run world := by
  have read : Command.ofArgs world.memory args = .ok (.run (.ofSettings world.memory settings)) := by
    have all := Command.ofArgsAfter_append asks.spells [] [] asks.one
    rwa [List.append_nil] at all
  rw [run, read]

theorem Asks.breaks {settings : List Setting} {emptied : Option String}
    (asks : Asks world.memory args settings)
    (crashes : (Options.ofSettings world.memory settings).Crashes world emptied) :
    (run world args).Breaks emptied :=
  asks.run_eq ▸ crashes.breaks

theorem run_of_crash {crash : Crash} (crashes : Command.ofArgs world.memory args = .error crash) :
    run world args = { ending := .crash crash } := by
  rw [run, crashes]

theorem run_of_refuse {e : UsageError} (refuses : Command.ofArgs world.memory args = .ok (.refuse e)) :
    run world args = { ending := .exit 2, stderr := reportLine e.message } := by
  rw [run, refuses]

end

/-- The usage text is asked for behind settings, and printed. -/
def Outcome.ShowsUsage (outcome : Outcome) (world : World) (args : List String) : Prop :=
  (∃ settings spelled argument rest, Asks world.memory spelled settings ∧
    (argument = "--help" ∨ argument = "-h") ∧ args = spelled ++ argument :: rest) ∧
  outcome.HandsOver usage none

/-- The arguments are settings, and what the source is rendered as with these is handed over. -/
def Outcome.Translates (outcome : Outcome) (world : World) (args : List String) : Prop :=
  ∃ settings text, Asks world.memory args settings ∧
    (Options.ofSettings world.memory settings).Renders world (.ofString text) ∧
    outcome.HandsOver text (lastValue? .output settings)

theorem Outcome.Translates.ending {outcome : Outcome} {world : World} {args : List String}
    (translates : outcome.Translates world args) : outcome.ending = .exit 0 := by
  obtain ⟨settings, text, -, -, handed⟩ := translates
  exact handed.ending

/-- How a run ends, and why. -/
inductive Ends (world : World) (args : List String) (outcome : Outcome) : Prop where
  | badDigits {text : String} : BadValue world.memory args .indent text → isDigits text = true →
      outcome.Breaks none → Ends world args outcome
  | refused : outcome.Fails 2 → Ends world args outcome
  | failed : outcome.Fails 1 → Ends world args outcome
  | usage : outcome.ShowsUsage world args → Ends world args outcome
  | translated : outcome.Translates world args → Ends world args outcome
  | crashed {settings : List Setting} {emptied : Option String} : Asks world.memory args settings →
      (Options.ofSettings world.memory settings).Crashes world emptied → outcome.Breaks emptied →
      Ends world args outcome

/-- Every run ends in one of these ways. -/
theorem run_ends (world : World) (args : List String) : Ends world args (run world args) := by
  obtain ⟨settings, spelled, rest, args_eq, spells, one, stops⟩ :=
    Command.exists_readsTo world.memory args [] (Nat.zero_le 1)
  rw [List.nil_append] at one stops
  have asks : Asks world.memory spelled settings := ⟨spells, one⟩
  have refusal : ∀ e, Command.ofArgs world.memory args = .ok (.refuse e) →
      Ends world args (run world args) := fun e refuses => by
    rw [run_of_refuse refuses]
    exact .refused ⟨rfl, rfl, reportLine_ne _, rfl⟩
  generalize read : Command.ofArgsAfter world.memory (.ofSettings world.memory []) args = result at stops
  cases stops with
  | done =>
    obtain rfl : args = spelled := args_eq.trans (List.append_nil _)
    rw [asks.run_eq]
    rcases Options.run_cases (.ofSettings world.memory settings) world with
      failed | ⟨text, renders, handed⟩ | ⟨emptied, crashes, breaks⟩
    · exact .failed failed
    · exact .translated ⟨settings, text, asks, renders, handed⟩
    · exact .crashed asks crashes breaks
  | help word =>
    have shown : run world args = { ending := .exit 0, stdout := usage } := by
      rw [run, show Command.ofArgs world.memory args = _ from read]
    rw [shown]
    exact .usage ⟨⟨settings, spelled, _, _, asks, word, args_eq⟩, rfl, rfl, rfl⟩
  | crashed word digits refused =>
    rw [run_of_crash read]
    exact .badDigits ⟨⟨settings, spelled, _, _, asks, word, args_eq⟩, refused⟩ digits
      ⟨⟨_, rfl⟩, rfl, rfl⟩
  | noValue | refused | noFlag | secondInput => exact refusal _ read

/-- The output file has been emptied when it shows that what is rendered has a surrogate in it. -/
def EmptiesFile (world : World) (args : List String) (path : String) : Prop :=
  ∃ settings, Asks world.memory args settings ∧
    (Options.ofSettings world.memory settings).Crashes world (some path)

section

variable {world : World} {args : List String} {outcome : Outcome}

theorem Ends.of_success (ends : Ends world args outcome) (success : outcome.ending = .exit 0) :
    outcome.ShowsUsage world args ∨ outcome.Translates world args := by
  have unfailed : ∀ code, code ≠ 0 → ¬outcome.Fails code := fun code other failed =>
    other (Ending.exit.inj (failed.ending.symm.trans success))
  cases ends with
  | badDigits _ _ breaks | crashed _ _ breaks => exact absurd success (breaks.ending_ne 0)
  | refused failed | failed failed => exact absurd failed (unfailed _ (by decide))
  | usage shown => exact .inl shown
  | translated handed => exact .inr handed

theorem Ends.of_failure (ends : Ends world args outcome) (failure : outcome.ending ≠ .exit 0) :
    outcome.stdout = "" ∧ ∀ file, outcome.written = some file →
      ∃ path, EmptiesFile world args path ∧ file = (path, "") := by
  have unwritten : outcome.written = none → ∀ file, outcome.written = some file →
      ∃ path, EmptiesFile world args path ∧ file = (path, "") := fun none file some =>
    absurd (none.symm.trans some) (Option.some_ne_none file).symm
  cases ends with
  | badDigits _ _ breaks => exact ⟨breaks.stdout, unwritten breaks.written⟩
  | refused failed | failed failed => exact ⟨failed.stdout, unwritten failed.written⟩
  | usage shown => exact absurd shown.2.ending failure
  | translated handed => exact absurd handed.ending failure
  | @crashed settings emptied asks crashes breaks =>
    refine ⟨breaks.stdout, fun file written => ?_⟩
    rw [breaks.written] at written
    obtain ⟨path, rfl, rfl⟩ := Option.map_eq_some_iff.1 written
    exact ⟨path, ⟨settings, asks, crashes⟩, rfl⟩

end

/-- What runs leave behind. One that ends with the code 0 has printed the usage text that is asked for, or it
has read its source, and the rendering of the source with its settings has gone to the last output file, or to
the standard output if there is none; it has done nothing else. Any other run has printed nothing on the
standard output. It has written a file exactly if it has emptied its output file before what it rendered
turned out to have a surrogate in it, and it leaves the file so. -/
theorem run_leaves (world : World) (args : List String) :
    ((run world args).ending = .exit 0 →
      (run world args).ShowsUsage world args ∨ (run world args).Translates world args) ∧
    ((run world args).ending ≠ .exit 0 → (run world args).stdout = "") ∧
    ∀ file, ((run world args).ending ≠ .exit 0 ∧ (run world args).written = some file) ↔
      ∃ path, EmptiesFile world args path ∧ file = (path, "") := by
  have ends := run_ends world args
  refine ⟨ends.of_success, fun failure => (ends.of_failure failure).1, fun file =>
    ⟨fun ⟨failure, written⟩ => (ends.of_failure failure).2 file written, ?_⟩⟩
  rintro ⟨path, ⟨settings, asks, crashes⟩, rfl⟩
  have breaks := asks.breaks crashes
  exact ⟨breaks.ending_ne 0, breaks.written⟩

/-- A source is written to the last of two output files, with a mapping file that has a surrogate for a name
that the source does not use; and a file that is not there is not read. -/
theorem run_leaves_files :
    let files := [("in", "type A T"), ("m", "\x7b\"U\": \"\\ud800\"\x7d")]
    let world : World := { read := fun path => (files.lookup path).map fun text => text.toUTF8.toList,
                           writable := fun _ => true, stdin := [] }
    let args := ["-o", "a", "--mappings", "m", "--map", "T=number", "in", "--output", "b"]
    ((run world args).written.map Prod.fst = some "b" ∧
      ((run world args).ShowsUsage world args ∨ (run world args).Translates world args)) ∧
    (run world ["none", "-o", "a"]).stdout = "" ∧ (run world ["none", "-o", "a"]).written = none := by
  intro files world args
  have success : (run world args).ending = .exit 0 ∧
      (run world args).written.map Prod.fst = some "b" := by
    decide +kernel
  have failure : (run world ["none", "-o", "a"]).ending = .exit 1 ∧
      (run world ["none", "-o", "a"]).written = none := by
    decide +kernel
  refine ⟨⟨success.2, (run_leaves world args).1 success.1⟩, (run_leaves world _).2.1 ?_, failure.2⟩
  rw [failure.1]
  decide

/-- A run that would write a surrogate crashes, and its output file is empty then. -/
theorem run_empties_file :
    let world : World := { read := fun path =>
                             [("m", "\x7b\"T\": \"\\ud800\"\x7d".toUTF8.toList)].lookup path,
                           writable := fun _ => true, stdin := "type A T".toUTF8.toList }
    run world ["--mappings", "m", "-o", "out"] =
      { ending := .crash (.notEncoded ⟨70, ⟨0xd800, by decide⟩, 1⟩), written := some ("out", "") } := by
  decide +kernel

/-- When runs come to their end. A run ends with the code 0, 1 or 2, and with 2 and a message if there is a
bad value, exactly if no bad value for the indentation is made of digits, and the settings make nothing
crash: no path has a null character in it that is to be opened, and no surrogate is to be written out. -/
theorem run_ends_iff (world : World) (args : List String) :
    ((∃ code ≤ 2, (run world args).ending = .exit code) ∧
      ∀ flag text, BadValue world.memory args flag text →
        (run world args).ending = .exit 2 ∧ (run world args).stderr ≠ "") ↔
    (¬∃ text, BadValue world.memory args .indent text ∧ isDigits text = true) ∧
      ¬∃ settings emptied, Asks world.memory args settings ∧
        (Options.ofSettings world.memory settings).Crashes world emptied := by
  constructor
  · rintro ⟨⟨code, -, ending⟩, -⟩
    constructor
    · rintro ⟨text, bad, digits⟩
      obtain ⟨crash, crashes⟩ := bad.crashes digits
      rw [run_of_crash crashes] at ending
      cases ending
    · rintro ⟨settings, emptied, asks, crashes⟩
      exact (asks.breaks crashes).ending_ne code ending
  · rintro ⟨readable, sound⟩
    constructor
    · cases run_ends world args with
      | badDigits bad digits => exact absurd ⟨_, bad, digits⟩ readable
      | crashed asks crashes => exact absurd ⟨_, _, asks, crashes⟩ sound
      | refused failed => exact ⟨2, by decide, failed.ending⟩
      | failed failed => exact ⟨1, by decide, failed.ending⟩
      | usage shown => exact ⟨0, by decide, shown.2.ending⟩
      | translated handed => exact ⟨0, by decide, handed.ending⟩
    · intro flag text bad
      obtain ⟨e, refuses⟩ := bad.refuses fun digits => readable ⟨text, digits.1 ▸ bad, digits.2⟩
      rw [run_of_refuse refuses]
      exact ⟨rfl, reportLine_ne _⟩

/-- A name is no number, and it is refused as one. -/
theorem run_ends_iff_name :
    let world : World := { read := fun _ => none, writable := fun _ => true, stdin := [] }
    let args := ["-o", "a", "--indent", "x"]
    BadValue world.memory args .indent "x" ∧ (run world args).ending = .exit 2 ∧
      (run world args).stderr ≠ "" := by
  intro world args
  have letters : isDigits "x" = false := by decide +kernel
  have bad : BadValue world.memory args .indent "x" := by
    refine ⟨⟨[.value .output "a"], ["-o", "a"], "--indent", [], ⟨.value rfl trivial .nil, ?_⟩, rfl, rfl⟩,
      fun takes => ?_⟩
    · decide
    · exact Bool.false_ne_true (letters.symm.trans (isDigits_of_takes takes))
  obtain ⟨e, refuses⟩ := bad.refuses fun digits => Bool.false_ne_true (letters.symm.trans digits.2)
  have readable : ¬∃ text, BadValue world.memory args .indent text ∧ isDigits text = true := by
    rintro ⟨text, other, digits⟩
    obtain ⟨crash, crashes⟩ := other.crashes digits
    rw [refuses] at crashes
    cases crashes
  have sound : ¬∃ settings emptied, Asks world.memory args settings ∧
      (Options.ofSettings world.memory settings).Crashes world emptied := by
    rintro ⟨settings, emptied, asks, crashes⟩
    refine (asks.breaks crashes).ending_ne 2 ?_
    rw [run_of_refuse refuses]
  exact ⟨bad, ((run_ends_iff world args).2 ⟨readable, sound⟩).2 .indent "x" bad⟩

/-- A superscript two is a digit, but no number is read from it. -/
theorem run_crashes_superscript :
    BadValue lengthLimit ["--indent", "²"] .indent "²" ∧
    run { read := fun _ => none, writable := fun _ => false, stdin := [] } ["--indent", "²"] =
      { ending := .crash (.badNumber "²" .notDecimal) } := by
  have unread : readWidth lengthLimit "²" = .error (.badNumber "²" .notDecimal) := rfl
  have digits : isDigits "²" = true := by decide +kernel
  constructor
  · refine ⟨⟨[], [], "--indent", [], ⟨.nil, by decide⟩, rfl, rfl⟩, fun takes => ?_⟩
    obtain ⟨-, width, read⟩ := takes_indent_iff.1 takes
    rw [unread] at read
    cases read
  · have crashes : ({} : Options).set lengthLimit "²" .indent =
        .error (.badNumber "²" .notDecimal) := by
      rw [Options.set_indent, if_pos digits, unread]
      rfl
    exact run_of_crash (Command.ofArgsAfter_crashed rfl crashes)

end Cli

end Typings
