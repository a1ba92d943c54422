import Typings.Cli.Options

/-!
# What arguments ask for

Arguments spell settings, one after another: a flag with its value, or a file to read the source from
(`Spells`). Of what they ask for, the last value for a flag counts, and all mappings do
(`Options.ofSettings`). Arguments that are settings to their end, with one file at the most, make a run
with these options; any others end the reading at the first that is no setting
(`Command.exists_readsTo`).
-/

namespace Typings.Cli

/-! ## Settings -/

/-- One thing that arguments ask for: a value for a flag, or a file to read the source from. -/
inductive Setting where
  | value (flag : Flag) (text : String)
  | input (path : String)
  deriving DecidableEq, Repr

/-- The argument names a file to read the source from: it is no flag and no word for the usage text, and
it does not begin as a flag does, unless it stands for the standard input. -/
structure IsInput (argument : String) : Prop where
  not_help : argument ≠ "--help" ∧ argument ≠ "-h"
  not_flag : Flag.ofText? argument = none
  undashed : argument.toList.head? = some '-' → argument = "-"

/-- The value is one that the flag takes: a name that is not empty, an equals sign and a text for a
mapping; a number for the indentation, in decimal digits of any script and no larger than can be counted and
than `memory` holds; the name of a style. -/
def Flag.Takes (memory : Nat) : Flag → String → Prop
  | .map, value => ∃ name text, name ≠ [] ∧ '=' ∉ name ∧ value.toList = name ++ '=' :: text
  | .indent, value => ∃ digits : List Nat, digits ≠ [] ∧
      value.toList.map Unicode.decimalValue? = digits.map some ∧ digits.length ≤ Text.digitLimit ∧
      Text.ofDigits digits ≤ lengthLimit ∧ Text.ofDigits digits ≤ memory
  | .fieldNames, value | .methodNames, value => value = "keep" ∨ value = "camel"
  | .mappings, _ | .startModifier, _ | .heading, _ | .output, _ => True

/-- The arguments are the settings as they are written, and each flag takes its value. -/
inductive Spells (memory : Nat) : List Setting → List String → Prop where
  | nil : Spells memory [] []
  | value {argument text : String} {flag : Flag} {settings : List Setting} {args : List String} :
      Flag.ofText? argument = some flag → flag.Takes memory text → Spells memory settings args →
      Spells memory (.value flag text :: settings) (argument :: text :: args)
  | input {path : String} {settings : List Setting} {args : List String} : IsInput path →
      Spells memory settings args → Spells memory (.input path :: settings) (path :: args)

/-- The value that a setting has for a flag. -/
def Setting.valueFor? (flag : Flag) : Setting → Option String
  | .value f text => if f = flag then some text else none
  | .input _ => none

/-- The file that a setting asks to read. -/
def Setting.input? : Setting → Option String
  | .value _ _ => none
  | .input path => some path

/-- The values for a flag, in order. -/
def valuesOf (flag : Flag) (settings : List Setting) : List String :=
  settings.filterMap (Setting.valueFor? flag)

/-- The last value for a flag. -/
def lastValue? (flag : Flag) (settings : List Setting) : Option String :=
  (valuesOf flag settings).getLast?

/-- The files to read the source from. -/
def inputsOf (settings : List Setting) : List String := settings.filterMap Setting.input?

/-- What settings come to: the last value for each flag that takes one, or else its default, and all of
the mappings in order. -/
def Options.ofSettings (memory : Nat) (settings : List Setting) : Options where
  input := (inputsOf settings).getLast?
  output := lastValue? .output settings
  mappingFiles := valuesOf .mappings settings
  mapEntries := (valuesOf .map settings).filterMap mapEntry?
  indentWidth := ((lastValue? .indent settings).bind fun text => (readWidth memory text).toOption).getD 2
  startModifier := (lastValue? .startModifier settings).getD ""
  heading := (lastValue? .heading settings).getD ""
  fieldNames := ((lastValue? .fieldNames settings).bind NameStyle.ofText?).getD .keep
  methodNames := ((lastValue? .methodNames settings).bind NameStyle.ofText?).getD .keep

/-! ## One more setting -/

section

variable {settings : List Setting} {flag other : Flag} {text path : String}

theorem valuesOf_concat_self : valuesOf flag (settings ++ [.value flag text]) =
    valuesOf flag settings ++ [text] := by
  simp [valuesOf, Setting.valueFor?]

theorem valuesOf_concat_ne (differ : flag ≠ other) :
    valuesOf other (settings ++ [.value flag text]) = valuesOf other settings := by
  simp [valuesOf, Setting.valueFor?, differ]

theorem valuesOf_concat_input :
    valuesOf flag (settings ++ [.input path]) = valuesOf flag settings := by
  simp [valuesOf, Setting.valueFor?]

theorem inputsOf_concat_value :
    inputsOf (settings ++ [.value flag text]) = inputsOf settings := by
  simp [inputsOf, Setting.input?]

theorem inputsOf_concat_input : inputsOf (settings ++ [.input path]) = inputsOf settings ++ [path] := by
  simp [inputsOf, Setting.input?]

theorem inputsOf_append (before behind : List Setting) :
    inputsOf (before ++ behind) = inputsOf before ++ inputsOf behind := List.filterMap_append

end

/-! ## What flags take -/

/-- The value maps a name to a text: the name, an equals sign and the text. -/
def IsEntry (value : String) (entry : String × String) : Prop :=
  entry.1 ≠ "" ∧ '=' ∉ entry.1.toList ∧ value = entry.1 ++ "=" ++ entry.2

theorem mapEntry?_eq_some_iff {value : String} {entry : String × String} :
    mapEntry? value = some entry ↔ IsEntry value entry := by
  unfold mapEntry?
  dsimp only
  constructor
  · intro read
    split at read
    · next c text behind =>
      have equals : c = '=' := by
        have first := List.head?_dropWhile_not (· ≠ '=') value.toList
        rw [behind] at first
        simpa using first
      subst equals
      obtain ⟨some, same⟩ := Option.ite_none_left_eq_some.1 read
      cases same
      refine ⟨fun none => some ?_, fun mem => ?_, ?_⟩
      · rw [String.ofList_eq_empty_iff.1 none]
        rfl
      · rw [String.toList_ofList] at mem
        exact absurd (List.all_eq_true.1 List.all_takeWhile _ mem) (by decide)
      · apply String.toList_inj.1
        have chars : ∀ name : List Char, (String.ofList name ++ "=" ++ String.ofList text).toList =
            name ++ '=' :: text := by simp
        rw [chars, ← behind, List.takeWhile_append_dropWhile]
    · cases read
  · obtain ⟨name, text⟩ := entry
    rintro ⟨some, without, rfl⟩
    have plain : ∀ c ∈ name.toList, decide (c ≠ '=') = true := fun c mem =>
      decide_eq_true fun same => without (same ▸ mem)
    have chars : (name ++ "=" ++ text).toList = name.toList ++ '=' :: text.toList := by simp
    rw [chars, List.takeWhile_append_of_pos plain, List.dropWhile_append_of_pos plain]
    simp [some]

theorem isSome_mapEntry?_iff {memory : Nat} {value : String} :
    ( mapEntry? value).isSome = true ↔ Flag.map.Takes memory value := by
  rw [Option.isSome_iff_exists]
  constructor
  · rintro ⟨⟨name, text⟩, read⟩
    obtain ⟨some, without, rfl⟩ := mapEntry?_eq_some_iff.1 read
    exact ⟨name.toList, text.toList, by simpa using some, without, by simp⟩
  · rintro ⟨name, text, some, without, chars⟩
    refine ⟨(String.ofList name, String.ofList text), mapEntry?_eq_some_iff.2 ⟨?_, ?_, ?_⟩⟩
    · simpa using some
    · simpa using without
    · apply String.toList_inj.1
      simpa using chars

/-- The values of the digits at the start of a text are those of all its characters, if they are as
many. -/
theorem leadingDigits_eq_iff {cs : List Char} {digits : List Nat} :
    Text.leadingDigits cs = digits ∧ digits.length = cs.length ↔
      cs.map Unicode.decimalValue? = digits.map some := by
  induction cs generalizing digits with
  | nil =>
    cases digits with
    | nil => simp [Text.leadingDigits]
    | cons d ds => simp
  | cons c cs ih =>
    rw [Text.leadingDigits, List.map_cons]
    cases value : Unicode.decimalValue? c with
    | none => cases digits <;> simp
    | some d =>
      cases digits with
      | nil => simp
      | cons e ds =>
        have behind := @ih ds
        simp only [List.cons.injEq, List.length_cons, Nat.add_right_cancel_iff, List.map_cons,
          Option.some.injEq, and_assoc, behind]

theorem takes_indent_iff {memory : Nat} {value : String} : Flag.indent.Takes memory value ↔
    value.toList ≠ [] ∧ ∃ width, readWidth memory value = .ok width := by
  constructor
  · rintro ⟨digits, some, values, short, counted, held⟩
    obtain ⟨leading, long⟩ := leadingDigits_eq_iff.2 values
    refine ⟨fun none => ?_, Text.ofDigits digits, ?_⟩
    · rw [none] at long
      exact some (List.length_eq_zero_iff.1 long)
    · simp only [readWidth, Text.readDecimal, leading, if_neg (Nat.not_lt.2 short), if_pos long,
        if_neg (Nat.not_lt.2 counted), if_neg (Nat.not_lt.2 held)]
  · rintro ⟨some, width, read⟩
    unfold readWidth Text.readDecimal at read
    dsimp only at read
    split at read
    · cases read
    · next number whole =>
      split at whole
      · cases whole
      next short =>
      split at whole
      · next long =>
        cases whole
        split at read
        · cases read
        next counted =>
        split at read
        · cases read
        next held =>
        refine ⟨_, fun none => some ?_, leadingDigits_eq_iff.1 ⟨rfl, long⟩, Nat.not_lt.1 short,
          Nat.not_lt.1 counted, Nat.not_lt.1 held⟩
        rw [none] at long
        exact List.length_eq_zero_iff.1 long.symm
      · cases whole

/-- The value is made of digits, not all of them decimal perhaps. -/
def isDigits (value : String) : Bool := !value.toList.isEmpty && value.toList.all Unicode.isDigit

theorem isDigits_of_takes {memory : Nat} {value : String} (takes : Flag.indent.Takes memory value) :
    isDigits value = true := by
  have some := (takes_indent_iff.1 takes).1
  obtain ⟨digits, -, values, -⟩ := takes
  rw [isDigits, Bool.and_eq_true, Bool.not_eq_true', List.isEmpty_eq_false_iff, List.all_eq_true]
  refine ⟨some, fun c mem => ?_⟩
  have value := List.mem_map_of_mem (f := Unicode.decimalValue?) mem
  rw [values] at value
  obtain ⟨d, -, same⟩ := List.mem_map.1 value
  rw [Unicode.isDigit, ← same]
  rfl

theorem isSome_ofText?_iff {value : String} :
    (NameStyle.ofText? value).isSome = true ↔ value = "keep" ∨ value = "camel" := by
  unfold NameStyle.ofText?
  split
  · simp
  · simp
  · next keep camel =>
    exact iff_of_false Bool.false_ne_true fun word => word.elim keep camel

namespace Options

variable {memory : Nat} {settings : List Setting} {flag : Flag} {text : String}

/-- Reading a value for the indentation. -/
theorem set_indent (o : Options) (text : String) : o.set memory text .indent =
    if isDigits text then (readWidth memory text).map fun width => .ok { o with indentWidth := width }
    else .ok (.error (.badIndent text)) := by
  unfold set isDigits
  cases text.toList.isEmpty <;> cases text.toList.all Unicode.isDigit <;> rfl

/-- A value that its flag takes becomes the last one. -/
theorem set_of_takes (takes : flag.Takes memory text) :
    (ofSettings memory settings).set memory text flag =
      .ok (.ok (ofSettings memory (settings ++ [.value flag text]))) := by
  cases flag with
  | map =>
    obtain ⟨entry, read⟩ := Option.isSome_iff_exists.1 (isSome_mapEntry?_iff.2 takes)
    simp [set, read, ofSettings, lastValue?, valuesOf_concat_self, valuesOf_concat_ne,
      inputsOf_concat_value]
  | indent =>
    obtain ⟨-, width, read⟩ := takes_indent_iff.1 takes
    rw [set_indent, if_pos (isDigits_of_takes takes), read]
    simp [Except.map, ofSettings, lastValue?, valuesOf_concat_self, valuesOf_concat_ne,
      inputsOf_concat_value, read, Except.toOption]
  | fieldNames | methodNames =>
    obtain ⟨style, read⟩ := Option.isSome_iff_exists.1 (isSome_ofText?_iff.2 takes)
    simp [set, read, ofSettings, lastValue?, valuesOf_concat_self, valuesOf_concat_ne,
      inputsOf_concat_value]
  | _ =>
    simp [set, ofSettings, lastValue?, valuesOf_concat_self, valuesOf_concat_ne,
      inputsOf_concat_value]

/-- Any other value is refused, unless it is one of digits for the indentation. -/
theorem set_refuses (o : Options) (refused : ¬flag.Takes memory text)
    (other : ¬(flag = .indent ∧ isDigits text = true)) :
    ∃ e, o.set memory text flag = .ok (.error e) := by
  cases flag with
  | map =>
    have none : mapEntry? text = none := Option.not_isSome_iff_eq_none.1 fun entry =>
      refused (isSome_mapEntry?_iff.1 entry)
    exact ⟨.badMap text, by simp only [set, none]⟩
  | indent =>
    rw [set_indent, if_neg fun digits => other ⟨rfl, digits⟩]
    exact ⟨.badIndent text, rfl⟩
  | fieldNames | methodNames =>
    have none : NameStyle.ofText? text = none := Option.not_isSome_iff_eq_none.1 fun style =>
      refused (isSome_ofText?_iff.1 style)
    exact ⟨.unknownStyle text, by simp only [set, none]⟩
  | _ => exact absurd trivial refused

/-- Such a text of digits is one that no number is read from. -/
theorem set_crashes (o : Options) (refused : ¬Flag.indent.Takes memory text)
    (digits : isDigits text = true) : ∃ crash, o.set memory text .indent = .error crash := by
  rw [set_indent, if_pos digits]
  cases read : readWidth memory text with
  | error crash => exact ⟨crash, rfl⟩
  | ok width =>
    have some : text.toList ≠ [] := by
      rintro none
      simp [isDigits, none] at digits
    exact absurd (takes_indent_iff.2 ⟨some, width, read⟩) refused

theorem input_ofSettings (first : inputsOf settings = []) :
    (ofSettings memory settings).input = none := by
  rw [ofSettings, first]
  rfl

theorem isSome_input_ofSettings (some : inputsOf settings ≠ []) :
    (ofSettings memory settings).input.isSome = true := by
  rw [ofSettings, List.getLast?_eq_some_getLast some]
  rfl

theorem ofSettings_concat_input (first : inputsOf settings = []) (path : String) :
    { ofSettings memory settings with input := some path } =
      ofSettings memory (settings ++ [.input path]) := by
  simp [ofSettings, lastValue?, valuesOf_concat_input, inputsOf_concat_input, first]

end Options

/-! ## Reading arguments -/

theorem not_help_of_ofText? {argument : String} {flag : Flag}
    (h : Flag.ofText? argument = some flag) : ¬(argument = "--help" || argument = "-h") = true := by
  intro help
  obtain rfl | rfl : argument = "--help" ∨ argument = "-h" := by simpa using help
  · cases h
  · cases h

namespace Command

variable {memory : Nat} {o o' : Options} {argument text path : String} {flag : Flag} {rest : List String}

theorem ofArgsAfter_value (word : Flag.ofText? argument = some flag)
    (accepts : o.set memory text flag = .ok (.ok o')) :
    ofArgsAfter memory o (argument :: text :: rest) = ofArgsAfter memory o' rest := by
  rw [ofArgsAfter, if_neg (not_help_of_ofText? word), accepts]
  · rfl
  · exact word

theorem ofArgsAfter_refused {e : UsageError} (word : Flag.ofText? argument = some flag)
    (refuses : o.set memory text flag = .ok (.error e)) :
    ofArgsAfter memory o (argument :: text :: rest) = .ok (.refuse e) := by
  rw [ofArgsAfter, if_neg (not_help_of_ofText? word), refuses]
  · rfl
  · exact word

theorem ofArgsAfter_crashed {crash : Crash} (word : Flag.ofText? argument = some flag)
    (crashes : o.set memory text flag = .error crash) :
    ofArgsAfter memory o (argument :: text :: rest) = .error crash := by
  rw [ofArgsAfter, if_neg (not_help_of_ofText? word), crashes]
  · rfl
  · exact word

theorem ofArgsAfter_input (names : IsInput path) (first : o.input = none) :
    ofArgsAfter memory o (path :: rest) = ofArgsAfter memory { o with input := some path } rest := by
  have help : ¬(path = "--help" || path = "-h") = true := by
    simpa using names.not_help
  have plain : ¬(path.toList.head? = some '-' && path ≠ "-") = true := by
    simpa using names.undashed
  rw [ofArgsAfter, if_neg help, if_neg plain, first]
  · rfl
  · exact names.not_flag

/-- What ends the reading behind some settings: the end of the arguments, a word for the usage text, or
an argument that is no setting. -/
inductive Stops (memory : Nat) (settings : List Setting) :
    List String → Except Crash Command → Prop where
  | done : Stops memory settings [] (.ok (.run (.ofSettings memory settings)))
  | help {argument : String} {rest : List String} : argument = "--help" ∨ argument = "-h" →
      Stops memory settings (argument :: rest) (.ok .help)
  | noValue {argument : String} {flag : Flag} : Flag.ofText? argument = some flag →
      Stops memory settings [argument] (.ok (.refuse (.missingValue argument)))
  | refused {argument text : String} {flag : Flag} {rest : List String} {e : UsageError} :
      Flag.ofText? argument = some flag → ¬flag.Takes memory text →
      Stops memory settings (argument :: text :: rest) (.ok (.refuse e))
  | crashed {argument text : String} {rest : List String} {crash : Crash} :
      Flag.ofText? argument = some .indent → isDigits text = true → ¬Flag.indent.Takes memory text →
      Stops memory settings (argument :: text :: rest) (.error crash)
  | noFlag {argument : String} {rest : List String} : Flag.ofText? argument = none →
      argument.toList.head? = some '-' → argument ≠ "-" →
      Stops memory settings (argument :: rest) (.ok (.refuse (.unknownFlag argument)))
  | secondInput {argument : String} {rest : List String} : IsInput argument →
      inputsOf settings ≠ [] →
      Stops memory settings (argument :: rest) (.ok (.refuse (.extraArgument argument)))

/-- Arguments that spell settings are read, and the others behind them. -/
theorem ofArgsAfter_append {settings : List Setting} {spelled : List String}
    (spells : Spells memory settings spelled) (before : List Setting) (rest : List String)
    (one : (inputsOf (before ++ settings)).length ≤ 1) :
    ofArgsAfter memory (.ofSettings memory before) (spelled ++ rest) =
      ofArgsAfter memory (.ofSettings memory (before ++ settings)) rest := by
  induction spells generalizing before with
  | nil => rw [List.append_nil, List.nil_append]
  | value word takes _ ih =>
    rw [List.append_cons before] at one ⊢
    rw [List.cons_append, List.cons_append, ofArgsAfter_value word (Options.set_of_takes takes)]
    exact ih _ one
  | input names _ ih =>
    rw [List.append_cons before] at one ⊢
    have first : inputsOf before = [] := by
      rw [inputsOf_append, inputsOf_concat_input, List.length_append, List.length_append] at one
      exact List.length_eq_zero_iff.1 (by simp at one; omega)
    rw [List.cons_append, ofArgsAfter_input names (Options.input_ofSettings first),
      Options.ofSettings_concat_input first]
    exact ih _ one

/-- The settings that arguments spell before something ends the reading. -/
structure ReadsTo (memory : Nat) (before settings : List Setting) (spelled rest args : List String)
    (result : Except Crash Command) : Prop where
  args_eq : args = spelled ++ rest
  spells : Spells memory settings spelled
  one : (inputsOf (before ++ settings)).length ≤ 1
  stops : Stops memory (before ++ settings) rest result

theorem exists_readsTo (memory : Nat) (args : List String) (before : List Setting)
    (one : (inputsOf before).length ≤ 1) : ∃ settings spelled rest,
      ReadsTo memory before settings spelled rest args
        (ofArgsAfter memory (.ofSettings memory before) args) := by
  have stop : ∀ {result}, ofArgsAfter memory (.ofSettings memory before) args = result →
      Stops memory before args result → ∃ settings spelled rest,
        ReadsTo memory before settings spelled rest args
          (ofArgsAfter memory (.ofSettings memory before) args) := by
    intro result same stops
    rw [same]
    exact ⟨[], [], args, rfl, .nil, by rwa [List.append_nil], by rwa [List.append_nil]⟩
  match args with
  | [] => exact stop rfl .done
  | argument :: rest =>
    by_cases help : argument = "--help" ∨ argument = "-h"
    · refine stop ?_ (.help help)
      rcases help with rfl | rfl <;> rfl
    cases word : Flag.ofText? argument with
    | some flag =>
      match rest with
      | [] =>
        refine stop ?_ (.noValue word)
        rw [ofArgsAfter, if_neg (not_help_of_ofText? word)]
        · exact flag
        · exact word
      | text :: rest =>
        by_cases takes : flag.Takes memory text
        · obtain ⟨settings, spelled, left, args_eq, spells, one, stops⟩ :=
            exists_readsTo memory rest (before ++ [.value flag text]) (by rwa [inputsOf_concat_value])
          rw [ofArgsAfter_value word (Options.set_of_takes takes), args_eq]
          rw [List.append_assoc] at one stops
          exact ⟨_, _, left, rfl, .value word takes spells, one, args_eq ▸ stops⟩
        · by_cases digits : flag = .indent ∧ isDigits text = true
          · obtain ⟨rfl, digits⟩ := digits
            obtain ⟨crash, crashes⟩ := Options.set_crashes (.ofSettings memory before) takes digits
            exact stop (ofArgsAfter_crashed word crashes) (.crashed word digits takes)
          · obtain ⟨e, refuses⟩ := Options.set_refuses (.ofSettings memory before) takes digits
            exact stop (ofArgsAfter_refused word refuses) (.refused word takes)
    | none =>
      by_cases dashed : argument.toList.head? = some '-' ∧ argument ≠ "-"
      · refine stop ?_ (.noFlag word dashed.1 dashed.2)
        rw [ofArgsAfter, if_neg (by simpa using help), if_pos (by simpa using dashed)]
        exact word
      · have names : IsInput argument :=
          ⟨not_or.1 help, word, fun dash => Decidable.not_not.1 fun other => dashed ⟨dash, other⟩⟩
        by_cases first : inputsOf before = []
        · obtain ⟨settings, spelled, left, args_eq, spells, one, stops⟩ :=
            exists_readsTo memory rest (before ++ [.input argument]) (by simp [inputsOf_concat_input, first])
          rw [ofArgsAfter_input names (Options.input_ofSettings first),
            Options.ofSettings_concat_input first, args_eq]
          rw [List.append_assoc] at one stops
          exact ⟨_, _, left, rfl, .input names spells, one, args_eq ▸ stops⟩
        · refine stop ?_ (.secondInput names first)
          rw [ofArgsAfter, if_neg (by simpa using help), if_neg (by simpa using names.undashed),
            if_pos (Options.isSome_input_ofSettings first)]
          exact word
termination_by args.length

end Command

end Typings.Cli
