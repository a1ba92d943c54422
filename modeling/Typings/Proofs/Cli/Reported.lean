import Typings.Proofs.Cli.Outcomes
import Typings.Proofs.Name.Characters
import Typings.Proofs.Surface.Merging
import Typings.Proofs.Surface.Reported

/-!
# What runs report

A run that renders its source reports its warnings, and then the unresolved names that no declaration of
the source introduces. The name of a method introduces nothing that a type could mean, but it is left out of
the report like the others: a run reports all unresolved names that are not declared exactly if none of them
is the name of a method (`Cli.reports_iff`).
-/

namespace Typings

/-! ## Unresolved names of a source -/

section

variable {good : String → Prop}

theorem Context.Unresolved.word {ctx : Context} {x : TypeExpr} {name : String}
    (unresolved : ctx.Unresolved x name) (stable : Name.Stable good) (words : x.WordsIn good) :
    good name := by
  cases unresolved with
  | plain => exact words
  | qualified =>
    exact stable.append (stable.append (stable.qualifiedName _ words.1) stable.dot) words.2

end

/-- Declarations leave the names that nothing is known about, among the expressions that are rendered. -/
theorem TsDecl.leaves_ofDecls (ctx : Context) {ds : List Decl} (known : ∀ d ∈ ds, d ≠ .unknown) :
    ∃ ts, ofDecls ctx ds = .ok ts ∧ ∀ name, (∃ t ∈ ts, t.Leaves name) ↔
      ∃ d ∈ ds, ∃ y, d.Shown ctx.room y ∧ (ctx.within d.scope).Unresolved y name := by
  induction ds with
  | nil => exact ⟨[], rfl, fun _ => by simp⟩
  | cons d ds ih =>
    obtain ⟨here, later⟩ := List.forall_mem_cons.1 known
    obtain ⟨t, first, leaves⟩ := leaves_ofDecl ctx here
    obtain ⟨ts, rest, leaves'⟩ := ih later
    refine ⟨t.toList ++ ts, ?_, fun name => ?_⟩
    · rw [ofDecls, first, rest]
      rfl
    · simp only [List.mem_append, Option.mem_toList, or_and_right, exists_or, leaves', List.mem_cons,
        exists_eq_left, ← leaves]
      rfl

/-- The unresolved names of a source have no newline in them. -/
theorem Rendering.newline_not_mem_unknown {config : Config} {source : String} {file : File}
    {r : Rendering} (parsed : File.parse source = .ok file)
    (rendered : ofDecls config file.decls = .ok r) {name : String} (mem : name ∈ r.noted.unknown) :
    '\n' ∉ name.toList := by
  have foreign : Name.Foreign '\n' := Name.foreign_of_isForeign (by decide +kernel)
  have words : ∀ d ∈ file.decls, d.WordsIn fun name => '\n' ∉ name.toList :=
    File.wordsIn_of_parse parsed (Name.not_mem_ident foreign) (by decide)
  have known : ∀ d ∈ file.decls, d ≠ .unknown := fun d mem => (words d mem).known
  obtain ⟨ts, made, leaves⟩ := TsDecl.leaves_ofDecls { config := config } known
  rw [ofDecls, made] at rendered
  cases rendered
  rcases Diagnostics.mem_unknown_add.1 mem with before | left
  · exact absurd before (NameSet.not_mem_empty name)
  · obtain ⟨d, among, y, shown, unresolved⟩ := (leaves name).1 (List.mem_flatMap.1 left)
    exact unresolved.word (Name.stable_of_foreign foreign (by decide)) (shown.wordsIn (words d among))

/-- The name of a type or a function is introduced. -/
theorem Decl.name?_of_ownName? (d : Decl) {name : String} (own : d.ownName? = some name) :
    d.name? = some name := by
  cases d with
  | func decl => exact (Option.ite_none_right_eq_some.1 own).2
  | _ => exact own

namespace Cli

/-! ## Reports -/

/-- The lines of a report. -/
def reportLines (messages : List String) : String := String.join (messages.map reportLine)

theorem reportLines_append (messages more : List String) :
    reportLines (messages ++ more) = reportLines messages ++ reportLines more := by
  simp [reportLines]

theorem toList_reportLines_cons (message : String) (more : List String) :
    (reportLines (message :: more)).toList =
      "tygoja: ".toList ++ (message.toList ++ '\n' :: (reportLines more).toList) := by
  simp [reportLines, reportLine]

/-- A line ends at its newline. -/
theorem append_newline_inj {line line' more more' : List Char} (plain : '\n' ∉ line)
    (plain' : '\n' ∉ line') (same : line ++ '\n' :: more = line' ++ '\n' :: more') :
    line = line' ∧ more = more' := by
  induction line generalizing line' with
  | nil =>
    cases line' with
    | nil => exact ⟨rfl, List.tail_eq_of_cons_eq same⟩
    | cons c cs => exact absurd (List.mem_cons.2 (.inl (List.head_eq_of_cons_eq same))) plain'
  | cons c cs ih =>
    cases line' with
    | nil => exact absurd (List.mem_cons.2 (.inl (List.head_eq_of_cons_eq same).symm)) plain
    | cons c' cs' =>
      obtain ⟨rfl, behind⟩ := List.cons_eq_cons.1 same
      obtain ⟨rfl, rest⟩ := ih (fun mem => plain (List.mem_cons_of_mem _ mem))
        (fun mem => plain' (List.mem_cons_of_mem _ mem)) behind
      exact ⟨rfl, rest⟩

/-- Messages without newlines can be told from the lines of the report. -/
theorem reportLines_inj {messages others : List String} (plain : ∀ m ∈ messages, '\n' ∉ m.toList)
    (plain' : ∀ m ∈ others, '\n' ∉ m.toList) (same : reportLines messages = reportLines others) :
    messages = others := by
  induction messages generalizing others with
  | nil =>
    cases others with
    | nil => rfl
    | cons m ms =>
      have lists := congrArg String.toList same
      rw [toList_reportLines_cons] at lists
      cases lists
  | cons m ms ih =>
    cases others with
    | nil =>
      have lists := congrArg String.toList same
      rw [toList_reportLines_cons] at lists
      cases lists
    | cons m' ms' =>
      have lists := congrArg String.toList same
      rw [toList_reportLines_cons, toList_reportLines_cons, List.append_cancel_left_eq] at lists
      obtain ⟨here, later⟩ := List.forall_mem_cons.1 plain
      obtain ⟨here', later'⟩ := List.forall_mem_cons.1 plain'
      obtain ⟨first, rest⟩ := append_newline_inj here here' lists
      rw [String.toList_inj.1 first, ih later later' (String.toList_inj.1 rest)]

/-- The message for an unresolved name. -/
def unknownMessage (name : String) : String := "unknown type: " ++ name

theorem reportText_eq (noted : Diagnostics) (declared : NameSet) : reportText noted declared =
    reportLines (noted.warnings.map Warning.text ++
      (noted.unknown.toList.filter fun name => !declared.contains name).map unknownMessage) := by
  rw [reportLines_append, reportLines, reportLines, List.map_map, List.map_map]
  rfl

/-- The line with which the standard error ends: that the output file cannot be written, if it is for this
that the run fails. -/
def Outcome.lastLine (outcome : Outcome) (o : Options) : String :=
  if outcome.ending = .exit 1 then reportLine (Failure.cannotWrite (o.output.getD "")).message else ""

/-- The standard error has the warnings in order, and then the unresolved names that are not left out, in
ascending order and once each; and no more but that a file cannot be written. -/
def Outcome.Reports (outcome : Outcome) (o : Options) (noted : Diagnostics) (leftOut : List String) :
    Prop :=
  ∃ names : List String, names.Pairwise (· < ·) ∧
    (∀ name, name ∈ names ↔ name ∈ noted.unknown ∧ name ∉ leftOut) ∧
    outcome.stderr =
      reportLines (noted.warnings.map Warning.text ++ names.map unknownMessage) ++ outcome.lastLine o

theorem stderr_deliver (world : World) (o : Options) (text : CodePoints) (reported : String) :
    (deliver world o text reported).stderr = reported ++ (deliver world o text reported).lastLine o := by
  unfold deliver
  cases output : o.output with
  | none => cases text.encode <;> simp [Outcome.lastLine]
  | some path =>
    dsimp only
    split
    · simp [Outcome.lastLine]
    · split
      · simp [Outcome.lastLine, output]
      · cases text.encode <;> simp [Outcome.lastLine]

/-- The names that are left out can be told from what is reported. -/
theorem Outcome.Reports.leftOut_iff {outcome : Outcome} {o : Options} {noted : Diagnostics}
    {leftOut others : List String} (plain : ∀ name ∈ noted.unknown, '\n' ∉ name.toList)
    (reports : outcome.Reports o noted leftOut) :
    outcome.Reports o noted others ↔ ∀ name ∈ noted.unknown, name ∈ leftOut ↔ name ∈ others := by
  obtain ⟨names, ascending, mem_names, stderr⟩ := reports
  constructor
  · rintro ⟨names', -, mem_names', stderr'⟩ name mem
    have same : reportLines (names.map unknownMessage) = reportLines (names'.map unknownMessage) := by
      have both := stderr.symm.trans stderr'
      rw [String.append_left_inj, reportLines_append, reportLines_append, String.append_right_inj]
        at both
      exact both
    have unbroken : ∀ {names : List String}, (∀ name ∈ names, name ∈ noted.unknown) →
        ∀ m ∈ names.map unknownMessage, '\n' ∉ m.toList := by
      intro names among m mem
      obtain ⟨name, inside, rfl⟩ := List.mem_map.1 mem
      rw [unknownMessage, String.toList_append]
      exact List.not_mem_append (by decide) (plain name (among name inside))
    have messages := reportLines_inj (unbroken fun name mem => ((mem_names name).1 mem).1)
      (unbroken fun name mem => ((mem_names' name).1 mem).1) same
    have equal : names = names' :=
      (List.map_inj_right fun a b same => (String.append_right_inj _).1 same).1 messages
    subst equal
    have iff := (mem_names name).symm.trans (mem_names' name)
    simp only [mem, true_and] at iff
    exact Decidable.not_iff_not.1 iff
  · intro alike
    refine ⟨names, ascending, fun name => (mem_names name).trans ?_, stderr⟩
    exact and_congr_right fun mem => not_congr (alike name mem)

/-! ## Reports of runs -/

/-- What a run reports that comes to render its source: all unresolved names that no declaration
introduces, behind all warnings. These are the unresolved names that are not declared, as types or as
functions, exactly if none of them is the name of a method and is not declared. -/
theorem reports_iff {world : World} {args : List String} {o : Options} {table : Table} {file : File}
    (read : Command.ofArgs world.memory args = .ok (.run o))
    (prepared : prepare world o = .ok (table, file)) :
    ∃ noted, (∀ standIn, ∃ text,
        Rendering.ofDecls (o.config table standIn) file.decls = .ok ⟨text, noted⟩) ∧
      (run world args).Reports o noted (file.decls.filterMap Decl.name?) ∧
      ((run world args).Reports o noted (file.decls.filterMap Decl.ownName?) ↔
        ∀ name ∈ noted.unknown, name ∈ file.decls.filterMap Decl.name? →
          name ∈ file.decls.filterMap Decl.ownName?) := by
  obtain ⟨source, -, -, parsed⟩ := prepare_eq_ok.1 prepared
  obtain ⟨noted, rendered, delivered⟩ := Options.run_of_prepared prepared
  have ran : run world args = deliver world o (o.outputText table file)
      (reportText noted (Decl.introduced file.decls)) := by
    rw [run, read]
    exact delivered
  have reports : (run world args).Reports o noted (file.decls.filterMap Decl.name?) := by
    refine ⟨noted.unknown.toList.filter fun name => !(Decl.introduced file.decls).contains name,
      noted.unknown.ascending.filter _, fun name => ?_, ?_⟩
    · rw [List.mem_filter, Bool.not_eq_true', Bool.eq_false_iff, ne_eq, NameSet.contains_iff,
        Decl.introduced, NameSet.mem_ofList]
      rfl
    · rw [ran, stderr_deliver, reportText_eq]
  have plain : ∀ name ∈ noted.unknown, '\n' ∉ name.toList := fun name =>
    Rendering.newline_not_mem_unknown parsed (rendered CodePoints.plainly)
  refine ⟨noted, fun standIn => ⟨_, rendered standIn⟩, reports, ?_⟩
  rw [reports.leftOut_iff plain]
  refine forall₂_congr fun name _ => ⟨Iff.mp, fun declared => ⟨declared, fun own => ?_⟩⟩
  obtain ⟨d, mem, own⟩ := List.mem_filterMap.1 own
  exact List.mem_filterMap.2 ⟨d, mem, d.name?_of_ownName? own⟩

/-- A type and a function are declared, and no unresolved name is the name of a method. -/
theorem reports_iff_function :
    let source := "type T struct \x7b X Close; Y Open; Z T \x7d\n" ++
      "func Open() \x7b\x7d\nfunc (t T) Shut() \x7b\x7d"
    let world : World := { read := fun _ => none, writable := fun _ => false,
                           stdin := source.toUTF8.toList }
    ∃ table file noted, prepare world {} = .ok (table, file) ∧
      (∀ standIn, ∃ text,
        Rendering.ofDecls (({} : Options).config table standIn) file.decls = .ok ⟨text, noted⟩) ∧
      noted.unknown.toList = ["Close", "Open", "T"] ∧
      (run world []).Reports {} noted (file.decls.filterMap Decl.ownName?) := by
  intro source world
  have summary : (prepare world {}).toOption.map (fun both =>
      (both.2.decls.filterMap Decl.name?, both.2.decls.filterMap Decl.ownName?,
        (Rendering.ofDecls (({} : Options).config both.1 CodePoints.plainly) both.2.decls).toOption.map
          fun r => r.noted.unknown.toList)) =
      some (["T", "Open", "Shut"], ["T", "Open"], some ["Close", "Open", "T"]) := by
    decide +kernel
  obtain ⟨⟨table, file⟩, prepared, all⟩ := exists_of_toOption_map summary
  obtain ⟨introduced, all⟩ := Prod.mk.inj all
  obtain ⟨own, unknown⟩ := Prod.mk.inj all
  have read : Command.ofArgs world.memory [] = .ok (.run {}) := rfl
  obtain ⟨noted, rendered, -, iff⟩ := reports_iff read prepared
  have names : noted.unknown.toList = ["Close", "Open", "T"] := by
    obtain ⟨text, run⟩ := rendered CodePoints.plainly
    rw [run] at unknown
    exact Option.some.inj unknown
  refine ⟨table, file, noted, prepared, rendered, names, iff.2 fun name mem => ?_⟩
  rw [← NameSet.mem_toList, names] at mem
  rw [introduced, own]
  revert name
  decide

/-- The name of a method hides an unresolved name. -/
theorem not_reports_method :
    let source := "type T struct \x7b X Close \x7d\nfunc (t T) Close() \x7b\x7d"
    let world : World := { read := fun _ => none, writable := fun _ => false,
                           stdin := source.toUTF8.toList }
    ∃ table file r, Command.ofArgs world.memory [] = .ok (.run {}) ∧
      prepare world {} = .ok (table, file) ∧
      Rendering.ofDecls (({} : Options).config table CodePoints.plainly) file.decls = .ok r ∧
      r.noted.unknown.toList = ["Close"] ∧ file.decls.filterMap Decl.ownName? = ["T"] ∧
      (run world []).stderr = "" ∧
      ¬(run world []).Reports {} r.noted (file.decls.filterMap Decl.ownName?) := by
  intro source world
  have summary : (prepare world {}).toOption.map (fun both =>
      (both.2.decls.filterMap Decl.ownName?,
        (Rendering.ofDecls (({} : Options).config both.1 CodePoints.plainly) both.2.decls).toOption.map
          fun r => r.noted.unknown.toList)) =
      some (["T"], some ["Close"]) := by
    decide +kernel
  have stderr : (run world []).stderr = "" := by decide +kernel
  obtain ⟨⟨table, file⟩, prepared, both⟩ := exists_of_toOption_map summary
  obtain ⟨own, unknown⟩ := Prod.mk.inj both
  obtain ⟨r, rendered, names⟩ := exists_of_toOption_map unknown
  refine ⟨table, file, r, rfl, prepared, rendered, names, own, stderr, ?_⟩
  rintro ⟨reported, -, mem_reported, lines⟩
  have close : "Close" ∈ reported := by
    refine (mem_reported "Close").2 ⟨?_, ?_⟩
    · rw [← NameSet.mem_toList, names]
      exact List.mem_singleton_self _
    · dsimp only at own
      rw [own]
      decide
  rw [stderr] at lines
  cases reported with
  | nil => cases close
  | cons name reported =>
    have lists := congrArg String.toList lines
    simp [reportLines, reportLine] at lists

end Cli

end Typings
