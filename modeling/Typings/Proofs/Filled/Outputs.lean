import Typings.Cli.Run
import Typings.Proofs.Filled.Rendered
import Typings.Proofs.Parser.Names

/-!
# What runs render

The mappings of a run have characters filled in for the surrogates of its mapping files. So there is one text
that its source is rendered as, whatever is filled in, and this is the text that the run hands over
(`Cli.Options.exists_rendered`).
-/

namespace Typings

/-! ## Mappings that are filled in -/

namespace Mappings.Filled

variable {among : List Surrogate} {m : StandIn → Mappings}

/-- Without mappings nothing is filled in. -/
theorem empty : Mappings.Filled among fun _ => {} := fun _ => .inl fun _ => rfl

/-- A mapping to a text that is filled in is added for every stand-in alike. -/
theorem insert (h : Mappings.Filled among m) (key : String) {text : StandIn → String}
    (fills : IsFilled among text) :
    Mappings.Filled among fun standIn => (m standIn).insert key (text standIn) := by
  intro other
  by_cases same : other = key
  · subst same
    exact .inr ⟨text, fills, fun standIn => find?_insert_self (m standIn) other (text standIn)⟩
  · have passed : ∀ standIn, ((m standIn).insert key (text standIn)).find? other =
        (m standIn).find? other := fun standIn => find?_insert_of_ne same (m standIn) (text standIn)
    simp only [passed]
    exact h other

/-- Mappings to texts that are filled in are added one after the other. -/
theorem insertAll (h : Mappings.Filled among m) {entries : List (String × (StandIn → String))}
    (fill : ∀ e ∈ entries, IsFilled among e.2) :
    Mappings.Filled among fun standIn =>
      Cli.insertAll (m standIn) (entries.map fun e => (e.1, e.2 standIn)) := by
  induction entries generalizing m with
  | nil => exact h
  | cons e entries ih =>
    obtain ⟨first, others⟩ := List.forall_mem_cons.1 fill
    exact ih (h.insert e.1 first) others

end Mappings.Filled

namespace Cli

/-- The entries of a table with the texts that their surrogates are filled into. -/
theorem Table.exists_fill (table : Table) : ∃ entries : List (String × (StandIn → String)),
    (∀ e ∈ entries, IsFilled table.surrogates e.2) ∧
    ∀ standIn, table.fill standIn = entries.map fun e => (e.1, e.2 standIn) := by
  refine ⟨table.filterMap fun entry => entry.1.encode.toOption.map fun name =>
    (name, fun standIn => entry.2.fill standIn), fun e mem => ?_, fun standIn => ?_⟩
  · obtain ⟨entry, inside, made⟩ := List.mem_filterMap.1 mem
    obtain ⟨name, -, rfl⟩ := Option.map_eq_some_iff.1 made
    refine ⟨entry.2, fun s among => ?_, fun _ => rfl⟩
    exact List.mem_eraseDups.2 (List.mem_flatMap.2 ⟨entry, inside, CodePoints.mem_surrogates.2 among⟩)
  · rw [List.map_filterMap]
    refine congrArg (List.filterMap · table) (funext fun entry => ?_)
    rw [Option.map_map]
    rfl

namespace Options

/-- In the mappings of a run, characters stand in only for the surrogates of the table. -/
theorem filled_mappings (o : Options) (table : Table) :
    Mappings.Filled table.surrogates fun standIn => (o.config table standIn).mappings := by
  obtain ⟨entries, fill, same⟩ := table.exists_fill
  let given : List (String × (StandIn → String)) := o.mapEntries.map fun e => (e.1, fun _ => e.2)
  have constant : ∀ e ∈ given, IsFilled table.surrogates e.2 :=
    List.forall_mem_map.2 fun e _ => .const e.2
  have all := Mappings.Filled.empty.insertAll (List.forall_mem_append.2 ⟨fill, constant⟩)
  simp only [List.map_append, ← same, given, List.map_map, Function.comp_def, Prod.eta, List.map_id']
    at all
  exact all

/-- The declarations of a source are rendered as the text that is handed over, whatever characters are filled
in for surrogates, and the same is noted. -/
theorem exists_rendered (o : Options) (table : Table) {source : String} {file : File}
    (parsed : File.parse source = .ok file) : ∃ noted, ∀ standIn,
      Rendering.ofDecls (o.config table standIn) file.decls =
        .ok ⟨(o.outputText table file).fill standIn, noted⟩ := by
  have words : ∀ d ∈ file.decls, d.WordsIn fun _ => True :=
    File.wordsIn_of_parse parsed (fun _ => trivial) trivial
  have known : ∀ d ∈ file.decls, d ≠ .unknown := fun d mem => (words d mem).known
  obtain ⟨text, noted, mentioned, rendered⟩ :=
    Rendering.exists_filled (o.filled_mappings table) (o.config table CodePoints.plainly) known
  have run : ∀ standIn, Rendering.ofDecls (o.config table standIn) file.decls =
      .ok ⟨text.fill standIn, noted⟩ := rendered
  have same : o.outputText table file = text := by
    unfold outputText
    simp only [run, textOf]
    exact CodePoints.ofFilled_fill mentioned
  exact ⟨noted, fun standIn => same ▸ run standIn⟩

end Options

end Cli

end Typings
