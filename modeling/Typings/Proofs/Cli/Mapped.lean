import Mathlib.Data.List.Forall2
import Typings.Cli.Run
import Typings.Proofs.Cli.Arguments
import Typings.Proofs.Token.Scanned

/-!
# Which mappings a run renders with

Mappings come from the arguments and from files. The two kinds are gathered apart, and put together when
all arguments have been read: what is mapped on the command line wins over every file, and of mappings of
one kind the last does. So it does not show how the arguments of a run are interleaved
(`Cli.run_interleaved`).
-/

namespace Typings

/-! ## Keys of JSON objects -/

namespace Json

theorem mem_keys_putEntry {key other : CodePoints} {value : Value} {entries : List (CodePoints × Value)} :
    other ∈ (putEntry key value entries).map Prod.fst ↔
      other = key ∨ other ∈ entries.map Prod.fst := by
  induction entries with
  | nil => simp [putEntry]
  | cons entry entries ih =>
    obtain ⟨k, v⟩ := entry
    rw [putEntry]
    split
    · next same =>
      subst same
      simp
    · rw [List.map_cons, List.map_cons, List.mem_cons, List.mem_cons, ih, or_left_comm]

theorem nodup_keys_putEntry {key : CodePoints} {value : Value} {entries : List (CodePoints × Value)}
    (nodup : (entries.map Prod.fst).Nodup) : ((putEntry key value entries).map Prod.fst).Nodup := by
  induction entries with
  | nil => simp [putEntry]
  | cons entry entries ih =>
    obtain ⟨k, v⟩ := entry
    rw [List.map_cons] at nodup
    obtain ⟨fresh, rest⟩ := List.nodup_cons.1 nodup
    rw [putEntry]
    split
    · exact nodup
    · next other =>
      refine List.nodup_cons.2 ⟨fun mem => ?_, ih rest⟩
      rcases mem_keys_putEntry.1 mem with same | behind
      · exact other same
      · exact fresh behind

theorem nodup_keys_foldl {entries acc : List (CodePoints × Value)} (nodup : (acc.map Prod.fst).Nodup) :
    ((entries.foldl (fun es (key, value) => putEntry key value es) acc).map Prod.fst).Nodup := by
  induction entries generalizing acc with
  | nil => exact nodup
  | cons entry entries ih => exact ih (nodup_keys_putEntry nodup)

/-- A value is no object, or one in which no key occurs twice. -/
def Value.KeysOnce : Value → Prop
  | .object entries => (entries.map Prod.fst).Nodup
  | _ => True

theorem scalar_keysOnce {cs rest : List Char} {v : Value} (h : scalar cs = .ok (v, rest)) :
    v.KeysOnce := by
  unfold scalar at h
  split at h
  · next word value found =>
    cases h
    have known : ∀ l ∈ literals, l.2.KeysOnce := by
      intro l mem
      simp only [literals, List.mem_cons, List.not_mem_nil, or_false] at mem
      rcases mem with rfl | rfl | rfl | rfl | rfl | rfl <;> trivial
    exact known _ (List.mem_of_find?_eq_some found)
  · cases text : number cs with
    | error fault =>
      rw [text] at h
      cases h
    | ok both =>
      rw [text] at h
      cases h
      trivial

theorem value_keysOnce {cs : List Char} {v : Value} {rest : Rest cs} (h : value cs = .ok (v, rest)) :
    v.KeysOnce := by
  unfold value at h
  split at h
  · obtain ⟨_, -, same⟩ := exists_ok_of_bind h
    cases same
    trivial
  · split at h
    · cases h
      exact List.nodup_nil
    · obtain ⟨_, -, same⟩ := exists_ok_of_bind h
      cases same
      exact nodup_keys_foldl List.nodup_nil
  · split at h
    · cases h
      trivial
    · obtain ⟨_, -, same⟩ := exists_ok_of_bind h
      cases same
      trivial
  · split at h
    · cases h
    · next found =>
      cases h
      exact scalar_keysOnce found

/-- No key of an object that has been read occurs twice. -/
theorem nodup_keys_of_read {text : List Char} {entries : List (CodePoints × Value)}
    (h : read text = .ok (.object entries)) : (entries.map Prod.fst).Nodup := by
  have whole := ok_of_mapError h
  unfold wholeText at whole
  split at whole
  · cases whole
  · obtain ⟨⟨v, rest⟩, found, same⟩ := exists_ok_of_bind whole
    dsimp only at same
    split at same
    · cases same
      exact value_keysOnce found
    · cases same

end Json

namespace Cli

/-! ## Mapping files -/

/-- The file holds a table: a JSON object whose values are strings. -/
def HoldsTable (world : World) (path : String) (table : Table) : Prop :=
  ∃ bytes text, world.read path = some bytes ∧ Text.decodeUtf8 bytes = .ok text ∧
    Json.read text = .ok (.object (table.map fun (key, text) => (key, .string text)))

theorem stringEntries_eq_ok {path : String} {entries : List (CodePoints × Json.Value)} {table : Table}
    (h : stringEntries path entries = .ok table) :
    entries = table.map fun (key, text) => (key, .string text) := by
  fun_induction stringEntries path entries generalizing table with
  | case1 =>
    cases h
    rfl
  | case2 key text entries ih =>
    obtain ⟨more, read, same⟩ := exists_ok_of_bind h
    cases same
    rw [ih read, List.map_cons]
  | case3 => cases h

/-- A mapping file that loads holds a table. -/
theorem holdsTable_of_readMappings {world : World} {path : String} {table : Table}
    (h : readMappings world path = .ok table) : HoldsTable world path table := by
  unfold readMappings at h
  split at h
  · cases h
  split at h
  · cases h
  · next bytes found =>
    obtain ⟨text, decoded, h⟩ := exists_ok_of_bind h
    obtain ⟨value, read, h⟩ := exists_ok_of_bind h
    have read := ok_of_mapError read
    split at h
    · rw [stringEntries_eq_ok h] at read
      exact ⟨bytes, text, found, ok_of_mapError decoded, read⟩
    · cases h

/-- No name stands twice in a table. -/
theorem HoldsTable.nodup {world : World} {path : String} {table : Table}
    (h : HoldsTable world path table) : (table.map Prod.fst).Nodup := by
  obtain ⟨bytes, text, -, -, read⟩ := h
  have nodup := Json.nodup_keys_of_read read
  rwa [List.map_map] at nodup

/-- Mapping files that all load give their tables, in order. -/
theorem readAllMappings_eq_ok {world : World} {paths : List String}
    (load : ∀ path ∈ paths, ∃ table, readMappings world path = .ok table) :
    ∃ tables, List.Forall₂ (HoldsTable world) paths tables ∧
      readAllMappings world paths = .ok tables.flatten := by
  induction paths with
  | nil => exact ⟨[], .nil, rfl⟩
  | cons path paths ih =>
    obtain ⟨⟨table, first⟩, others⟩ := List.forall_mem_cons.1 load
    obtain ⟨tables, hold, rest⟩ := ih others
    refine ⟨table :: tables, .cons (holdsTable_of_readMappings first) hold, ?_⟩
    rw [readAllMappings, first, rest]
    rfl

/-! ## The table of a run -/

theorem Spells.takes {memory : Nat} {settings : List Setting} {args : List String}
    (spells : Spells memory settings args) {flag : Flag} :
    ∀ text ∈ valuesOf flag settings, flag.Takes memory text := by
  induction spells with
  | nil => exact List.forall_mem_nil _
  | @value argument text other settings args word takes rest ih =>
    intro value mem
    obtain ⟨setting, among, same⟩ := List.mem_filterMap.1 mem
    rcases List.mem_cons.1 among with rfl | behind
    · obtain ⟨rfl, rfl⟩ : other = flag ∧ text = value := by simpa [Setting.valueFor?] using same
      exact takes
    · exact ih value (List.mem_filterMap.2 ⟨setting, behind, same⟩)
  | input _ _ ih =>
    intro value mem
    exact ih value mem

/-- Each value that maps a name gives its entry. -/
theorem forall₂_isEntry {memory : Nat} {values : List String}
    (all : ∀ value ∈ values, Flag.map.Takes memory value) :
    List.Forall₂ IsEntry values (values.filterMap mapEntry?) := by
  induction values with
  | nil => exact .nil
  | cons value values ih =>
    obtain ⟨first, others⟩ := List.forall_mem_cons.1 all
    obtain ⟨entry, read⟩ := Option.isSome_iff_exists.1 (isSome_mapEntry?_iff.2 first)
    rw [List.filterMap_cons_some read]
    exact .cons (mapEntry?_eq_some_iff.1 read) (ih others)

/-- Of entries that are added one after another, the last for a name counts. -/
theorem find?_insertAll (m : Mappings) (entries : List (String × String)) (name : String) :
    (insertAll m entries).find? name = (entries.reverse.lookup name).or (m.find? name) := by
  induction entries generalizing m with
  | nil => rfl
  | cons entry entries ih =>
    obtain ⟨key, text⟩ := entry
    have step : insertAll m ((key, text) :: entries) = insertAll (m.insert key text) entries := rfl
    have first : (m.insert key text).find? name =
        ([(key, text)].lookup name).or (m.find? name) := by
      show ([(key, text)] ++ m.entries).lookup name = _
      exact List.lookup_append
    rw [step, ih, first, List.reverse_cons, List.lookup_append, Option.or_assoc]

/-- A name is looked up in a table as a text of code points. -/
theorem lookup_fill (table : Table) (standIn : StandIn) (name : String) :
    (table.fill standIn).lookup name =
      (table.lookup (.ofString name)).map (CodePoints.fill standIn) := by
  induction table with
  | nil => rfl
  | cons entry table ih =>
    obtain ⟨key, text⟩ := entry
    rw [List.lookup_cons]
    cases encoded : key.encode with
    | ok other =>
      obtain rfl := CodePoints.encode_eq_ok_iff.1 encoded
      have step : Table.fill ((.ofString other, text) :: table) standIn =
          (other, text.fill standIn) :: Table.fill table standIn :=
        List.filterMap_cons_some (by rw [encoded]; rfl)
      rw [step, List.lookup_cons]
      by_cases same : name = other
      · simp [same]
      · have differ : CodePoints.ofString name ≠ .ofString other := fun alike =>
          same (CodePoints.ofString_inj.1 alike)
        rw [beq_false_of_ne same, beq_false_of_ne differ]
        exact ih
    | error fault =>
      have step : Table.fill ((key, text) :: table) standIn = Table.fill table standIn :=
        List.filterMap_cons_none (by rw [encoded]; rfl)
      have differ : CodePoints.ofString name ≠ key := fun alike => by
        rw [CodePoints.encode_eq_ok_iff.2 alike.symm] at encoded
        cases encoded
      rw [step, beq_false_of_ne differ]
      exact ih

/-- The last entry in a table is the only one. -/
theorem lookup_reverse {table : Table} (nodup : (table.map Prod.fst).Nodup) (name : CodePoints) :
    table.reverse.lookup name = table.lookup name := by
  induction table with
  | nil => rfl
  | cons entry table ih =>
    obtain ⟨key, text⟩ := entry
    obtain ⟨fresh, rest⟩ := List.nodup_cons.1 nodup
    rw [List.reverse_cons, List.lookup_append, ih rest, List.lookup_cons, List.lookup_cons]
    cases same : name == key with
    | true =>
      have other : table.lookup name = none := by
        refine List.lookup_eq_none_iff.2 fun entry mem => bne_iff_ne.2 ?_
        intro key
        exact fresh (List.mem_map.2 ⟨entry, mem, key.symm.trans (eq_of_beq same)⟩)
      rw [other, Option.none_or]
    | false => rw [List.lookup_nil, Option.or_none]

/-- Of the tables of several files, the last that has the name counts. -/
theorem lookup_reverse_flatten {world : World} {paths : List String} {tables : List Table}
    (hold : List.Forall₂ (HoldsTable world) paths tables) (name : CodePoints) :
    tables.flatten.reverse.lookup name = tables.reverse.findSome? (List.lookup name) := by
  induction hold with
  | nil => rfl
  | cons first _ ih =>
    rw [List.flatten_cons, List.reverse_append, List.lookup_append, ih, List.reverse_cons,
      List.findSome?_append, lookup_reverse first.nodup, List.findSome?_singleton]

/-! ## Runs -/

/-- The file to be rendered: the source, parsed. -/
def sourceFile (world : World) (o : Options) : Except Stop File := do
  let source ← sourceText world o.inputFile
  (File.parse source).mapError fun e => .failed (.refusedSource e)

/-- When the mapping files are loaded, nothing but the source can be refused. -/
theorem prepare_of_loaded {world : World} {o : Options} {table : Table}
    (loaded : readAllMappings world o.mappingFiles = .ok table) :
    prepare world o = (sourceFile world o).map fun file => (table, file) := by
  rw [prepare, loaded, sourceFile]
  cases sourceText world o.inputFile with
  | error stop => rfl
  | ok source =>
    cases parsed : File.parse source <;>
      simp [bind, Except.bind, Except.map, Except.mapError, parsed]

/-- Arguments spell settings in one way only. -/
theorem Spells.unique {memory : Nat} {settings others : List Setting} {args : List String}
    (spells : Spells memory settings args) (others_spell : Spells memory others args) :
    settings = others := by
  induction spells generalizing others with
  | nil =>
    cases others_spell
    rfl
  | value word _ _ ih =>
    cases others_spell with
    | value word' _ rest =>
      rw [word] at word'
      cases word'
      rw [ih rest]
    | input names =>
      rw [names.not_flag] at word
      cases word
  | input names _ ih =>
    cases others_spell with
    | value word =>
      rw [names.not_flag] at word
      cases word
    | input _ rest => rw [ih rest]

/-- Arguments that make a run spell settings, and the run is one with them. -/
theorem exists_spells_of_ofArgs {memory : Nat} {args : List String} {o : Options}
    (accepted : Command.ofArgs memory args = .ok (.run o)) :
    ∃ settings, Spells memory settings args ∧ o = .ofSettings memory settings := by
  obtain ⟨settings, spelled, rest, rfl, spells, -, stops⟩ :=
    Command.exists_readsTo memory args [] (Nat.zero_le 1)
  have first : Command.ofArgsAfter memory (.ofSettings memory []) (spelled ++ rest) = .ok (.run o) :=
    accepted
  rw [List.nil_append, first] at stops
  cases stops
  rw [List.append_nil]
  exact ⟨settings, spells, rfl⟩

/-- The settings ask for the same: for the same mappings and the same mapping files, each kind in the same
order, for the same last value of every other flag, and for the same source. -/
structure AskAlike (settings others : List Setting) : Prop where
  map : valuesOf .map others = valuesOf .map settings
  mappings : valuesOf .mappings others = valuesOf .mappings settings
  last : ∀ flag, flag ≠ .map → flag ≠ .mappings → lastValue? flag others = lastValue? flag settings
  input : inputsOf others = inputsOf settings

theorem AskAlike.ofSettings_eq {settings others : List Setting} (alike : AskAlike settings others)
    (memory : Nat) : Options.ofSettings memory others = .ofSettings memory settings := by
  unfold Options.ofSettings
  rw [alike.map, alike.mappings, alike.input]
  iterate 6 rw [alike.last _ (by decide) (by decide)]

/-- How arguments are interleaved does not show. If all mapping files of a run load, the mappings that it
renders with give each name the text of the last mapping for it on the command line, if there is one, or
else its text in the last of the files that has it, with what is filled in for surrogates, or else nothing.
Runs whose arguments ask for the same come to the same. -/
theorem run_interleaved (world : World) {args : List String} {o : Options}
    (accepted : Command.ofArgs world.memory args = .ok (.run o)) :
    ∃ settings, Spells world.memory settings args ∧
      ((∀ path ∈ valuesOf .mappings settings, ∃ table, readMappings world path = .ok table) →
        ∃ entries tables,
          List.Forall₂ IsEntry (valuesOf .map settings) entries ∧
          List.Forall₂ (HoldsTable world) (valuesOf .mappings settings) tables ∧
          prepare world o = (sourceFile world o).map (fun file => (tables.flatten, file)) ∧
          ∀ standIn name, (o.config tables.flatten standIn).mappings.find? name =
            (entries.reverse.lookup name).or
              ((tables.reverse.findSome? (List.lookup (CodePoints.ofString name))).map
                (CodePoints.fill standIn))) ∧
      ∀ args' o' settings', Command.ofArgs world.memory args' = .ok (.run o') →
        Spells world.memory settings' args' → AskAlike settings settings' →
        run world args' = run world args := by
  obtain ⟨settings, spells, rfl⟩ := exists_spells_of_ofArgs accepted
  refine ⟨settings, spells, fun load => ?_, fun args' o' settings' accepted' spells' alike => ?_⟩
  · obtain ⟨tables, hold, loaded⟩ := readAllMappings_eq_ok load
    refine ⟨_, tables, forall₂_isEntry spells.takes, hold, prepare_of_loaded loaded,
      fun standIn name => ?_⟩
    show (insertAll {} (Table.fill tables.flatten standIn ++ _)).find? name = _
    have reversed : (Table.fill tables.flatten standIn).reverse =
        Table.fill tables.flatten.reverse standIn := List.filterMap_reverse.symm
    rw [find?_insertAll, List.reverse_append, List.lookup_append, reversed, lookup_fill,
      lookup_reverse_flatten hold]
    exact Option.or_none
  · obtain ⟨others, spelled, rfl⟩ := exists_spells_of_ofArgs accepted'
    obtain rfl := spells'.unique spelled
    rw [alike.ofSettings_eq] at accepted'
    rw [run, run, accepted, accepted']

/-- A file between two mappings for a name that it has, too, does not come between them; and a word that
looks like a flag is the value of the flag before it. -/
theorem run_interleaved_files :
    let world : World := { read := fun path =>
                             [("m", "\x7b\"T\": \"a\", \"U\": \"b\"\x7d".toUTF8.toList)].lookup path,
                           writable := fun _ => true, stdin := "type A []T".toUTF8.toList }
    let args := ["--map", "T=x", "--mappings", "m", "--heading", "--map", "--map", "T=y"]
    let args' := ["--mappings", "m", "--heading", "z", "--map", "T=x", "--heading", "--map", "--map", "T=y"]
    (∃ o table file, Command.ofArgs world.memory args = .ok (.run o) ∧
      prepare world o = .ok (table, file) ∧
      ∀ standIn, (o.config table standIn).mappings.find? "T" = some "y") ∧
    run world args' = run world args := by
  intro world args args'
  let settings : List Setting := [.value .map "T=x", .value .mappings "m", .value .heading "--map",
    .value .map "T=y"]
  let others : List Setting := [.value .mappings "m", .value .heading "z", .value .map "T=x",
    .value .heading "--map", .value .map "T=y"]
  have entry : ∀ text, Flag.map.Takes world.memory ("T=" ++ text) := fun text =>
    ⟨['T'], text.toList, by decide, by decide, by simp⟩
  have spells : Spells world.memory settings args :=
    .value rfl (entry "x") (.value rfl trivial (.value rfl trivial (.value rfl (entry "y") .nil)))
  have spells' : Spells world.memory others args' :=
    .value rfl trivial (.value rfl trivial (.value rfl (entry "x") (.value rfl trivial
      (.value rfl (entry "y") .nil))))
  have accepted : Command.ofArgs world.memory args = .ok (.run (.ofSettings world.memory settings)) :=
    Command.ofArgsAfter_append spells [] [] (Nat.zero_le 1)
  have accepted' : Command.ofArgs world.memory args' = .ok (.run (.ofSettings world.memory others)) :=
    Command.ofArgsAfter_append spells' [] [] (Nat.zero_le 1)
  obtain ⟨_, spelled, mapped, alike⟩ := run_interleaved world accepted
  obtain rfl := spells.unique spelled
  refine ⟨?_, alike args' _ _ accepted' spells' ⟨rfl, rfl, ?_, rfl⟩⟩
  · have loads : (readMappings world "m").toOption.map List.length = some 2 := by decide +kernel
    have parses : (sourceFile world {}).toOption.map (fun file => file.decls.length) = some 1 := by
      decide +kernel
    obtain ⟨table, loaded, -⟩ := exists_of_toOption_map loads
    obtain ⟨file, parsed, -⟩ := exists_of_toOption_map parses
    obtain ⟨entries, tables, hentries, -, prepared, found⟩ :=
      mapped fun path mem => List.mem_singleton.1 mem ▸ ⟨table, loaded⟩
    have source : sourceFile world (.ofSettings world.memory settings) = .ok file := parsed
    rw [source] at prepared
    refine ⟨_, tables.flatten, file, accepted, prepared, fun standIn => ?_⟩
    have hentries : List.Forall₂ IsEntry ["T=x", "T=y"] entries := hentries
    obtain ⟨first, _, -, others, rfl⟩ := List.forall₂_cons_left_iff.1 hentries
    obtain ⟨last, _, isLast, none, rfl⟩ := List.forall₂_cons_left_iff.1 others
    obtain rfl := List.forall₂_nil_left_iff.1 none
    have read : mapEntry? "T=y" = some ("T", "y") := by decide
    obtain rfl := Option.some.inj (read.symm.trans (mapEntry?_eq_some_iff.2 isLast))
    rw [found]
    rfl
  · intro flag _ _
    cases flag <;> rfl

end Cli

end Typings
