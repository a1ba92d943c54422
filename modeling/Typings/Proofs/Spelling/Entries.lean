import Typings.Proofs.Spelling.Grammar

/-!
# The entries of a list and their names

A list is read entry by entry, before it is known whether its entries have names. `EntriesSpelled`
is the spelling of entries as they are read; grouping them under their names keeps it
(`Spells.of_fieldsOf`), so that no name is lost or moved to another type.
-/

namespace Typings

open Typings.Parser (Entry GroupsTo fieldsOf groupsTo_of_groupNames)

/-- Some lexemes spell an entry: its name, if it has one, and its type. -/
def Parser.Entry.Spelled (e : Entry) (ws : List Lexeme) : Prop :=
  ∃ vs, Spells (.expr .entry e.type) vs ∧ ws = (e.name.map Lexeme.ident).toList ++ vs

/-- Some lexemes spell entries with commas between them, at least one. -/
inductive EntriesSpelled : List Entry → List Lexeme → Prop
  | one {e : Entry} {ws : List Lexeme} : e.Spelled ws → EntriesSpelled [e] ws
  | more {e : Entry} {es : List Entry} {ws vs : List Lexeme} :
    e.Spelled ws → EntriesSpelled es vs → EntriesSpelled (e :: es) (ws ++ .op .comma :: vs)

theorem spellNames_cons (name : String) (names : List String) :
    spellNames (name :: names) = .ident name :: names.flatMap fun n => [.op .comma, .ident n] := by
  induction names generalizing name with
  | nil => rfl
  | cons n ns ih =>
    show .ident name :: .op .comma :: spellNames (n :: ns) = _
    rw [ih n]
    rfl

theorem spellNames_concat (names : List String) (name : String) :
    spellNames (names ++ [name]) = (names.flatMap fun n => [.ident n, .op .comma]) ++ [.ident name] := by
  induction names with
  | nil => rfl
  | cons n ns ih =>
    rw [List.flatMap_cons, List.append_assoc, ← ih]
    cases ns <;> rfl

/-- A plain name is spelled by itself alone. -/
theorem Spells.eq_of_entry_name {name : String} {ws : List Lexeme}
    (h : Spells (.expr .entry (.name name)) ws) : ws = [.ident name] := by
  cases h with
  | entryType h =>
    cases h with
    | typeName h =>
      cases h with
      | name => rfl

/-- Where no entry is left, no name is. -/
theorem Parser.GroupsTo.pending_eq_nil {pending : List String} {fields : List Field}
    (h : GroupsTo pending [] fields) : pending = [] := by
  cases h
  rfl

/-- Grouping entries under their names keeps their spelling; the names that are pending stand in
front of it, each with a comma. -/
theorem Spells.of_groupsTo {es : List Entry} {ws : List Lexeme} (h : EntriesSpelled es ws)
    {pending : List String} {fields : List Field} (groups : GroupsTo pending es fields) :
    Spells (.entries true fields) ((pending.flatMap fun n => [.ident n, .op .comma]) ++ ws) := by
  induction h generalizing pending fields with
  | one spelled =>
    obtain ⟨vs, spells, rfl⟩ := spelled
    cases groups with
    | field rest =>
      cases rest
      rw [Option.map_some, Option.toList_some, ← List.append_assoc, ← spellNames_concat]
      exact .lastEntry (by simp) spells
    | name rest => exact absurd rest.pending_eq_nil (by simp)
  | more spelled _ ih =>
    obtain ⟨us, spells, rfl⟩ := spelled
    cases groups with
    | field rest =>
      rw [Option.map_some, Option.toList_some, List.append_assoc, ← List.append_assoc,
        ← spellNames_concat, ← List.append_assoc]
      exact .moreEntries (by simp) spells (ih rest)
    | name rest =>
      have grouped := ih rest
      rw [spells.eq_of_entry_name]
      simpa only [List.flatMap_append, List.flatMap_cons, List.flatMap_nil, List.append_nil,
        List.append_assoc, List.cons_append, List.nil_append, Option.map_none,
        Option.toList_none] using grouped

theorem Spells.of_unnamed {es : List Entry} {ws : List Lexeme} (h : EntriesSpelled es ws)
    (unnamed : es.any (fun e => e.name.isSome) = false) :
    Spells (.entries false (es.map fun e => { names := [], type := e.type, comment := e.comment }))
      ws := by
  induction h with
  | @one e ws spelled =>
    obtain ⟨vs, spells, rfl⟩ := spelled
    have none : e.name = none := by simpa using unnamed
    rw [none]
    exact .lastEntry rfl spells
  | @more e es ws vs spelled _ ih =>
    obtain ⟨us, spells, rfl⟩ := spelled
    rw [List.any_cons, Bool.or_eq_false_iff] at unnamed
    have none : e.name = none := by simpa using unnamed.1
    rw [none]
    exact .moreEntries rfl spells (ih unnamed.2)

theorem Spells.of_fieldsOf {es : List Entry} {ws : List Lexeme} (h : EntriesSpelled es ws)
    {fields : List Field} (run : fieldsOf es = .ok fields) :
    ∃ named, Spells (.entries named fields) ws := by
  rw [fieldsOf] at run
  split at run
  · exact ⟨true, .of_groupsTo h (groupsTo_of_groupNames run)⟩
  · next unnamed =>
    cases run
    exact ⟨false, .of_unnamed h (by simpa only [Bool.not_eq_true] using unnamed)⟩

end Typings
