import Typings.Proofs.Comments.Slashless

/-!
# Comments are inert

Whatever the comments of a source say, the file that its declarations are rendered as differs from the
one without comments in nothing but the comments, as long as each comment behind a line stands on one line
(`Rendering.stripComments_text_iff`): each ends where it should, and nothing else is taken for one. A source
has no newline in such a comment, but it may have another character that ends a line, and what is behind
that is no comment any more (`Rendering.stripComments_text_ne`).
-/

namespace Typings

open TsWord (IsBlank)

theorem Rendering.exists_of_ofDecls {config : Config} {decls : List Decl} {ds : List TsDecl}
    (h : TsDecl.ofDecls { config := config } decls = .ok ds) :
    ∃ r, ofDecls config decls = .ok r ∧ r.text = fileText config ds := by
  rw [ofDecls, h]
  exact ⟨_, rfl, rfl⟩

/-- The declarations of any source are rendered. Their text with the comments taken out is the text of the
same declarations without documentation and comments exactly if each comment that is written behind a member
or a declaration stands on one line. -/
theorem Rendering.stripComments_text_iff {source : String} {file : File} {config : Config}
    (parsed : File.parse source = .ok file) (blank : IsBlank config.indent)
    (fields : config.fieldNames = .keep ∨ config.fieldNames = .camel)
    (methods : config.methodNames = .keep ∨ config.methodNames = .camel)
    (heading : Slashless config.heading) (modifier : Slashless config.startModifier)
    (mappings : ∀ entry ∈ config.mappings.entries, Slashless entry.2) :
    ∃ ds r r', TsDecl.ofDecls { config := config } file.decls = .ok ds ∧
      Rendering.ofDecls config file.decls = .ok r ∧
      Rendering.ofDecls config (file.decls.map Decl.bare) = .ok r' ∧
      (stripComments r.text = r'.text ↔ ∀ d ∈ ds, ∀ note ∈ d.lineNotes, IsOneLine note) := by
  have adds : config.AddsNoSlash :=
    ⟨mappings, NameStyle.slashless_apply fields, NameStyle.slashless_apply methods⟩
  have words := File.wordsIn_of_parse parsed Slashless.ofIdent (by decide)
  obtain ⟨ds, rendered, plain⟩ : ∃ ds, TsDecl.ofDecls { config := config } file.decls = .ok ds ∧
      ∀ d ∈ ds, d.Plain := TsDecl.plain_ofDecls adds words
  have bare := TsDecl.ofDecls_bare { config := config } file.decls
  rw [rendered] at bare
  obtain ⟨r, run, text⟩ := exists_of_ofDecls rendered
  obtain ⟨r', run', text'⟩ := exists_of_ofDecls bare
  refine ⟨ds, r, r', rendered, run, run', ?_⟩
  rw [text, text']
  exact stripComments_fileText_iff blank heading modifier plain

/-- Marks of comments inside the documentation, behind a field and behind a parameter. -/
theorem Rendering.stripComments_text_iff_marks :
    ∃ file r r',
      File.parse ("// Ends */ here.\ntype Cart struct \x7b\n\tTotal int // at /* least\n" ++
        "\tAdd func(n int, // or */ more\n\t)\n\x7d") = .ok file ∧
      r.text = "type _TygojaDict = \x7b [key:string | number | symbol]: any; \x7d\n\n" ++
        "/**\n * Ends *\\/ here.\n */\ninterface Cart \x7b\n  Total: number // at /* least\n" ++
        "  Add: (n: number /* or *\\/ more */) => void\n\x7d\n" ∧
      Rendering.ofDecls {} file.decls = .ok r ∧
      Rendering.ofDecls {} (file.decls.map Decl.bare) = .ok r' ∧ stripComments r.text = r'.text := by
  have summary : (File.parse ("// Ends */ here.\ntype Cart struct \x7b\n\tTotal int // at /* least\n" ++
        "\tAdd func(n int, // or */ more\n\t)\n\x7d")).toOption.map (fun file =>
      ((Rendering.ofDecls {} file.decls).toOption.map Rendering.text,
        (TsDecl.ofDecls { config := {} } file.decls).toOption.map (List.flatMap TsDecl.lineNotes))) =
      some (some ("type _TygojaDict = \x7b [key:string | number | symbol]: any; \x7d\n\n" ++
        "/**\n * Ends *\\/ here.\n */\ninterface Cart \x7b\n  Total: number // at /* least\n" ++
        "  Add: (n: number /* or *\\/ more */) => void\n\x7d\n"), some ["at /* least", ""]) := by
    decide +kernel
  obtain ⟨file, parsed, both⟩ := exists_of_toOption_map summary
  obtain ⟨text, notes⟩ := Prod.mk.inj both
  obtain ⟨ds, r, r', rendered, run, run', iff⟩ := @stripComments_text_iff _ _ {} parsed (by decide)
    (.inl rfl) (.inl rfl) (by decide) (by decide) (List.forall_mem_nil _)
  rw [run] at text
  rw [rendered] at notes
  have one : ∀ note ∈ ds.flatMap TsDecl.lineNotes, IsOneLine note := by
    rw [Option.some.inj notes]
    decide
  refine ⟨file, r, r', parsed, Option.some.inj text, run, run', iff.2 fun d mem note among => ?_⟩
  exact one note (List.mem_flatMap_of_mem mem among)

/-- The comment behind the field has a line separator in it, and what is behind that reads as another
field. -/
theorem Rendering.stripComments_text_ne :
    ∃ file r r',
      File.parse "type A struct \x7b\n\tX int // a\u2028Y: string\n\x7d" = .ok file ∧
      Rendering.ofDecls {} file.decls = .ok r ∧
      Rendering.ofDecls {} (file.decls.map Decl.bare) = .ok r' ∧
      stripComments r.text = "type _TygojaDict = \x7b [key:string | number | symbol]: any; \x7d\n\n" ++
        "interface A \x7b\n  X: number\u2028Y: string\n\x7d\n" ∧
      r'.text = "type _TygojaDict = \x7b [key:string | number | symbol]: any; \x7d\n\n" ++
        "interface A \x7b\n  X: number\n\x7d\n" ∧
      stripComments r.text ≠ r'.text := by
  have summary : (File.parse "type A struct \x7b\n\tX int // a\u2028Y: string\n\x7d").toOption.map
      (fun file =>
        ((Rendering.ofDecls {} file.decls).toOption.map fun r => stripComments r.text,
          (Rendering.ofDecls {} (file.decls.map Decl.bare)).toOption.map Rendering.text)) =
      some (some ("type _TygojaDict = \x7b [key:string | number | symbol]: any; \x7d\n\n" ++
          "interface A \x7b\n  X: number\u2028Y: string\n\x7d\n"),
        some ("type _TygojaDict = \x7b [key:string | number | symbol]: any; \x7d\n\n" ++
          "interface A \x7b\n  X: number\n\x7d\n")) := by
    decide +kernel
  obtain ⟨file, parsed, both⟩ := exists_of_toOption_map summary
  obtain ⟨stripped, bare⟩ := Prod.mk.inj both
  obtain ⟨r, run, stripped⟩ := exists_of_toOption_map stripped
  obtain ⟨r', run', bare⟩ := exists_of_toOption_map bare
  refine ⟨file, r, r', parsed, run, run', stripped, bare, ?_⟩
  rw [stripped, bare]
  decide

end Typings
