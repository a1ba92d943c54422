import Typings.Proofs.Brackets.Output
import Typings.Proofs.Lines.Files

/-!
# Indentation follows nesting

What declarations are rendered as does not depend on the indentation (`TsDecl.ofDecls_withIndent`): it is
read for margins only. And the margin of each line is that of its level, the number of open braces before
it. So the text of a file under an indentation is the text without one in which each line that is not
empty has the indentation of its level before it (`Rendering.text_eq_indented`).
-/

namespace Typings

/-! ## The indentation of a text -/

/-- Lines with so many braces open before them, each that is not empty behind the margin of its level. -/
def indentedLines (indent : List Char) (n : Nat) : List (List Char) → List (List Char)
  | [] => []
  | line :: lines =>
    (if line = [] then [] else (List.replicate (levelOf n line) indent).flatten ++ line) ::
      indentedLines indent (openBraces n line) lines

/-- The text in which each line that is not empty has the indentation before it once for each brace that
is open before the line, and once less if the line begins with a closing brace. -/
def indented (indent text : String) : String :=
  String.ofList (Text.joinWith ['\n'] (indentedLines indent.toList 0 (Text.splitLines text.toList)))

/-! ## Only margins depend on the indentation -/

/-- The context with another indentation. -/
def Context.withIndent (ctx : Context) (indent : String) : Context :=
  { ctx with config := { ctx.config with indent := indent } }

/-- Every type is rendered alike under another indentation, with so much room. -/
def RendersUnindented (ctx : Context) (indent : String) (room : Nat) : Prop :=
  ∀ slot x, TsType.ofExpr (ctx.withIndent indent) room slot x = TsType.ofExpr ctx room slot x

namespace RendersUnindented

variable {ctx : Context} {indent : String} {room : Nat} (h : RendersUnindented ctx indent room)

include h

/-- Types are rendered the same with every indentation. -/
theorem typesOf (xs : List TypeExpr) :
    Typings.typesOf (ctx.withIndent indent) room xs = Typings.typesOf ctx room xs := by
  rw [typesOf_eq_map, typesOf_eq_map]
  exact List.map_congr_left fun x _ => h .part x

/-- Members of a struct are rendered the same with every indentation. -/
theorem structMembers (fs : List Field) :
    Typings.structMembers (ctx.withIndent indent) room fs = Typings.structMembers ctx room fs := by
  induction fs with
  | nil => rfl
  | cons f fs ih =>
    rw [structMembers_cons, structMembers_cons, ih, h]
    rfl

/-- Members of an interface are rendered the same with every indentation. -/
theorem interfaceMembers (fs : List Field) :
    Typings.interfaceMembers (ctx.withIndent indent) room fs = Typings.interfaceMembers ctx room fs := by
  induction fs with
  | nil => rfl
  | cons f fs ih =>
    rw [interfaceMembers_cons, interfaceMembers_cons, ih, h]
    rfl

/-- Parameters are rendered the same with every indentation. -/
theorem paramsFrom (i : Nat) (fs : List Field) :
    Typings.paramsFrom (ctx.withIndent indent) room i fs = Typings.paramsFrom ctx room i fs := by
  induction fs generalizing i with
  | nil => rfl
  | cons f fs ih => rw [paramsFrom_cons, paramsFrom_cons, ih, h]

/-- Results are rendered the same with every indentation. -/
theorem resultsOf (fs : List Field) :
    Typings.resultsOf (ctx.withIndent indent) room fs = Typings.resultsOf ctx room fs := by
  induction fs with
  | nil => rfl
  | cons f fs ih => rw [resultsOf_cons, resultsOf_cons, ih, h]

/-- One level more. -/
theorem succ : RendersUnindented ctx indent (room + 1) := by
  intro slot x
  cases x with
  | pointer x => rw [TsType.ofExpr, TsType.ofExpr, h]
  | variadic elt => rw [TsType.ofExpr, TsType.ofExpr, h]
  | array elt length => rw [TsType.ofExpr, TsType.ofExpr, h]
  | struct fields => rw [TsType.ofExpr, TsType.ofExpr, h.structMembers]
  | interface methods => rw [TsType.ofExpr, TsType.ofExpr, h.interfaceMembers]
  | paren x => rw [TsType.ofExpr, TsType.ofExpr, h]
  | binary x op y => rw [TsType.ofExpr, TsType.ofExpr, h, h]
  | func params results typeParams =>
    rw [TsType.ofExpr, TsType.ofExpr, h.paramsFrom, h.resultsOf]
  | unary op x => rw [TsType.ofExpr, TsType.ofExpr, h]
  | generic x args => rw [TsType.ofExpr, TsType.ofExpr, h, h.typesOf]
  | _ => rfl

end RendersUnindented

/-- The indentation does not reach what is rendered, only how it is written. By induction on the room and
the type. -/
theorem rendersUnindented (ctx : Context) (indent : String) (room : Nat) :
    RendersUnindented ctx indent room := by
  induction room with
  | zero =>
    intro slot x
    rw [TsType.ofExpr, TsType.ofExpr]
    rfl
  | succ room ih => exact ih.succ

namespace TsDecl

variable (ctx : Context) (indent : String)

theorem basesOf_withIndent (fields : List Field) :
    basesOf (ctx.withIndent indent) fields = basesOf ctx fields :=
  List.map_congr_left fun x _ => rendersUnindented ctx indent ctx.room .base x

theorem ofTypeSpec?_withIndent (spec : TypeSpec) :
    ofTypeSpec? (ctx.withIndent indent) spec = ofTypeSpec? ctx spec := by
  obtain ⟨name, type, typeParams, doc, comment, isAlias⟩ := spec
  have inner : (ctx.withIndent indent).within (Field.allNames typeParams) =
      (ctx.within (Field.allNames typeParams)).withIndent indent := rfl
  unfold ofTypeSpec?
  dsimp only
  rw [inner]
  generalize ctx.within (Field.allNames typeParams) = ctx
  have renders := rendersUnindented ctx indent ctx.room
  rw [show (ctx.withIndent indent).room = ctx.room from rfl]
  split
  · cases type with
    | struct fields =>
      dsimp only
      rw [basesOf_withIndent, renders.structMembers]
    | interface methods =>
      dsimp only
      rw [basesOf_withIndent, renders.interfaceMembers]
    | _ =>
      dsimp only
      rw [renders]
  · rfl

theorem ofMethod?_withIndent (decl : FuncDecl) (recv : Field) :
    ofMethod? (ctx.withIndent indent) decl recv = ofMethod? ctx decl recv := by
  have inner : ∀ names, (ctx.withIndent indent).within names = (ctx.within names).withIndent indent :=
    fun _ => rfl
  rw [ofMethod?, ofMethod?]
  dsimp only
  rw [inner, rendersUnindented]
  rfl

theorem ofFunction?_withIndent (decl : FuncDecl) :
    ofFunction? (ctx.withIndent indent) decl = ofFunction? ctx decl := by
  have inner : ∀ names, (ctx.withIndent indent).within names = (ctx.within names).withIndent indent :=
    fun _ => rfl
  rw [ofFunction?, ofFunction?]
  dsimp only
  rw [inner, rendersUnindented]
  rfl

/-- A declaration is rendered the same with every indentation. -/
theorem ofDecl_withIndent (d : Decl) : ofDecl (ctx.withIndent indent) d = ofDecl ctx d := by
  cases d with
  | typeSpec spec => exact congrArg Except.ok (ofTypeSpec?_withIndent ctx indent spec)
  | func decl =>
    refine congrArg Except.ok ?_
    cases decl.recv with
    | none => exact ofFunction?_withIndent ctx indent decl
    | some recv => exact ofMethod?_withIndent ctx indent decl recv
  | unknown => rfl

/-- The indentation does not matter for what declarations are rendered as. -/
theorem ofDecls_withIndent (ds : List Decl) : ofDecls (ctx.withIndent indent) ds = ofDecls ctx ds := by
  induction ds with
  | nil => rfl
  | cons d ds ih => rw [ofDecls, ofDecls, ofDecl_withIndent, ih]

end TsDecl

/-! ## Lines of files -/

namespace Line

/-- Without an indentation, a line is its content. -/
theorem chars_empty (l : Line) : l.chars "" = l.content.toList := by
  have none : indentText "" l.level = "" :=
    @Text.join_of (· = "") rfl (fun ha hb => by rw [ha, hb]; rfl) _
      fun text mem => List.eq_of_mem_replicate mem
  rw [chars, text, none, String.empty_append]

/-- A line is its indentation, once for each level, and its content. -/
theorem chars_eq (indent : String) (l : Line) :
    l.chars indent = (List.replicate l.level indent.toList).flatten ++ l.content.toList := by
  have margin : (indentText indent l.level).toList = (List.replicate l.level indent.toList).flatten := by
    rw [indentText, Int.toNat_natCast, String.toList_join, List.flatMap_def,
      List.map_replicate]
  rw [chars, text, String.toList_append, margin]

/-- Lines at the levels of their places are the indented lines of their contents. -/
theorem indentedLines_eq (indent : String) {n m : Nat} {ls : List Line} (nested : Nested n ls m)
    (full : ∀ l ∈ ls, l = empty ∨ l.IsFull) :
    indentedLines indent.toList n (ls.map fun l => l.content.toList) = ls.map (chars indent) := by
  induction ls generalizing n with
  | nil => rfl
  | cons l ls ih =>
    obtain ⟨level, rest⟩ := nested
    obtain ⟨here, behind⟩ := List.forall_mem_cons.1 full
    rw [List.map_cons, List.map_cons, indentedLines, ih rest behind]
    congr 1
    rcases here with rfl | here
    · rfl
    · rw [if_neg fun none => here.content_ne (String.toList_eq_nil_iff.1 none), chars_eq, level]

end Line

/-- An empty line at the end is not indented. -/
theorem indentedLines_append (indent : List Char) (n : Nat) (lines : List (List Char)) :
    indentedLines indent n (lines ++ [[]]) = indentedLines indent n lines ++ [[]] := by
  induction lines generalizing n with
  | nil => rfl
  | cons line lines ih => exact congrArg _ (ih _)

/-- Lines with an empty one at the end are lines that each end with a newline. -/
theorem Text.joinWith_append_empty (lines : List (List Char)) :
    joinWith ['\n'] (lines ++ [[]]) = lines.flatMap (· ++ ['\n']) := by
  induction lines with
  | nil => rfl
  | cons line lines ih =>
    rw [List.cons_append, joinWith, ih, List.flatMap_cons]
    exact fun none => List.append_ne_nil_of_right_ne_nil lines (List.cons_ne_nil [] []) none

/-- Lines at the levels of their places are their contents, indented. -/
theorem Line.texts_eq_indented (indent : String) {m : Nat} {ls : List Line} (nested : Nested 0 ls m)
    (full : ∀ l ∈ ls, l = empty ∨ l.IsFull) : texts indent ls = indented indent (texts "" ls) := by
  have contents : ls.map (chars "") = ls.map fun l => l.content.toList :=
    List.map_congr_left fun l _ => l.chars_empty
  have lines : ∀ l ∈ ls.map fun l => l.content.toList, '\n' ∉ l := by
    refine List.forall_mem_map.2 fun l mem => ?_
    rcases full l mem with rfl | here
    · exact List.not_mem_nil
    · exact here.line
  rw [indented, toList_texts, contents, Text.splitLines_flatMap lines, indentedLines_append,
    indentedLines_eq indent nested full, Text.joinWith_append_empty, ← toList_texts, String.ofList_toList]

/-! ## Sources -/

namespace Rendering

/-- Indentation follows nesting: the declarations of a source are rendered under an indentation as they
are without one, but that each line that is not empty has the indentation before it once for each brace
that is open before the line, and once less if the line begins with a closing brace. The indentation
may be any text, braces included. -/
theorem text_eq_indented {config : Config} {source : String} {file : File}
    (parsed : File.parse source = .ok file) (heading : config.heading = "")
    (startModifier : Unmarked config.startModifier)
    (mappings : ∀ entry ∈ config.mappings.entries, Unmarked entry.2)
    (fieldNames : config.fieldNames = .keep ∨ config.fieldNames = .camel)
    (methodNames : config.methodNames = .keep ∨ config.methodNames = .camel)
    (comments : ∀ r ∈ file.remarks, ∀ comment ∈ r.comments,
      '\x7b' ∉ comment.toList ∧ '\x7d' ∉ comment.toList)
    (indent : String) :
    ∃ r plain, ofDecls { config with indent := indent } file.decls = .ok r ∧
      ofDecls { config with indent := "" } file.decls = .ok plain ∧
      r.text = indented indent plain.text := by
  have adds : config.AddsFlat True := ⟨heading, .of_unmarked startModifier,
    fun entry mem => .of_unmarked (mappings entry mem), fieldNames, methodNames⟩
  have words : ∀ d ∈ file.decls, d.WordsIn (Flat True) :=
    File.wordsIn_of_parse parsed Flat.ofIdent (.of_unmarked (by decide))
  have flat : ∀ d ∈ file.decls, d.IsFlat True := fun d mem =>
    ⟨words d mem, fun r remark _ => comments r (List.mem_flatMap.2 ⟨d, mem, remark⟩)⟩
  obtain ⟨ts, rendered, laid⟩ : ∃ ts, TsDecl.ofDecls { config := config } file.decls = .ok ts ∧
      ∀ t ∈ ts, t.IsLaid True config.startModifier :=
    TsDecl.forall_ofDecls fun d mem => @TsDecl.laid_ofDecl _ { config := config } adds _ (flat d mem)
  have unindented : ∀ w, TsDecl.ofDecls { config := { config with indent := w } } file.decls = .ok ts :=
    fun w => (TsDecl.ofDecls_withIndent { config := config } w file.decls).trans rendered
  obtain ⟨first, parts, all, lines⟩ := exists_parts_fileText adds laid
  obtain ⟨r, run, text⟩ := exists_of_ofDecls (unindented indent)
  obtain ⟨plain, run', text'⟩ := exists_of_ofDecls (unindented "")
  refine ⟨r, plain, run, run', ?_⟩
  have nested := Line.nested_separated (nested_of_parts all trivial)
  have full : ∀ l ∈ Line.separated (first :: parts), l = .empty ∨ l.IsFull :=
    Line.forall_mem_separated (.inl rfl) fun ls among l mem => .inr (full_of_parts all ls among l mem)
  rw [text, text', lines, lines]
  exact Line.texts_eq_indented indent nested full

/-- Bodies in a base, in a parameter, in a result and in a tuple, under an indentation that is itself a
closing brace. -/
theorem text_eq_indented_cart :
    let config : Config := { startModifier := "export", mappings := ⟨[("int", "Int<32>")]⟩ }
    let source := "// A cart.\ntype Cart[T any] struct \x7b\n\tBase[struct \x7b X int \x7d]\n" ++
      "\t// In.\n\tIn struct \x7b\n\t\tOn func(x interface \x7b Do(s struct \x7b A int \x7d) \x7d) " ++
      "(int, struct \x7b B bool \x7d) // on\n\t\x7d\n\x7d"
    ∃ file r plain, File.parse source = .ok file ∧
      ofDecls { config with indent := "\x7d" } file.decls = .ok r ∧
      ofDecls { config with indent := "" } file.decls = .ok plain ∧
      r.text = "export type _TygojaDict = \x7b [key:string | number | symbol]: any; \x7d\n\n" ++
        "/**\n * A cart.\n */\nexport interface Cart<T> extends Base<\x7b\n\x7dX: Int<32>\n\x7d> " ++
        "\x7b\n\x7d/**\n\x7d * In.\n\x7d */\n\x7dIn: \x7b\n\x7d\x7dOn: (x: \x7b\n\x7d\x7d\x7dDo(s: \x7b\n" ++
        "\x7d\x7d\x7d\x7dA: Int<32>\n\x7d\x7d\x7d\x7d): void\n\x7d\x7d\x7d) => [Int<32>, \x7b\n" ++
        "\x7d\x7d\x7dB: boolean\n\x7d\x7d\x7d] // on\n\x7d\x7d\n\x7d\n" ∧
      r.text = indented "\x7d" plain.text := by
  intro config source
  have said : (File.parse source).toOption.map (fun file => file.remarks.flatMap Remark.comments) =
      some ["// A cart.", "// In.", "// on"] := by
    decide +kernel
  have written : (ofSource { config with indent := "\x7d" } source).toOption.map Rendering.text =
      some ("export type _TygojaDict = \x7b [key:string | number | symbol]: any; \x7d\n\n" ++
        "/**\n * A cart.\n */\nexport interface Cart<T> extends Base<\x7b\n\x7dX: Int<32>\n\x7d> " ++
        "\x7b\n\x7d/**\n\x7d * In.\n\x7d */\n\x7dIn: \x7b\n\x7d\x7dOn: (x: \x7b\n\x7d\x7d\x7dDo(s: \x7b\n" ++
        "\x7d\x7d\x7d\x7dA: Int<32>\n\x7d\x7d\x7d\x7d): void\n\x7d\x7d\x7d) => [Int<32>, \x7b\n" ++
        "\x7d\x7d\x7dB: boolean\n\x7d\x7d\x7d] // on\n\x7d\x7d\n\x7d\n") := by
    decide +kernel
  obtain ⟨file, parsed, said⟩ := exists_of_toOption_map said
  obtain ⟨r', run', text⟩ := exists_of_toOption_map written
  have comments : ∀ r ∈ file.remarks, ∀ comment ∈ r.comments,
      '\x7b' ∉ comment.toList ∧ '\x7d' ∉ comment.toList := by
    intro r remark comment mem
    have among := List.mem_flatMap.2 ⟨r, remark, mem⟩
    rw [said] at among
    exact (by decide : ∀ comment ∈ ["// A cart.", "// In.", "// on"],
      '\x7b' ∉ comment.toList ∧ '\x7d' ∉ comment.toList) comment among
  obtain ⟨r, plain, run, bare, same⟩ := @text_eq_indented config _ _ parsed rfl (by decide)
    (List.forall_mem_singleton.2 (by decide)) (.inl rfl) (.inl rfl) comments "\x7d"
  obtain rfl : r' = r := Except.ok.inj (run'.symm.trans (ofSource_eq_ok parsed run))
  exact ⟨file, r', plain, parsed, run, bare, text, same⟩

end Rendering

end Typings
