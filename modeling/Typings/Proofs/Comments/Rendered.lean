import Typings.Proofs.Comments.Reader
import Typings.Rendering

/-!
# The comments in a rendered file

A rendered declaration without its comments (`TsDecl.bare`) is written as the declaration is with its
comments taken out of the text (`TsDecl.clears_bare`), given that its words have no slash in them
(`TsDecl.Plain`) and that each comment behind a line of it (`TsDecl.lineNotes`) stands on one line. Comments
of the other two kinds may hold anything: none ends early or runs on. A comment behind a line does end
early if it holds a character that ends a line, and then the text is another one
(`stripComments_fileText_iff`).
-/

namespace Typings

open TsWord (IsBlank isBlank_indentText)

/-! ## Without comments -/

mutual

/-- The rendered type without the comments in it. -/
def TsType.bare : TsType → TsType
  | .array elt => .array elt.bare
  | .bytes elt => .bytes elt.bare
  | .list elt => .list elt.bare
  | .paren x => .paren x.bare
  | .nullable x => .nullable x.bare
  | .binary x op y => .binary x.bare op y.bare
  | .generic base args => .generic base.bare (bareAll args)
  | .object members => .object (bareMembers members)
  | .arrow params result => .arrow (bareParams params) result.bare
  | .signature params result => .signature (bareParams params) result.bare
  | .tuple items => .tuple (bareAll items)
  | x => x

/-- The rendered types without the comments in them. -/
def bareAll : List TsType → List TsType
  | [] => []
  | x :: xs => x.bare :: bareAll xs

/-- The members without what is said about them. -/
def bareMembers : List TsMember → List TsMember
  | [] => []
  | ⟨_, key, optional, colon, type, _⟩ :: members =>
    ⟨[], key, optional, colon, type.bare, ""⟩ :: bareMembers members

/-- The parameters without what is said about them. -/
def bareParams : List TsParam → List TsParam
  | [] => []
  | ⟨spread, name, type, _⟩ :: params => ⟨spread, name, type.bare, ""⟩ :: bareParams params

end

/-- The member without what is said about it. -/
def TsMember.bare (m : TsMember) : TsMember := { m with doc := [], type := m.type.bare, note := "" }

/-- The parameter without what is said about it. -/
def TsParam.bare (p : TsParam) : TsParam := { p with type := p.type.bare, note := "" }

theorem bareAll_eq_map (xs : List TsType) : bareAll xs = xs.map TsType.bare := by
  induction xs with
  | nil => rfl
  | cons x xs ih => rw [bareAll, ih, List.map_cons]

theorem bareMembers_eq_map (ms : List TsMember) : bareMembers ms = ms.map TsMember.bare := by
  induction ms with
  | nil => rfl
  | cons m ms ih =>
    obtain ⟨doc, key, optional, colon, type, note⟩ := m
    rw [bareMembers, ih, List.map_cons]
    rfl

theorem bareParams_eq_map (ps : List TsParam) : bareParams ps = ps.map TsParam.bare := by
  induction ps with
  | nil => rfl
  | cons p ps ih =>
    obtain ⟨spread, name, type, note⟩ := p
    rw [bareParams, ih, List.map_cons]
    rfl

namespace TsType

theorem bare_generic (base : TsType) (args : List TsType) :
    (generic base args).bare = .generic base.bare (args.map bare) :=
  congrArg (generic base.bare) (bareAll_eq_map args)

theorem bare_object (members : List TsMember) :
    (object members).bare = .object (members.map TsMember.bare) :=
  congrArg object (bareMembers_eq_map members)

theorem bare_arrow (params : List TsParam) (result : TsType) :
    (arrow params result).bare = .arrow (params.map TsParam.bare) result.bare :=
  congrArg (arrow · result.bare) (bareParams_eq_map params)

theorem bare_signature (params : List TsParam) (result : TsType) :
    (signature params result).bare = .signature (params.map TsParam.bare) result.bare :=
  congrArg (signature · result.bare) (bareParams_eq_map params)

theorem bare_tuple (items : List TsType) : (tuple items).bare = .tuple (items.map bare) :=
  congrArg tuple (bareAll_eq_map items)

end TsType

/-- The rendered declaration without comments. -/
def TsDecl.bare : TsDecl → TsDecl
  | .interface _ name typeParams bases members =>
    .interface [] name typeParams (bareAll bases) (bareMembers members)
  | .synonym _ name typeParams type _ => .synonym [] name typeParams type.bare ""

theorem TsDecl.bare_interface (doc : List String) (name : String) (typeParams : List String)
    (bases : List TsType) (members : List TsMember) :
    (interface doc name typeParams bases members).bare =
      .interface [] name typeParams (bases.map TsType.bare) (members.map TsMember.bare) := by
  rw [TsDecl.bare, bareAll_eq_map, bareMembers_eq_map]

/-! ## Comments behind lines -/

mutual

/-- The comments behind the lines of a type, in the order in which they are written; empty ones are none. -/
def TsType.lineNotes : TsType → List String
  | .verbatim _ | .unresolved _ | .cut _ | .dropped _ => []
  | .array elt | .bytes elt | .list elt => elt.lineNotes
  | .paren x | .nullable x => x.lineNotes
  | .binary x _ y => x.lineNotes ++ y.lineNotes
  | .generic base args => base.lineNotes ++ lineNotesOfTypes args
  | .object members => lineNotesOfMembers members
  | .arrow params result | .signature params result => lineNotesOfParams params ++ result.lineNotes
  | .tuple items => lineNotesOfTypes items

/-- The comments behind the lines of types. -/
def lineNotesOfTypes : List TsType → List String
  | [] => []
  | x :: xs => x.lineNotes ++ lineNotesOfTypes xs

/-- The comments behind the lines of members, each behind those inside its type. -/
def lineNotesOfMembers : List TsMember → List String
  | [] => []
  | ⟨_, _, _, _, type, note⟩ :: members => (type.lineNotes ++ [note]) ++ lineNotesOfMembers members

/-- The comments behind the lines of parameters. -/
def lineNotesOfParams : List TsParam → List String
  | [] => []
  | ⟨_, _, type, _⟩ :: params => type.lineNotes ++ lineNotesOfParams params

end

theorem lineNotesOfTypes_eq_flatMap (xs : List TsType) :
    lineNotesOfTypes xs = xs.flatMap TsType.lineNotes := by
  induction xs with
  | nil => rfl
  | cons x xs ih => rw [lineNotesOfTypes, ih, List.flatMap_cons]

theorem lineNotesOfParams_eq_flatMap (ps : List TsParam) :
    lineNotesOfParams ps = ps.flatMap fun p => p.type.lineNotes := by
  induction ps with
  | nil => rfl
  | cons p ps ih =>
    obtain ⟨spread, name, type, note⟩ := p
    rw [lineNotesOfParams, ih, List.flatMap_cons]

/-- The comments behind the lines of a declaration. -/
def TsDecl.lineNotes : TsDecl → List String
  | .interface _ _ _ bases members => lineNotesOfTypes bases ++ lineNotesOfMembers members
  | .synonym _ _ _ type note => type.lineNotes ++ [note]

/-! ## Words without slashes -/

mutual

/-- No word of the type has a slash in it, and no comment behind a member a newline. -/
def TsType.Plain : TsType → Prop
  | .verbatim text => Slashless text
  | .unresolved name => Slashless name
  | .cut _ | .dropped _ => True
  | .array elt | .bytes elt | .list elt => elt.Plain
  | .paren x | .nullable x => x.Plain
  | .binary x op y => x.Plain ∧ Slashless op ∧ y.Plain
  | .generic base args => base.Plain ∧ PlainTypes args
  | .object members => PlainMembers members
  | .arrow params result | .signature params result => PlainParams params ∧ result.Plain
  | .tuple items => PlainTypes items

/-- The same of several types. -/
def PlainTypes : List TsType → Prop
  | [] => True
  | x :: xs => x.Plain ∧ PlainTypes xs

/-- The same of members. -/
def PlainMembers : List TsMember → Prop
  | [] => True
  | ⟨_, key, _, _, type, note⟩ :: members =>
    Slashless key ∧ type.Plain ∧ '\n' ∉ note.toList ∧ PlainMembers members

/-- The same of parameters. -/
def PlainParams : List TsParam → Prop
  | [] => True
  | ⟨_, name, type, _⟩ :: params => Slashless name ∧ type.Plain ∧ PlainParams params

end

/-- The same of a declaration. -/
def TsDecl.Plain : TsDecl → Prop
  | .interface _ name typeParams bases members =>
    Slashless name ∧ (∀ n ∈ typeParams, Slashless n) ∧ PlainTypes bases ∧ PlainMembers members
  | .synonym _ name typeParams type note =>
    Slashless name ∧ (∀ n ∈ typeParams, Slashless n) ∧ type.Plain ∧ '\n' ∉ note.toList

/-! ## Texts without slashes -/

theorem Slashless.append {u v : String} (h : Slashless u) (h' : Slashless v) : Slashless (u ++ v) := by
  unfold Slashless
  rw [String.toList_append]
  exact fun mem => (List.mem_append.1 mem).elim h h'

theorem Slashless.of_isBlank {text : String} (h : IsBlank text) : Slashless text := fun mem => by
  rcases h _ mem with same | same <;> cases same

/-- Lines in braces. -/
theorem Strips.body {notes : List String} {u v close : String} (h : Clears notes u v)
    (slashless : Slashless close) :
    Strips notes ("\x7b\n" ++ u ++ close) ("\x7b\n" ++ v ++ close) := by
  refine before ?_ slashless
  have chars : ∀ (w : String) rest, ("\x7b\n" ++ w).toList ++ rest =
      "\x7b".toList ++ '\n' :: (w.toList ++ rest) := by
    intro w rest
    rw [String.toList_append, List.append_assoc]
    rfl
  -- The opening brace and the newline behind it are read as they are, and then lines follow.
  have opening : ∀ b rest, withoutComments b (("\x7b\n" ++ u).toList ++ rest) =
      "\x7b".toList ++ '\n' :: withoutComments true (u.toList ++ rest) := by
    intro b rest
    rw [chars, reads_chars (by decide) _ (.of_head _ (by decide) rfl), withoutComments_lineEnd rfl]
  refine ⟨fun all b rest follows => ?_, fun broken b => ?_, fun rest _ => ?_⟩
  · rw [opening, h.reads all, withoutComments_of_quiet follows.quiet, String.toList_append,
      List.append_assoc]
    rfl
  · obtain ⟨kept, behind, bare, leaks⟩ := h.leaks broken
    refine ⟨"\x7b\n".toList ++ kept, behind, ?_, fun rest _ => ?_⟩
    · rw [String.toList_append, bare, List.append_assoc]
    · obtain ⟨c, out, other, left⟩ := leaks rest trivial
      refine ⟨c, out, other, ?_⟩
      rw [opening, left]
      rfl
  · rw [chars]
    exact .of_head _ (by decide) rfl

/-! ## Types -/

section

variable {indent : String}

/-- A member on its lines, given its type. -/
theorem TsMember.clears_bare (blank : IsBlank indent) {depth : Int} {m : TsMember} {type : TsType}
    {notes : List String} (key : Slashless m.key) (note : '\n' ∉ m.note.toList)
    (h : Strips notes (m.type.text indent depth) (type.text indent depth)) :
    Clears (notes ++ [m.note]) (m.block indent depth)
      (TsMember.block indent depth { m with doc := [], type := type, note := "" }) := by
  have margin := isBlank_indentText blank depth
  have sign : ∀ (b : Bool) (mark : String), Slashless mark → Slashless (if b then mark else "") := by
    intro b mark slashless
    cases b with
    | true => exact slashless
    | false => exact (by decide : Slashless "")
  have before := ((Slashless.of_isBlank margin).append key).append (sign m.optional "?" (by decide))
    |>.append (sign m.colon ": " (by decide))
  have line := (h.after before).line note
  have block := (Clears.docBlock margin m.doc).append line
  simp only [TsMember.block, WrittenMember.line, WrittenMember.text, TsMember.text, ← String.append_assoc]
    at block ⊢
  exact block

/-- A parameter, given its type. -/
theorem TsParam.strips_bare {depth : Int} {p : TsParam} {type : TsType} {notes : List String}
    (name : Slashless p.name) (h : Strips notes (p.type.text indent depth) (type.text indent depth)) :
    Strips notes (p.text indent depth)
      (TsParam.text indent depth { p with type := type, note := "" }) := by
  have dots : Slashless (if p.spread then "..." else "") := by
    cases p.spread <;> decide
  have both := (h.after ((dots.append name).append (by decide : Slashless ": "))).append (.paramNote p.note)
  rwa [List.append_nil] at both

/-- Types with commas between them. -/
theorem strips_types {indent : String} {depth : Int} {xs : List TsType}
    (h : ∀ x ∈ xs, Strips x.lineNotes (x.text indent depth) (x.bare.text indent depth)) :
    Strips (lineNotesOfTypes xs) (", ".intercalate (textsOfTypes indent depth xs))
      (", ".intercalate (textsOfTypes indent depth (bareAll xs))) := by
  have all := Strips.intercalate (by decide : Slashless ", ") h
  rw [lineNotesOfTypes_eq_flatMap, textsOfTypes_eq_map, textsOfTypes_eq_map, bareAll_eq_map, List.map_map]
  exact all

/-- Parameters with commas between them. -/
theorem strips_params {indent : String} {depth : Int} {ps : List TsParam}
    (h : ∀ p ∈ ps, Strips p.type.lineNotes (p.text indent depth) (p.bare.text indent depth)) :
    Strips (lineNotesOfParams ps) (", ".intercalate (textsOfParams indent depth ps))
      (", ".intercalate (textsOfParams indent depth (bareParams ps))) := by
  have all := Strips.intercalate (by decide : Slashless ", ") h
  rw [lineNotesOfParams_eq_flatMap, textsOfParams_eq_map, textsOfParams_eq_map, bareParams_eq_map,
    List.map_map]
  exact all

mutual

/-- By the structure of the type: what is written between its parts has no slash, and the comments behind
its lines are those of its parts. -/
theorem TsType.strips_bare (blank : IsBlank indent) (depth : Int) :
    ∀ x : TsType, x.Plain → Strips x.lineNotes (x.text indent depth) (x.bare.text indent depth)
  | .verbatim _, plain | .unresolved _, plain => .code plain
  | .cut _, _ => .code (by decide : Slashless "any")
  | .dropped _, _ => .empty
  | .array elt, plain => (elt.strips_bare blank depth plain).between (by decide) (by decide)
  | .bytes elt, plain => (elt.strips_bare blank depth plain).between (by decide) (by decide)
  | .list elt, plain => (elt.strips_bare blank depth plain).before (by decide)
  | .paren x, plain => (x.strips_bare blank depth plain).between (by decide) (by decide)
  | .nullable x, plain => (x.strips_bare blank depth plain).before (by decide)
  | .binary x op y, ⟨left, word, right⟩ => by
    have first := (x.strips_bare blank depth left).before (by decide : Slashless " ")
    have both := (first.before word).before (by decide : Slashless " ")
    exact both.append (y.strips_bare blank depth right)
  | .generic base args, ⟨head, items⟩ => by
    have first := (base.strips_bare blank depth head).before (by decide : Slashless "<")
    exact (first.append (strips_types (strips_bareAll blank depth args items))).before (by decide)
  | .object members, plain => by
    have close : Slashless (indentText indent depth ++ "\x7d") :=
      (Slashless.of_isBlank (isBlank_indentText blank depth)).append (by decide)
    have body := Strips.body (clears_bareMembers blank (depth + 1) members plain) close
    rw [← String.append_assoc, ← String.append_assoc] at body
    exact body
  | .arrow params result, ⟨entries, last⟩ | .signature params result, ⟨entries, last⟩ => by
    have inside := strips_params (strips_bareParams blank depth params entries)
    exact (inside.between (by decide) (by decide)).append (result.strips_bare blank depth last)
  | .tuple items, plain =>
    (strips_types (strips_bareAll blank depth items plain)).between (by decide) (by decide)

theorem strips_bareAll (blank : IsBlank indent) (depth : Int) :
    ∀ xs : List TsType, PlainTypes xs →
      ∀ x ∈ xs, Strips x.lineNotes (x.text indent depth) (x.bare.text indent depth)
  | [], _ => List.forall_mem_nil _
  | x :: xs, ⟨first, rest⟩ =>
    List.forall_mem_cons.2 ⟨x.strips_bare blank depth first, strips_bareAll blank depth xs rest⟩

theorem clears_bareMembers (blank : IsBlank indent) (depth : Int) :
    ∀ ms : List TsMember, PlainMembers ms →
      Clears (lineNotesOfMembers ms) (textOfMembers indent depth ms)
        (textOfMembers indent depth (bareMembers ms))
  | [], _ => .empty
  | ⟨doc, key, optional, colon, type, note⟩ :: ms, ⟨word, plain, line, rest⟩ => by
    have block := TsMember.clears_bare blank (m := ⟨doc, key, optional, colon, type, note⟩) word line
      (type.strips_bare blank depth plain)
    have whole := block.append (clears_bareMembers blank depth ms rest)
    rw [textOfMembers_cons, bareMembers, textOfMembers_cons]
    exact whole

theorem strips_bareParams (blank : IsBlank indent) (depth : Int) :
    ∀ ps : List TsParam, PlainParams ps →
      ∀ p ∈ ps, Strips p.type.lineNotes (p.text indent depth) (p.bare.text indent depth)
  | [], _ => List.forall_mem_nil _
  | ⟨spread, name, type, note⟩ :: ps, ⟨word, plain, rest⟩ =>
    List.forall_mem_cons.2 ⟨TsParam.strips_bare (p := ⟨spread, name, type, note⟩) word
      (type.strips_bare blank depth plain), strips_bareParams blank depth ps rest⟩

end

/-! ## Declarations and files -/

theorem Slashless.modifierText {startModifier : String} (h : Slashless startModifier) :
    Slashless (modifierText startModifier) := by
  unfold Typings.modifierText
  split
  · decide
  · exact h.append (by decide)

theorem Slashless.intercalate {separator : String} (h : Slashless separator) {texts : List String}
    (inside : ∀ text ∈ texts, Slashless text) : Slashless (separator.intercalate texts) :=
  not_mem_intercalate h inside

theorem Slashless.typeParamsText {names : List String} (h : ∀ n ∈ names, Slashless n) :
    Slashless (typeParamsText names) := by
  unfold Typings.typeParamsText
  split
  · decide
  · exact (append (by decide) (.intercalate (by decide) h)).append (by decide)

theorem strips_extendsText (blank : IsBlank indent) {bases : List TsType} (plain : PlainTypes bases) :
    Strips (lineNotesOfTypes bases) (extendsText indent bases) (extendsText indent (bareAll bases)) := by
  cases bases with
  | nil => exact .empty
  | cons base bases => exact (strips_types (strips_bareAll blank 0 _ plain)).after (by decide)

/-- A line without a comment behind it. -/
theorem Strips.bareLine {notes : List String} {u v : String} (h : Strips notes u v) :
    Clears notes (u ++ "\n") (v ++ "\n") := by
  have line := h.line (by decide : '\n' ∉ "".toList)
  rw [show lineEndText "" = "\n" from if_pos rfl] at line
  have same : (∀ n ∈ notes ++ [""], IsOneLine n) ↔ ∀ n ∈ notes, IsOneLine n := by
    rw [List.forall_mem_append, List.forall_mem_singleton]
    exact and_iff_left (by decide)
  exact ⟨fun all => line.reads (same.2 all), fun broken => line.leaks (mt same.1 broken)⟩

/-- A line without a slash stays as it is. -/
theorem Clears.code {u : String} (slashless : Slashless u) : Clears [] (u ++ "\n") (u ++ "\n") :=
  (Strips.code slashless).bareLine

/-- The text of a declaration with its comments taken out is that of the declaration without them, if the
comments behind its lines stand on one line each; else something of them is left. -/
theorem TsDecl.clears_bare (blank : IsBlank indent) {startModifier : String}
    (modifier : Slashless startModifier) :
    ∀ d : TsDecl, d.Plain →
      Clears d.lineNotes (d.text indent startModifier) (d.bare.text indent startModifier)
  | .interface doc name typeParams bases members, ⟨word, params, extended, inside⟩ => by
    have before := ((modifier.modifierText.append (by decide : Slashless "interface ")).append word).append
      (.typeParamsText params)
    have head := ((strips_extendsText blank extended).after before).before (by decide : Slashless " ")
    have body := Strips.body (clears_bareMembers blank 1 members inside) (by decide : Slashless "\x7d")
    have whole := (Clears.docBlock (by decide : IsBlank "") doc).append (head.append body).bareLine
    have opening : " \x7b\n" = " " ++ "\x7b\n" := rfl
    have closing : "\x7d\n" = "\x7d" ++ "\n" := rfl
    rw [TsDecl.text, TsDecl.bare, TsDecl.text, opening, closing]
    simp only [String.append_assoc] at whole ⊢
    exact whole
  | .synonym doc name typeParams type note, ⟨word, params, plain, line⟩ => by
    have before := (((modifier.modifierText.append (by decide : Slashless "type ")).append word).append
      (.typeParamsText params)).append (by decide : Slashless " = ")
    have synonym := ((type.strips_bare blank 0 plain).after before).line line
    have whole := (Clears.docBlock (by decide : IsBlank "") doc).append synonym
    simp only [TsDecl.text, TsDecl.bare, ← String.append_assoc] at whole ⊢
    exact whole

end

/-- The texts in front of the declarations, which have no comments. -/
theorem clears_head {heading startModifier : String} (plain : Slashless heading)
    (modifier : Slashless startModifier) :
    ∀ text ∈ (headingText heading).toList ++ [dictionaryText startModifier], Clears [] text text := by
  intro text mem
  rcases List.mem_append.1 mem with first | last
  · unfold headingText at first
    split at first
    · cases first
    · rw [List.mem_singleton.1 first, String.ofList_append]
      refine .code fun slash => ?_
      rw [String.toList_ofList] at slash
      exact plain (Text.mem_of_mem_dropRightWhile slash)
  · have front := (modifier.modifierText.append (by decide : Slashless "type ")).append
      (by decide : Slashless dictionaryName)
    have line : " = \x7b [key:string | number | symbol]: any; \x7d\n" =
        " = \x7b [key:string | number | symbol]: any; \x7d" ++ "\n" := rfl
    rw [List.mem_singleton.1 last, dictionaryText, line, ← String.append_assoc]
    exact .code (front.append (by decide))

/-- The text of a file with its comments taken out is that of the declarations without comments exactly if
each comment behind a line stands on one line. -/
theorem stripComments_fileText_iff {config : Config} (blank : IsBlank config.indent)
    (heading : Slashless config.heading) (modifier : Slashless config.startModifier)
    {ds : List TsDecl} (plain : ∀ d ∈ ds, d.Plain) :
    stripComments (fileText config ds) = fileText config (ds.map TsDecl.bare) ↔
      ∀ d ∈ ds, ∀ note ∈ d.lineNotes, IsOneLine note := by
  -- A block of the file, with its text, its text without comments, and the comments behind its lines.
  let front := (headingText config.heading).toList ++ [dictionaryText config.startModifier]
  let blocks : List (List String × String × String) :=
    front.map (fun text => ([], text, text)) ++ ds.map fun d =>
      (d.lineNotes, d.text config.indent config.startModifier,
        d.bare.text config.indent config.startModifier)
  have clear : ∀ b ∈ blocks, Clears b.1 b.2.1 b.2.2 := by
    refine List.forall_mem_append.2 ⟨List.forall_mem_map.2 fun text mem => ?_,
      List.forall_mem_map.2 fun d mem => ?_⟩
    · exact clears_head heading modifier text mem
    · exact d.clears_bare blank modifier (plain d mem)
  have texts : fileText config ds = "\n".intercalate (blocks.map fun b => b.2.1) := by
    simp [fileText, blocks, front, Function.comp_def]
  have bare : fileText config (ds.map TsDecl.bare) = "\n".intercalate (blocks.map fun b => b.2.2) := by
    simp [fileText, blocks, front, Function.comp_def]
  have notes : blocks.flatMap (fun b => b.1) = ds.flatMap TsDecl.lineNotes := by
    simp [blocks, List.flatMap_map]
  rw [texts, bare, (Clears.lines clear).strip_iff, notes, List.forall_mem_flatMap]

end Typings
