import Typings.Decl.Basic
import Typings.TypeExpr.Parser

/-!
# Parsing declarations

A file is a package clause, which may be missing, and then imports, types and functions in any
order. Imports are passed over, and so are the bodies of functions.
-/

namespace Typings.Parser

/-! ## Passing over -/

/-- The tokens behind the brace that closes the innermost `depth` open ones. -/
def blockEnd? (depth : Nat) : List Token → Option (List Token)
  | [] => none
  | t :: ts =>
    match t.lexeme with
    | .op .leftBrace => blockEnd? (depth + 1) ts
    | .op .rightBrace => if depth ≤ 1 then some ts else blockEnd? (depth - 1) ts
    | _ => blockEnd? depth ts

/-- Passing a block in braces; what it holds does not matter as long as its braces match. -/
def passBlock : Parser Unit := do
  let _ ← expect (.op .leftBrace)
  fun c =>
    match blockEnd? 1 c.rest with
    | some behind => .ok ((), c.pass (c.rest.length - behind.length))
    | none => .error ⟨.openBody, c.stop⟩

/-- Passing everything up to and including the next closing parenthesis. -/
def passImportGroup : Parser Unit := fun c =>
  match c.rest.findIdx? fun t => t.lexeme = .op .rightParen with
  | some n => .ok ((), c.pass (n + 1))
  | none => .error ⟨.openImports, c.stop⟩

/-- Passing an import: a group in parentheses, or a path that may have a name before it. -/
def passImport : Parser Unit := do
  let _ ← expect (.keyword .importKw)
  if ← isAt (.op .leftParen) then
    let _ ← advance
    passImportGroup
  else
    let t ← current
    if t.lexeme.isIdent || t.lexeme = .op .dot then discard advance
    let path ← current
    if path.lexeme.isString then discard advance else fail (.expected .importPath)
  endStatement

/-! ## Types -/

/-- A list of fields between two delimiters. -/
def fieldList (opening close : Lexeme) (constraint : Bool) : Parser (List Field) :=
  fieldListWith type opening close constraint

/-- A type-parameter list: every parameter is named. -/
def typeParams : Parser (List Field) := do
  let fields ← fieldList (.op .leftBracket) (.op .rightBracket) true
  if fields.any fun f => f.names.isEmpty then fail .unnamedTypeParam else pure fields

/-- The token after the bracket and the identifier shows that they begin an array length. -/
def continuesLength : Lexeme → Bool
  | .op .rightBracket | .op .dot | .op .plus | .op .minus | .op .slash | .op .percent
  | .op .shiftLeft | .op .shiftRight | .op .leftParen => true
  | _ => false

/-- A type-parameter list stands ahead. -/
def showsTypeParams (c : Cursor) : Bool :=
  c.current.lexeme = .op .leftBracket && (c.peek 1).lexeme.isIdent
    && !continuesLength (c.peek 2).lexeme

/-- A type specification, given the comments above it. -/
def typeSpec (doc : Option CommentGroup) : Parser TypeSpec := do
  let name ← ident
  let params ← if ← ask showsTypeParams then typeParams else pure []
  let isAlias ← isAt (.op .assign)
  if isAlias then discard advance
  let type ← type
  let comment ← commentBehind
  pure { name := name, type := type, typeParams := params, doc := doc, comment := comment,
         isAlias := isAlias }

/-- A statement that is a type specification with the comments above it. -/
def typeStatement (doc : Option CommentGroup) : Parser TypeSpec := do
  let spec ← typeSpec doc
  endStatement
  pure spec

/-- A type declaration: one specification, or a group of them in parentheses. The comments on a
single one stand above the word `type`. -/
def typeDecl : Parser (List TypeSpec) := do
  let doc ← docHere
  let _ ← expect (.keyword .typeKw)
  if ← isAt (.op .leftParen) then
    let _ ← advance
    let statement := do
      let doc ← docHere
      typeStatement doc
    let specs ← bounded (itemsUntil (.op .rightParen) statement)
    let _ ← expect (.op .rightParen)
    endStatement
    pure specs
  else
    let spec ← typeStatement doc
    pure [spec]

/-! ## Functions -/

/-- The receiver of a method: a list of exactly one field. -/
def receiver : Parser Field := do
  let fields ← fieldList (.op .leftParen) (.op .rightParen) false
  match fields with
  | [recv] => pure recv
  | _ => fail .severalReceivers

/-- A function declaration. -/
def funcDecl : Parser FuncDecl := do
  let doc ← docHere
  let _ ← expect (.keyword .funcKw)
  let recv ← if ← isAt (.op .leftParen) then some <$> receiver else pure none
  let name ← ident
  let typeParams ← if ← isAt (.op .leftBracket) then typeParams else pure []
  let params ← paramsWith type
  let results ← resultsWith type
  if ← isAt (.op .leftBrace) then passBlock
  endStatement
  pure { name := name, params := params, results := results, typeParams := typeParams,
         recv := recv, doc := doc }

/-! ## Files -/

/-- The package clause, whose name is given; it may be missing. -/
def packageClause : Parser String := do
  if ← isAt (.keyword .packageKw) then
    let _ ← advance
    let name ← ident
    endStatement
    pure name
  else pure ""

/-- The declarations that stand at the cursor; an import declares nothing. -/
def declaration : Parser (List Decl) := do
  let t ← current
  match t.lexeme with
  | .keyword .importKw =>
    passImport
    pure []
  | .keyword .typeKw =>
    let specs ← typeDecl
    pure (specs.map .typeSpec)
  | .keyword .funcKw =>
    let decl ← funcDecl
    pure [.func decl]
  | _ => fail (.expected .declaration)

/-- A file. -/
def file : Parser File := do
  passSemis
  let package ← packageClause
  let decls ← bounded (itemsUntil .eof declaration)
  pure ⟨package, decls.flatten⟩

end Typings.Parser

namespace Typings

/-- The file that a source text is. -/
def File.parse (source : String) : Except SourceError File := Parser.file.run source

end Typings
