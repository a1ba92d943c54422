import Typings.Session

/-!
# Writing as one goes

An emitter writes a declaration piece by piece. It counts the types that it is inside of, keeps the
type parameters in scope, and notes each issue where it meets it; both the count and the scope are
set before a piece is written and set back behind it. What it writes is the text of the rendered tree,
and it leaves the count and the scope as it found them (`Proofs/Emitter/Writes`).
-/

namespace Typings

/-- A session inside of some types. -/
structure Emitter extends Session where
  level : Int := 0
  deriving DecidableEq, Repr

/-- Something that an emitter writes. -/
abbrev Writing := StateM Emitter

namespace Emitter

/-- An emitter with nothing in scope and nothing noted, outside of all types. -/
def ofConfig (config : Config) : Emitter := { toSession := .ofConfig config }

/-- The emitter with more issues noted. -/
def note (e : Emitter) (issues : List Issue) : Emitter :=
  { e with noted := e.noted.add issues }

/-- The emitter with other type parameters in scope. -/
def withScope (e : Emitter) (names : NameSet) : Emitter :=
  { e with context := { e.context with typeParams := names } }

end Emitter

namespace Writing

/-- Noting an issue. -/
def report (issue : Issue) : Writing Unit := modify fun e => e.note [issue]

/-- The text of one level of indentation. -/
def indent : Writing String := do return (← get).context.config.indent

/-- A tree without parts, which depends on the options and the scope. -/
def leaf (tree : Context → TsType) : Writing String := do
  let rendered := tree (← get).context
  modify fun e => e.note rendered.issues
  pure (rendered.text "" 0)

/-- One after another. -/
def inOrder : List (Writing String) → Writing (List String)
  | [] => pure []
  | w :: ws => do
    let text ← w
    let texts ← inOrder ws
    pure (text :: texts)

/-- A type, one level further in; `any` if that is too deep. -/
def nested (w : Writing String) : Writing String := do
  let e ← get
  if e.context.config.maxDepth ≤ e.level then
    report (.tooDeep e.context.config.maxDepth)
    pure "any"
  else
    modify fun e => { e with level := e.level + 1 }
    let text ← w
    modify fun e => { e with level := e.level - 1 }
    pure text

/-- A declaration with its type parameters in scope. -/
def inScope (names : List String) (w : Writing String) : Writing String := do
  let before := (← get).context.typeParams
  modify fun e => e.withScope (before.insertAll names)
  let text ← w
  modify fun e => e.withScope before
  pure text

/-! ## Texts of parts -/

/-- A text in parentheses if asked for. -/
def parensIf (enclose : Bool) (text : String) : String :=
  if enclose then "(" ++ text ++ ")" else text

/-- A pointer in a slot, from the text of what it points to. -/
def pointerText (slot : Slot) (isFunc : Bool) (text : String) : String :=
  if slot.admitsMissing then parensIf slot.enclosed (parensIf isFunc text ++ " | undefined")
  else text

/-- A function from the texts of its parameters and of its result. -/
def funcText (asValue : Bool) (params : List String) (result : String) : String :=
  "(" ++ ", ".intercalate params ++ (if asValue then ") => " else "): ") ++ result

/-- The result of a function: nothing, one result, or several as a tuple. -/
def result : List (Writing String) → Writing String
  | [] => pure "void"
  | [w] => w
  | ws => do
    let texts ← inOrder ws
    pure ("[" ++ ", ".intercalate texts ++ "]")

/-- The members that a field gives, one for each visible name. -/
def members (depth : Int) (style : Config → NameStyle) (f : Field) (optional colon : Bool)
    (type : Writing String) : List (Writing String) :=
  (f.names.filter Name.isVisible).map fun name => do
    let config := (← get).context.config
    let text ← type
    let margin := indentText config.indent depth
    pure (docBlock margin (docOf f.doc) ++ margin ++ Name.propertyKey ((style config).apply name)
      ++ (if optional then "?" else "") ++ (if colon then ": " else "") ++ text
      ++ lineEndText (noteOf f.comment))

/-- The parameters that a field gives, from the place of the field. -/
def params (i : Nat) (f : Field) (type : Writing String) : List (Writing String) :=
  (TsParam.namesAt i f.names).map fun name => do
    let text ← type
    pure ((if f.type.isVariadic then "..." else "") ++ name ++ ": " ++ text
      ++ paramNote (noteOf f.comment))

/-- A body in braces, that begins on a line of the given level. -/
def body (depth : Int) (members : List (Writing String)) : Writing String := do
  let texts ← inOrder members
  let indent ← indent
  pure ("\x7b\n" ++ String.join texts ++ indentText indent depth ++ "\x7d")

/-! ## Types -/

mutual

/-- A type in a slot, on a line of the given level. -/
def type (depth : Int) (slot : Slot) : TypeExpr → Writing String
  | .pointer x => nested do
    let text ← type depth (if x.isFunc then .part else .plain) x
    pure (pointerText slot x.isFunc text)
  | .variadic elt => nested do
    if elt.isNamed "byte" then pure "string"
    else
      let text ← type depth .part elt
      pure (parensIf elt.isFunc text ++ "[]")
  | .array elt _ => nested do
    let text ← type depth .part elt
    pure ((if elt.isNamed "byte" && !slot.extending then "string|" else "") ++ "Array<" ++ text ++ ">")
  | .struct fields => nested (body depth (structFields (depth + 1) fields))
  | .interface methods => nested (body depth (interfaceFields (depth + 1) methods))
  | .name name => nested (leaf fun ctx => ctx.ofName name)
  | .selector x sel => nested (leaf fun ctx => ctx.ofSelector x sel)
  | .map _ _ => nested (pure dictionaryName)
  | .literal _ text => nested (pure text)
  | .counted text => nested (pure text)
  | .paren x => nested do
    let text ← type depth .part x
    pure ("(" ++ text ++ ")")
  | .binary x op y => nested do
    let left ← type depth .part x
    let right ← type depth .part y
    pure (left ++ " " ++ op ++ " " ++ right)
  | .func ps rs _ => nested do
    let params ← inOrder (funcParams depth 0 ps)
    let results := funcResults depth rs
    let result ← result (if endsInError rs then results.dropLast else results)
    pure (funcText slot.enclosed params result)
  | .unary op x => nested do
    if op = "~" then type depth .plain x
    else
      report (.strayOperator op)
      pure ""
  | .generic x args => nested do
    let base ← type depth .plain x
    let texts ← inOrder (types depth args)
    pure (base ++ "<" ++ ", ".intercalate texts ++ ">")
  | .call _ _ => nested (pure "undefined")
  | .channel _ _ => nested (pure "undefined")
  | .composite _ _ => nested (pure "undefined")
  | .unknown => nested (pure "any")

/-- Types that are parts of another one. -/
def types (depth : Int) : List TypeExpr → List (Writing String)
  | [] => []
  | x :: xs => type depth .part x :: types depth xs

/-- The exported members of a struct. -/
def structFields (depth : Int) : List Field → List (Writing String)
  | [] => []
  | ⟨names, .pointer x, doc, comment, tag⟩ :: fields =>
    members depth Config.fieldNames ⟨names, .pointer x, doc, comment, tag⟩ true true
      (type depth .part x) ++ structFields depth fields
  | ⟨names, x, doc, comment, tag⟩ :: fields =>
    members depth Config.fieldNames ⟨names, x, doc, comment, tag⟩ false true
      (type depth .part x) ++ structFields depth fields

/-- The exported methods of an interface. -/
def interfaceFields (depth : Int) : List Field → List (Writing String)
  | [] => []
  | ⟨names, x, doc, comment, tag⟩ :: fields =>
    members depth Config.methodNames ⟨names, x, doc, comment, tag⟩ false (!x.isFunc)
      (type depth .plain x) ++ interfaceFields depth fields

/-- The parameters of a function from the given place on. -/
def funcParams (depth : Int) (i : Nat) : List Field → List (Writing String)
  | [] => []
  | ⟨names, .pointer x, doc, comment, tag⟩ :: fields =>
    params i ⟨names, .pointer x, doc, comment, tag⟩ (type depth .part x)
      ++ funcParams depth (i + 1) fields
  | ⟨names, x, doc, comment, tag⟩ :: fields =>
    params i ⟨names, x, doc, comment, tag⟩ (type depth .part x) ++ funcParams depth (i + 1) fields

/-- All results of a function, one for each name. -/
def funcResults (depth : Int) : List Field → List (Writing String)
  | [] => []
  | ⟨names, x, _, _, _⟩ :: fields =>
    List.replicate (max names.length 1) (type depth .result x) ++ funcResults depth fields

end

/-! ## Declarations -/

/-- An interface with its head and the members in it. -/
def interface (doc : List String) (name : String) (typeParams : List String)
    (bases members : List (Writing String)) : Writing String := do
  let bases ← inOrder bases
  let members ← inOrder members
  let modifier := modifierText (← get).context.config.startModifier
  pure (docBlock "" doc ++ modifier ++ "interface " ++ name ++ typeParamsText typeParams
    ++ (if bases.isEmpty then "" else " extends " ++ ", ".intercalate bases) ++ " \x7b\n"
    ++ String.join members ++ "\x7d\n")

/-- The line of a function in an interface: its key, which is empty if the interface itself can be
called, and its signature. -/
def call (doc : List String) (key : Config → String) (x : TypeExpr) (note : String) :
    Writing String := do
  let config := (← get).context.config
  let margin := indentText config.indent 1
  let text ← type 1 .plain x
  pure (docBlock margin doc ++ margin ++ key config ++ text ++ lineEndText note)

/-- A name for a type. -/
def synonym (doc : List String) (name : String) (typeParams : List String) (x : TypeExpr)
    (note : String) : Writing String := do
  let modifier := modifierText (← get).context.config.startModifier
  let text ← type 0 .plain x
  pure (docBlock "" doc ++ modifier ++ "type " ++ name ++ typeParamsText typeParams ++ " = " ++ text
    ++ lineEndText note)

/-- A type specification; nothing if it is hidden. -/
def typeSpec (spec : TypeSpec) : Writing String :=
  if Name.isVisible spec.name then
    let names := Field.allNames spec.typeParams
    inScope names <|
      match spec.type with
      | .struct fields =>
        interface (docOf spec.doc) spec.name names
          ((Field.visibleBases fields).map (type 0 .base)) (structFields 1 fields)
      | .interface methods =>
        interface (docOf spec.doc) spec.name names
          ((Field.visibleBases methods).map (type 0 .base)) (interfaceFields 1 methods)
      | .func ps rs tps =>
        interface (docOf spec.doc) spec.name names []
          [call [] (fun _ => "") (.func ps rs tps) (noteOf spec.comment)]
      | x => synonym (docOf spec.doc) spec.name names x (noteOf spec.comment)
  else pure ""

/-- A function, or a method in the interface of its receiver; nothing if it is hidden. -/
def func (decl : FuncDecl) : Writing String :=
  if Name.isVisible decl.name then
    match decl.recv with
    | some recv =>
      let (name, names) := recv.receiver
      if Name.isVisible name then
        inScope (names ++ Field.allNames decl.typeParams) <|
          interface [] name names []
            [call (docOf decl.doc)
              (fun config => Name.propertyKey (config.methodNames.apply decl.name)) decl.type ""]
      else pure ""
    | none =>
      let names := Field.allNames decl.typeParams
      inScope names (interface (docOf decl.doc) decl.name names [] [call [] (fun _ => "") decl.type ""])
  else pure ""

end Writing

namespace Emitter

/-- The text of a declaration, and the emitter behind it. -/
def render (e : Emitter) : Decl → Except RenderError (String × Emitter)
  | .typeSpec spec => .ok (Writing.typeSpec spec e)
  | .func decl => .ok (Writing.func decl e)
  | .unknown => .error .unknownDecl

/-- The texts of declarations that are not empty, written one after another. -/
def renderAll (e : Emitter) : List Decl → Except RenderError (List String × Emitter)
  | [] => .ok ([], e)
  | d :: ds => do
    let (text, e) ← e.render d
    let (texts, e) ← e.renderAll ds
    .ok (if text = "" then (texts, e) else (text :: texts, e))

/-- The declarations as one file, written by the same emitter. -/
def file (config : Config) (ds : List Decl) : Except RenderError Rendering := do
  let (texts, e) ← (ofConfig config).renderAll ds
  .ok ⟨"\n".intercalate ((headingText config.heading).toList ++ dictionaryText config.startModifier
    :: texts), e.noted⟩

end Emitter

end Typings
