import Typings.Proofs.Precedence.Words

/-!
# How written types group

A form is what a written type says once it is known what each mark applies to. `TsForm.ofText` finds
the form of a text by the precedence of the marks: `[]` binds tighter than `|`, and `|` tighter than
the body of `=>`. A function stands in parentheses wherever something else applies to it.
`TsSpells` is the grammar that this reading follows, one rule for each way to write a form.
-/

namespace Typings

/-- What a written type says. Parentheses and the names of members and parameters are left out, and
a union in a union is one with it. -/
inductive TsForm where
  | name (text : String)
  | generic (base : TsForm) (args : List TsForm)
  | list (elt : TsForm)
  | union (xs : List TsForm)
  /-- A function, as a value or behind the key of a method. -/
  | arrow (params : List TsForm) (result : TsForm)
  /-- A body, with the types of its members. -/
  | object (members : List TsForm)
  | tuple (items : List TsForm)

namespace TsForm

/-- The type that says nothing. -/
def any : TsForm := .name "any"

/-- What a union with this form in it has for it. -/
def operands : TsForm → List TsForm
  | .union xs => xs
  | x => [x]

/-- The union of some forms; one alone stands for itself. -/
def ofOperands : List TsForm → TsForm
  | [x] => x
  | xs => .union xs

end TsForm

/-! ## Reading -/

/-- The rest behind the word. -/
def TsWord.skip (w : TsWord) : List TsWord → Option (List TsWord)
  | v :: ws => if v = w then some ws else none
  | [] => none

/-- A list of parameters goes on, behind its parenthesis: it is empty, or it begins with the dots or
the name of a parameter. -/
def TsWord.goesOnAsParams : List TsWord → Bool
  | .rightParen :: _ | .dots :: _ | .name _ :: .colon :: _ => true
  | _ => false

/-- A list of parameters begins. -/
def TsWord.beginsParams : List TsWord → Bool
  | .leftParen :: ws => goesOnAsParams ws
  | _ => false

/-- The word is a key. -/
def TsWord.isKey : TsWord → Bool
  | .name _ | .quoted => true
  | _ => false

namespace TsForm

/-- The form with all the `[]` applied that stand next. -/
def applyLists (x : TsForm) : List TsWord → TsForm × List TsWord
  | .leftBracket :: .rightBracket :: ws => applyLists (.list x) ws
  | ws => (x, ws)

mutual

/-- Reading a type: a function, which takes all that follows for its result, or a union. -/
def readType : Nat → List TsWord → Option (TsForm × List TsWord)
  | 0, _ => none
  | rounds + 1, ws =>
    if TsWord.beginsParams ws then do
      let (params, ws) ← readParams rounds ws
      let ws ← TsWord.arrow.skip ws
      let (result, ws) ← readType rounds ws
      some (.arrow params result, ws)
    else do
      let (xs, ws) ← readUnion rounds ws
      some (.ofOperands xs, ws)

/-- Reading operands with bars between them. -/
def readUnion : Nat → List TsWord → Option (List TsForm × List TsWord)
  | 0, _ => none
  | rounds + 1, ws => do
    let (x, ws) ← readOperand rounds ws
    match ws with
    | .bar :: ws => do
      let (xs, ws) ← readUnion rounds ws
      some (x.operands ++ xs, ws)
    | ws => some (x.operands, ws)

/-- Reading an operand: something closed in itself, with the `[]` behind it. -/
def readOperand : Nat → List TsWord → Option (TsForm × List TsWord)
  | 0, _ => none
  | rounds + 1, ws => do
    let (x, ws) ← readClosed rounds ws
    some (x.applyLists ws)

/-- Reading a name with its arguments, or what stands between brackets of some kind. -/
def readClosed : Nat → List TsWord → Option (TsForm × List TsWord)
  | rounds + 1, .name text :: .less :: ws => do
    let (args, ws) ← readTypes rounds ws
    let ws ← TsWord.greater.skip ws
    some (.generic (.name text) args, ws)
  | _ + 1, .name text :: ws => some (.name text, ws)
  | rounds + 1, .leftParen :: ws => do
    let (x, ws) ← readType rounds ws
    let ws ← TsWord.rightParen.skip ws
    some (x, ws)
  | rounds + 1, .leftBrace :: ws => do
    let ws ← TsWord.lineEnd.skip ws
    let (members, ws) ← readMembers rounds ws
    some (.object members, ws)
  | rounds + 1, .leftBracket :: ws => do
    let (items, ws) ← readTypes rounds ws
    let ws ← TsWord.rightBracket.skip ws
    some (.tuple items, ws)
  | _, _ => none

/-- Reading types with commas between them. -/
def readTypes : Nat → List TsWord → Option (List TsForm × List TsWord)
  | 0, _ => none
  | rounds + 1, ws => do
    let (x, ws) ← readType rounds ws
    match ws with
    | .comma :: ws => do
      let (xs, ws) ← readTypes rounds ws
      some (x :: xs, ws)
    | ws => some ([x], ws)

/-- Reading a list of parameters with its parentheses. -/
def readParams : Nat → List TsWord → Option (List TsForm × List TsWord)
  | _ + 1, .leftParen :: .rightParen :: ws => some ([], ws)
  | rounds + 1, .leftParen :: ws => do
    let (params, ws) ← readEntries rounds ws
    let ws ← TsWord.rightParen.skip ws
    some (params, ws)
  | _, _ => none

/-- Reading parameters with commas between them. -/
def readEntries : Nat → List TsWord → Option (List TsForm × List TsWord)
  | rounds + 1, .dots :: ws => readEntries rounds ws
  | rounds + 1, .name _ :: .colon :: ws => do
    let (x, ws) ← readType rounds ws
    match ws with
    | .comma :: ws => do
      let (xs, ws) ← readEntries rounds ws
      some (x :: xs, ws)
    | ws => some ([x], ws)
  | _, _ => none

/-- Reading the members of a body up to its end. -/
def readMembers : Nat → List TsWord → Option (List TsForm × List TsWord)
  | _ + 1, .rightBrace :: ws => some ([], ws)
  | rounds + 1, .lineEnd :: ws => readMembers rounds ws
  | rounds + 1, key :: ws => do
    let (x, ws) ← if key.isKey then readMember rounds ws else none
    let ws ← TsWord.lineEnd.skip ws
    let (xs, ws) ← readMembers rounds ws
    some (x :: xs, ws)
  | _, _ => none

/-- Reading what stands behind the key of a member: a type behind a colon, or the parameters and the
result of a method. A key that neither of them follows has any type, and the rest of its line is
passed over. -/
def readMember : Nat → List TsWord → Option (TsForm × List TsWord)
  | rounds + 1, .question :: ws => readMember rounds ws
  | rounds + 1, .colon :: ws => readType rounds ws
  | rounds + 1, .leftParen :: ws => do
    let (params, ws) ← readParams rounds (.leftParen :: ws)
    let ws ← TsWord.colon.skip ws
    let (result, ws) ← readType rounds ws
    some (.arrow params result, ws)
  | _ + 1, ws => some (.any, ws.dropWhile (· ≠ .lineEnd))
  | _, _ => none

end

/-- The form of words, if they can be read as one type. -/
def ofWords (ws : List TsWord) : Option TsForm :=
  match readType (4 * ws.length + 4) ws with
  | some (x, []) => some x
  | _ => none

/-- The form of a written type. -/
def ofText (text : String) : Option TsForm := ofWords (TsWord.ofText text)

end TsForm

/-! ## The grammar -/

/-- What a stretch of words may spell. -/
inductive TsPhrase where
  | operand (x : TsForm)
  /-- Operands with bars between them. -/
  | union (xs : List TsForm)
  | type (x : TsForm)
  /-- Types with commas between them. -/
  | types (xs : List TsForm)
  /-- Parameters with commas between them. -/
  | entries (xs : List TsForm)
  /-- A list of parameters with its parentheses. -/
  | params (xs : List TsForm)
  /-- What stands behind the key of a member. -/
  | member (x : TsForm)
  /-- The members inside a body. -/
  | members (xs : List TsForm)

/-- The words spell the phrase. -/
inductive TsSpells : TsPhrase → List TsWord → Prop
  -- Operands
  | name {n : String} : TsSpells (.operand (.name n)) [.name n]
  | generic {n : String} {args : List TsForm} {ws : List TsWord} :
    TsSpells (.types args) ws →
    TsSpells (.operand (.generic (.name n) args)) (.name n :: .less :: ws ++ [.greater])
  | paren {x : TsForm} {ws : List TsWord} :
    TsSpells (.type x) ws → TsSpells (.operand x) (.leftParen :: ws ++ [.rightParen])
  | object {xs : List TsForm} {ws : List TsWord} :
    TsSpells (.members xs) ws →
    TsSpells (.operand (.object xs)) (.leftBrace :: .lineEnd :: ws ++ [.rightBrace])
  | tuple {xs : List TsForm} {ws : List TsWord} :
    TsSpells (.types xs) ws →
    TsSpells (.operand (.tuple xs)) (.leftBracket :: ws ++ [.rightBracket])
  | list {x : TsForm} {ws : List TsWord} :
    TsSpells (.operand x) ws →
    TsSpells (.operand (.list x)) (ws ++ [.leftBracket, .rightBracket])
  -- Types
  | oneOperand {x : TsForm} {ws : List TsWord} :
    TsSpells (.operand x) ws → TsSpells (.union x.operands) ws
  | moreOperands {x : TsForm} {xs : List TsForm} {ws vs : List TsWord} :
    TsSpells (.operand x) ws → TsSpells (.union xs) vs →
    TsSpells (.union (x.operands ++ xs)) (ws ++ .bar :: vs)
  | union {xs : List TsForm} {ws : List TsWord} :
    TsSpells (.union xs) ws → TsSpells (.type (.ofOperands xs)) ws
  | arrow {xs : List TsForm} {x : TsForm} {ws vs : List TsWord} :
    TsSpells (.params xs) ws → TsSpells (.type x) vs →
    TsSpells (.type (.arrow xs x)) (ws ++ .arrow :: vs)
  | oneType {x : TsForm} {ws : List TsWord} : TsSpells (.type x) ws → TsSpells (.types [x]) ws
  | moreTypes {x : TsForm} {xs : List TsForm} {ws vs : List TsWord} :
    TsSpells (.type x) ws → TsSpells (.types xs) vs →
    TsSpells (.types (x :: xs)) (ws ++ .comma :: vs)
  -- Parameters
  | oneEntry {n : String} {x : TsForm} {ws : List TsWord} :
    TsSpells (.type x) ws → TsSpells (.entries [x]) (.name n :: .colon :: ws)
  | moreEntries {n : String} {x : TsForm} {xs : List TsForm} {ws vs : List TsWord} :
    TsSpells (.type x) ws → TsSpells (.entries xs) vs →
    TsSpells (.entries (x :: xs)) (.name n :: .colon :: ws ++ .comma :: vs)
  | spread {xs : List TsForm} {ws : List TsWord} :
    TsSpells (.entries xs) ws → TsSpells (.entries xs) (.dots :: ws)
  | noParams : TsSpells (.params []) [.leftParen, .rightParen]
  | someParams {xs : List TsForm} {ws : List TsWord} :
    TsSpells (.entries xs) ws → TsSpells (.params xs) (.leftParen :: ws ++ [.rightParen])
  -- Members
  | optional {x : TsForm} {ws : List TsWord} :
    TsSpells (.member x) ws → TsSpells (.member x) (.question :: ws)
  | typed {x : TsForm} {ws : List TsWord} :
    TsSpells (.type x) ws → TsSpells (.member x) (.colon :: ws)
  | method {xs : List TsForm} {x : TsForm} {ws vs : List TsWord} :
    TsSpells (.params xs) ws → TsSpells (.type x) vs →
    TsSpells (.member (.arrow xs x)) (ws ++ .colon :: vs)
  | bare {names : List String} : TsSpells (.member .any) (names.map TsWord.name)
  | noMembers : TsSpells (.members []) []
  | emptyLine {xs : List TsForm} {ws : List TsWord} :
    TsSpells (.members xs) ws → TsSpells (.members xs) (.lineEnd :: ws)
  | moreMembers {key : TsWord} {x : TsForm} {xs : List TsForm} {ws vs : List TsWord} :
    key.isKey = true → TsSpells (.member x) ws → TsSpells (.members xs) vs →
    TsSpells (.members (x :: xs)) (key :: ws ++ .lineEnd :: vs)

end Typings
