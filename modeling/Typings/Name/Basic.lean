import Typings.Unicode.Numeral

/-!
# Names in declarations

Which names may stand as they are in the declarations that are written, and how the others are
quoted; and which names of the source are visible from outside.
-/

namespace Typings.Name

/-- The words that cannot name a variable. -/
def reservedWords : List String :=
  ["break", "do", "instanceof", "typeof", "case", "else", "new", "var", "catch", "finally",
    "return", "void", "continue", "for", "switch", "while", "debugger", "function", "this", "with",
    "default", "if", "throw", "delete", "in", "try", "class", "enum", "extends", "super", "const",
    "export", "import", "implements", "let", "private", "public", "yield", "interface", "package",
    "protected", "static"]

/-- The name cannot name a variable. -/
def isReserved (name : String) : Bool := reservedWords.contains name

/-- A character that may begin an identifier. -/
def isStart (c : Char) : Bool := c = '_' || Unicode.isLetter c

/-- A character that may continue an identifier. -/
def isPart (c : Char) : Bool := c = '_' || Unicode.isLetter c || Unicode.isNumeral c

/-- The name may be written as a bare property key. Reserved words may: they are legal keys. -/
def isIdentifier (name : String) : Bool :=
  isReserved name ||
    match name.toList with
    | [] => false
    | c :: cs => isStart c && cs.all isPart

/-- One character between single quotes: a backslash and a quote have a backslash before them. -/
def escapeKeyChar (c : Char) : List Char :=
  if c = '\\' || c = '\x27' then ['\\', c] else [c]

/-- The name as a property key: in single quotes unless it may stand bare. -/
def propertyKey (name : String) : String :=
  if isIdentifier name then name
  else String.ofList ('\x27' :: name.toList.flatMap escapeKeyChar ++ ['\x27'])

/-- The name is visible outside its package: it begins with an ASCII capital. -/
def isVisible (name : String) : Bool := name.toList.head?.any Char.isUpper

end Typings.Name
