import Typings.Unicode.Capital
import Typings.Unicode.Numeral

/-!
# Name styles

How the names of members are spelled in the output: kept, begun in lower case, or looked
up in a table.
-/

namespace Typings

namespace Name

/-- The lower-case form of a run of capitals. The last of several is written as the form of its
letter that ends a word, which only sigma has. -/
def lowerRun : List Char → List Char
  | [] => []
  | c :: cs => Unicode.lowercase c ++ lowerRest cs
where
  /-- The lower-case form of capitals behind another one. -/
  lowerRest : List Char → List Char
    | [] => []
    | [c] => if c = '\u03a3' then ['\u03c2'] else Unicode.lowercase c
    | c :: cs => Unicode.lowercase c ++ lowerRest cs

/-- The name with its leading run of capitals in lower case. If a letter follows a run of several
capitals, the last of them begins the next word and stays. -/
def camelCase (name : String) : String :=
  let run := name.toList.takeWhile Unicode.isCapital
  let rest := name.toList.dropWhile Unicode.isCapital
  if rest.head?.any Unicode.isLetter && 1 < run.length then
    String.ofList (lowerRun run.dropLast ++ run.getLast?.toList ++ rest)
  else String.ofList (lowerRun run ++ rest)

end Name

/-- A way to spell names. -/
inductive NameStyle where
  | keep
  | camel
  | table (entries : List (String × String))
  deriving DecidableEq, Repr

namespace NameStyle

/-- The name in the style. A name that a table does not list is kept. -/
def apply : NameStyle → String → String
  | .keep, name => name
  | .camel, name => Name.camelCase name
  | .table entries, name => (entries.lookup name).getD name

/-- The style with the given name. -/
def ofText? : String → Option NameStyle
  | "keep" => some .keep
  | "camel" => some .camel
  | _ => none

end NameStyle

end Typings
