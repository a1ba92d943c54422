import Typings.Text.CodePoint

/-!
# JSON values

Numbers keep their text. Strings are texts of code points, as escapes may write surrogates. An object
lists its keys in the order in which they first occur.
-/

namespace Typings.Json

/-- A JSON value. -/
inductive Value where
  | null
  | bool (b : Bool)
  | number (text : String)
  | string (s : CodePoints)
  | array (items : List Value)
  | object (entries : List (CodePoints × Value))
  deriving Inhabited

/-- Entries with one more; of equal keys the last value counts, at the place of the first. -/
def putEntry (key : CodePoints) (value : Value) :
    List (CodePoints × Value) → List (CodePoints × Value)
  | [] => [(key, value)]
  | (k, v) :: entries =>
    if k = key then (k, value) :: entries else (k, v) :: putEntry key value entries

/-- The object with the given entries, put in one after another. -/
def Value.ofEntries (entries : List (CodePoints × Value)) : Value :=
  .object (entries.foldl (fun es (key, value) => putEntry key value es) [])

end Typings.Json
