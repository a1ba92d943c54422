import Typings.Name.Set

/-!
# What a run could not render exactly

An issue is met while one type is rendered. The diagnostics of a run gather its issues: unresolved
names as a set, all others as warnings in order.
-/

namespace Typings

/-- Something that a type could not be rendered from exactly. -/
inductive Issue where
  /-- A name without a mapping and without a built-in meaning. -/
  | unresolved (name : String)
  /-- A type below the deepest level that is rendered. -/
  | tooDeep (limit : Int)
  /-- An operator that no type has before it. -/
  | strayOperator (op : String)
  deriving DecidableEq, Repr

/-- A condition to be reported, with the class of conditions that it belongs to. -/
structure Warning where
  category : String
  message : String
  deriving DecidableEq, Repr

/-- The warning as it is reported. -/
def Warning.text (w : Warning) : String := "warning: [" ++ w.category ++ "] " ++ w.message

/-- The warning that an issue leads to; an unresolved name is reported by itself. -/
def Issue.warning? : Issue → Option Warning
  | .unresolved _ => none
  | .tooDeep limit =>
    some ⟨"depth", "type nested deeper than " ++ toString limit ++ " levels, emitted any"⟩
  | .strayOperator op => some ⟨"unary", "unhandled unary operator '" ++ op ++ "'"⟩

/-- The name that an issue is about, if it is an unresolved one. -/
def Issue.name? : Issue → Option String
  | .unresolved name => some name
  | _ => none

/-- The unresolved names of a run, and its warnings in order. -/
structure Diagnostics where
  unknown : NameSet := .empty
  warnings : List Warning := []
  deriving DecidableEq, Repr

namespace Diagnostics

/-- With one more unresolved name. -/
def addName (d : Diagnostics) (name : String) : Diagnostics :=
  { d with unknown := d.unknown.insert name }

/-- With one more warning. -/
def addWarning (d : Diagnostics) (w : Warning) : Diagnostics :=
  { d with warnings := d.warnings ++ [w] }

/-- With more issues, in order. -/
def add (d : Diagnostics) (issues : List Issue) : Diagnostics :=
  { unknown := d.unknown.insertAll (issues.filterMap Issue.name?)
    warnings := d.warnings ++ issues.filterMap Issue.warning? }

/-- There is nothing to report. -/
def isEmpty (d : Diagnostics) : Bool := d.unknown.isEmpty && d.warnings.isEmpty

end Diagnostics

end Typings
