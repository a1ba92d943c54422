import Typings.Config
import Typings.Text.CodePoint
import Typings.Text.Decimal

/-!
# Command-line arguments

Arguments are read from left to right. A flag takes the argument after it as its value, whatever
that looks like; the first argument that is refused ends the reading.
-/

namespace Typings.Cli

/-- The flags that take a value. -/
inductive Flag where
  | map
  | mappings
  | indent
  | startModifier
  | heading
  | fieldNames
  | methodNames
  | output
  deriving DecidableEq, Repr

/-- The flag that an argument is. -/
def Flag.ofText? : String → Option Flag
  | "--map" => some .map
  | "--mappings" => some .mappings
  | "--indent" => some .indent
  | "--start-modifier" => some .startModifier
  | "--heading" => some .heading
  | "--field-names" => some .fieldNames
  | "--method-names" => some .methodNames
  | "-o" => some .output
  | "--output" => some .output
  | _ => none

/-- What the arguments ask for. -/
structure Options where
  input : Option String := none
  output : Option String := none
  mappingFiles : List String := []
  mapEntries : List (String × String) := []
  indentWidth : Nat := 2
  startModifier : String := ""
  heading : String := ""
  fieldNames : NameStyle := .keep
  methodNames : NameStyle := .keep
  deriving DecidableEq, Repr

/-- Why an argument is refused. -/
inductive UsageError where
  | missingValue (flag : String)
  | badMap (value : String)
  | badIndent (value : String)
  | unknownStyle (value : String)
  | unknownFlag (argument : String)
  | extraArgument (argument : String)
  deriving DecidableEq, Repr

/-- The reason in words. -/
def UsageError.message : UsageError → String
  | .missingValue flag => flag ++ " requires an argument"
  | .badMap value => "--map expects GO=TS, got '" ++ value ++ "'"
  | .badIndent value => "--indent expects a number, got '" ++ value ++ "'"
  | .unknownStyle value => "unknown name style '" ++ value ++ "' (expected keep or camel)"
  | .unknownFlag argument => "unknown flag '" ++ argument ++ "'"
  | .extraArgument argument => "unexpected argument '" ++ argument ++ "'"

/-- Why a run ends without an exit code: a text of digits cannot be read as a number, or the indentation is
too wide to be counted or to be held in memory; a path has a null character in it, or what is rendered
cannot be encoded; or a declaration is of no known kind. -/
inductive Crash where
  | badNumber (value : String) (fault : Text.DecimalFault)
  | uncountedWidth
  | unheldWidth
  | nullInPath
  | notEncoded (fault : EncodeFault)
  | unknownDecl
  deriving DecidableEq, Repr

/-- The crash in words. -/
def Crash.message : Crash → String
  | .badNumber value fault => fault.message value
  | .uncountedWidth => "cannot fit 'int' into an index-sized integer"
  | .unheldWidth => ""
  | .nullInPath => "embedded null byte"
  | .notEncoded fault => fault.message
  | .unknownDecl => "unhandled decl type"

/-- What the arguments come to: the usage text is asked for, they are refused, or there is a run to
be made. -/
inductive Command where
  | help
  | refuse (error : UsageError)
  | run (options : Options)
  deriving DecidableEq, Repr

/-- A mapping on the command line: a name, an equals sign and the text for it. -/
def mapEntry? (value : String) : Option (String × String) :=
  let name := value.toList.takeWhile (· ≠ '=')
  match value.toList.dropWhile (· ≠ '=') with
  | _ :: text => if name.isEmpty then none else some (String.ofList name, String.ofList text)
  | [] => none

/-- The longest length that can be counted. -/
def lengthLimit : Nat := 0x7fffffffffffffff

/-- The number of spaces for a level of indentation that a text of digits asks for, where `memory` is how
many spaces a text can have at most. -/
def readWidth (memory : Nat) (value : String) : Except Crash Nat :=
  match Text.readDecimal value.toList with
  | .error fault => .error (.badNumber value fault)
  | .ok width =>
    if lengthLimit < width then .error .uncountedWidth
    else if memory < width then .error .unheldWidth
    else .ok width

/-- The options with one more value, or why the value is refused. -/
def Options.set (o : Options) (memory : Nat) (value : String) :
    Flag → Except Crash (Except UsageError Options)
  | .map =>
    match mapEntry? value with
    | some entry => .ok (.ok { o with mapEntries := o.mapEntries ++ [entry] })
    | none => .ok (.error (.badMap value))
  | .mappings => .ok (.ok { o with mappingFiles := o.mappingFiles ++ [value] })
  | .indent =>
    if value.toList.isEmpty || !value.toList.all Unicode.isDigit then
      .ok (.error (.badIndent value))
    else (readWidth memory value).map fun width => .ok { o with indentWidth := width }
  | .startModifier => .ok (.ok { o with startModifier := value })
  | .heading => .ok (.ok { o with heading := value })
  | .fieldNames =>
    match NameStyle.ofText? value with
    | some style => .ok (.ok { o with fieldNames := style })
    | none => .ok (.error (.unknownStyle value))
  | .methodNames =>
    match NameStyle.ofText? value with
    | some style => .ok (.ok { o with methodNames := style })
    | none => .ok (.error (.unknownStyle value))
  | .output => .ok (.ok { o with output := some value })

/-- What the arguments come to, given what those before them asked for. -/
def Command.ofArgsAfter (memory : Nat) (o : Options) : List String → Except Crash Command
  | [] => .ok (.run o)
  | argument :: rest =>
    if argument = "--help" || argument = "-h" then .ok .help
    else
      match Flag.ofText? argument, rest with
      | some _, [] => .ok (.refuse (.missingValue argument))
      | some flag, value :: rest => do
        match ← o.set memory value flag with
        | .ok o => Command.ofArgsAfter memory o rest
        | .error e => .ok (.refuse e)
      | none, rest =>
        if argument.toList.head? = some '-' && argument ≠ "-" then
          .ok (.refuse (.unknownFlag argument))
        else if o.input.isSome then .ok (.refuse (.extraArgument argument))
        else Command.ofArgsAfter memory { o with input := some argument } rest

/-- What the arguments come to. -/
def Command.ofArgs (memory : Nat) (args : List String) : Except Crash Command :=
  Command.ofArgsAfter memory {} args

/-- The file to read the source from; none for the standard input. -/
def Options.inputFile (o : Options) : Option String := o.input.filter (· ≠ "-")

end Typings.Cli
