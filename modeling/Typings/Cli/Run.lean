import Typings.Cli.Options
import Typings.Json.Reader
import Typings.Rendering
import Typings.Text.Utf8

/-!
# Runs of the command

A run turns arguments, files and the standard input into an exit code or a crash, two texts and at most one
written file. All files are read before anything is written.

The texts of mappings may have surrogates in them, and so may what is rendered with them. It is rendered with
characters that stand in for the surrogates, and told from how it looks with different ones.
-/

namespace Typings.Cli

/-- What a run can see: the content of a file that can be read, whether a file can be opened to be written,
the standard input, and how many spaces a text can have at most in memory. An opened file and the standard
output take every text that can be encoded in UTF-8, where no surrogate can; and no nesting of a text is too
deep to be read. -/
structure World where
  read : String → Option (List UInt8)
  writable : String → Bool
  stdin : List UInt8
  memory : Nat := lengthLimit

/-- How a run ends: with an exit code, or with a crash. -/
inductive Ending where
  | exit (code : Nat)
  | crash (crash : Crash)
  deriving DecidableEq, Repr

/-- What a run leaves behind: how it ended, what it printed, and the file that it wrote, with its text. -/
structure Outcome where
  ending : Ending
  stdout : String := ""
  stderr : String := ""
  written : Option (String × String) := none
  deriving DecidableEq, Repr

/-- Why a run that began fails. -/
inductive Failure where
  | cannotOpenMappings (path : String)
  | nullInMappings (path : String)
  | notUtf8 (path : String) (fault : Text.Utf8Fault)
  | notJson (path : String) (error : Json.ReadError)
  | notAnObject (path : String)
  | notAString (path : String) (key : CodePoints)
  | cannotOpenInput (path : String)
  | inputNotUtf8
  | refusedSource (error : SourceError)
  | cannotWrite (path : String)
  deriving DecidableEq, Repr

/-- The reason in words. -/
def Failure.message : Failure → String
  | .cannotOpenMappings path => "cannot open '" ++ path ++ "'"
  | .nullInMappings path => path ++ ": invalid JSON: " ++ Crash.nullInPath.message
  | .notUtf8 path fault => path ++ ": invalid JSON: " ++ fault.message
  | .notJson path error => path ++ ": invalid JSON: " ++ error.message
  | .notAnObject path => path ++ ": expected a JSON object"
  | .notAString path key => path ++ ": mapping for '" ++ key.escaped ++ "' is not a string"
  | .cannotOpenInput path => "cannot open '" ++ path ++ "'"
  | .inputNotUtf8 => "invalid utf-8 in input"
  | .refusedSource error => "parse error: " ++ error.message
  | .cannotWrite path => "cannot write '" ++ path ++ "'"

/-- A line of a report. -/
def reportLine (text : String) : String := "tygoja: " ++ text ++ "\n"

/-- The usage text. -/
def usage : String :=
  "tygoja [OPTIONS] [INPUT] [-o OUTPUT]\n"
    ++ "\n"
    ++ "Translate Go type and func declarations into TypeScript declarations.\n"
    ++ "Reads INPUT, or stdin when INPUT is omitted.\n"
    ++ "\n"
    ++ "Options:\n"
    ++ "  --map GO=TS             Map a Go type (Name, pkg.Name or pkg.*) to TypeScript text\n"
    ++ "  --mappings FILE         Read type mappings from a JSON object\n"
    ++ "  --indent N              Spaces per indentation level (default 2)\n"
    ++ "  --start-modifier WORD   Prefix for top-level declarations (e.g. export, declare)\n"
    ++ "  --heading TEXT          Text written at the top of the output\n"
    ++ "  --field-names STYLE     Struct field names: keep, camel (default keep)\n"
    ++ "  --method-names STYLE    Method names: keep, camel (default keep)\n"
    ++ "  -o, --output FILE       Write output to FILE instead of stdout\n"
    ++ "  --help                  Show this help message\n"

/-! ## Mappings -/

/-- A null character is in the path, so that no file can have it. -/
def hasNull (path : String) : Bool := path.toList.contains '\x00'

/-- The entries of mapping files, in order. -/
abbrev Table := List (CodePoints × CodePoints)

/-- The entries of a mapping object: all of its values are strings. -/
def stringEntries (path : String) : List (CodePoints × Json.Value) → Except Failure Table
  | [] => .ok []
  | (key, .string text) :: entries => do
    let more ← stringEntries path entries
    .ok ((key, text) :: more)
  | (key, _) :: _ => .error (.notAString path key)

/-- The entries of a mapping file. -/
def readMappings (world : World) (path : String) : Except Failure Table := do
  if hasNull path then .error (.nullInMappings path)
  else
    match world.read path with
    | none => .error (.cannotOpenMappings path)
    | some bytes =>
      let text ← (Text.decodeUtf8 bytes).mapError (.notUtf8 path)
      match ← (Json.read text).mapError (.notJson path) with
      | .object entries => stringEntries path entries
      | _ => .error (.notAnObject path)

/-- The entries of mapping files in order. -/
def readAllMappings (world : World) : List String → Except Failure Table
  | [] => .ok []
  | path :: paths => do
    let entries ← readMappings world path
    let more ← readAllMappings world paths
    .ok (entries ++ more)

/-- Mappings to which entries are added one after another. -/
def insertAll (m : Mappings) (entries : List (String × String)) : Mappings :=
  entries.foldl (fun m (key, text) => m.insert key text) m

/-- The entries of a table as strings, with characters that stand in for the surrogates in their texts. No
name has a surrogate in it, so an entry for a key with one is for no name. -/
def Table.fill (table : Table) (standIn : StandIn) : List (String × String) :=
  table.filterMap fun entry =>
    entry.1.encode.toOption.map fun name => (name, entry.2.fill standIn)

/-- The surrogates in the texts of a table. -/
def Table.surrogates (table : Table) : List Surrogate :=
  (table.flatMap fun entry => entry.2.surrogates).eraseDups

/-- The options of the rendering. The entries from files come before those from the arguments, so
that the latter win. -/
def Options.config (o : Options) (table : Table) (standIn : StandIn) : Config :=
  { indent := "".pushn ' ' o.indentWidth
    startModifier := o.startModifier
    heading := o.heading
    mappings := insertAll {} (table.fill standIn ++ o.mapEntries)
    fieldNames := o.fieldNames
    methodNames := o.methodNames }

/-! ## Runs -/

/-- Why a run ends before anything is rendered. -/
inductive Stop where
  | failed (failure : Failure)
  | crashed (crash : Crash)
  deriving DecidableEq, Repr

/-- What a run leaves behind that ends before anything is rendered. -/
def Stop.outcome : Stop → Outcome
  | .failed failure => { ending := .exit 1, stderr := reportLine failure.message }
  | .crashed crash => { ending := .crash crash }

/-- The bytes of the source. -/
def sourceBytes (world : World) : Option String → Except Stop (List UInt8)
  | none => .ok world.stdin
  | some path =>
    if hasNull path then .error (.crashed .nullInPath)
    else
      match world.read path with
      | some bytes => .ok bytes
      | none => .error (.failed (.cannotOpenInput path))

/-- The source text. -/
def sourceText (world : World) (input : Option String) : Except Stop String := do
  let bytes ← sourceBytes world input
  match Text.decodeUtf8 bytes with
  | .ok cs => .ok (String.ofList cs)
  | .error _ => .error (.failed .inputNotUtf8)

/-- The warnings of a run, and then its unresolved names without those that the source declares. -/
def reportText (noted : Diagnostics) (declared : NameSet) : String :=
  String.join (noted.warnings.map fun w => reportLine w.text)
    ++ String.join ((noted.unknown.toList.filter fun name => !declared.contains name).map
      fun name => reportLine ("unknown type: " ++ name))

/-- The entries of the mapping files and the file to be rendered. -/
def prepare (world : World) (o : Options) : Except Stop (Table × File) := do
  let table ← (readAllMappings world o.mappingFiles).mapError .failed
  let source ← sourceText world o.inputFile
  let file ← (File.parse source).mapError fun e => .failed (.refusedSource e)
  .ok (table, file)

/-- What is left behind when a text is ready: it goes to a file or is printed. A file that has been opened is
empty until the text is encoded. -/
def deliver (world : World) (o : Options) (text : CodePoints) (reported : String) : Outcome :=
  match o.output with
  | none =>
    match text.encode with
    | .ok text => { ending := .exit 0, stdout := text, stderr := reported }
    | .error fault => { ending := .crash (.notEncoded fault), stderr := reported }
  | some path =>
    if hasNull path then { ending := .crash .nullInPath, stderr := reported }
    else if !world.writable path then
      { ending := .exit 1, stderr := reported ++ reportLine (Failure.cannotWrite path).message }
    else
      match text.encode with
      | .ok text => { ending := .exit 0, stderr := reported, written := some (path, text) }
      | .error fault =>
        { ending := .crash (.notEncoded fault), stderr := reported, written := some (path, "") }

/-- The text of a rendering; none if there is no rendering. -/
def textOf : Except RenderError Rendering → String
  | .ok rendering => rendering.text
  | .error _ => ""

/-- What a file is rendered as. -/
def Options.outputText (o : Options) (table : Table) (file : File) : CodePoints :=
  .ofFilled table.surrogates fun standIn =>
    textOf (Rendering.ofDecls (o.config table standIn) file.decls)

/-- A run with the given options. -/
def Options.run (o : Options) (world : World) : Outcome :=
  match prepare world o with
  | .error stop => stop.outcome
  | .ok (table, file) =>
    match Rendering.ofDecls (o.config table CodePoints.plainly) file.decls with
    | .error .unknownDecl => { ending := .crash .unknownDecl }
    | .ok rendering =>
      deliver world o (o.outputText table file)
        (reportText rendering.noted (Decl.introduced file.decls))

/-- A run with the given arguments. -/
def run (world : World) (args : List String) : Outcome :=
  match Command.ofArgs world.memory args with
  | .error crash => { ending := .crash crash }
  | .ok .help => { ending := .exit 0, stdout := usage }
  | .ok (.refuse e) => { ending := .exit 2, stderr := reportLine e.message }
  | .ok (.run o) => o.run world

end Typings.Cli
