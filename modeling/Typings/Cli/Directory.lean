import Typings.Cli.Run

/-!
# Runs in a directory

A directory as a list of files, in which paths are looked up part by part. Of what lies outside of
the directory, only the null file exists, which is empty and keeps nothing that is written to it.
-/

namespace Typings.Cli

/-- Files with their contents, each under the parts of its path. -/
structure Directory where
  files : List (List String × List UInt8) := []
  deriving DecidableEq, Repr

namespace Directory

/-- The parts of a path between its slashes. -/
def parts (path : String) : List String := (Text.splitOn '/' path.toList).map String.ofList

/-- A directory with the given files. -/
def ofFiles (files : List (String × List UInt8)) : Directory :=
  ⟨files.map fun (path, bytes) => (parts path, bytes)⟩

/-- The parts lead to a directory: they lead nowhere, or part of the way to a file. -/
def isDirectory (d : Directory) (place : List String) : Bool :=
  place.isEmpty || d.files.any fun (path, _) => place.isPrefixOf path && place ≠ path

/-- Following the parts of a path from a place. All but the last lead through directories. -/
def follow (d : Directory) (place : List String) : List String → Option (List String)
  | [] => some place
  | part :: rest =>
    if !d.isDirectory place then none
    else if part = "" || part = "." then d.follow place rest
    else if part = ".." then if place.isEmpty then none else d.follow place.dropLast rest
    else if 255 < part.utf8ByteSize then none
    else d.follow (place ++ [part]) rest

/-- The place of a file that a path names, whether or not it exists. -/
def place? (d : Directory) (path : String) : Option (List String) :=
  if path.toList.head? = some '/' || 4095 < path.utf8ByteSize then none
  else (d.follow [] (parts path)).filter fun place =>
    !d.isDirectory place

/-- The path of the null file. -/
def nullPath : String := "/dev/null"

/-- The content of a file. -/
def read (d : Directory) (path : String) : Option (List UInt8) :=
  if path = nullPath then some [] else (d.place? path).bind fun place => d.files.lookup place

/-- A file may be written there. -/
def isWritable (d : Directory) (path : String) : Bool :=
  path = nullPath || (d.place? path).isSome

/-- What a run in the directory can see. -/
def world (d : Directory) (stdin : List UInt8) : World :=
  { read := d.read, writable := d.isWritable, stdin := stdin }

/-- The file that an outcome writes, under its path and with its text, unless there was one with the
same content. -/
def changes (d : Directory) (outcome : Outcome) : Option (String × String) := do
  let (path, text) ← outcome.written
  let place ← d.place? path
  if d.files.lookup place = some text.toUTF8.toList then none
  else some ("/".intercalate place, text)

end Directory

end Typings.Cli
