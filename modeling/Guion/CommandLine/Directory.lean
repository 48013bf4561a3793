import Guion.CommandLine.Report

/-!
# Directories

Files held in memory under relative paths, read the way a file system resolves a path: component
by component, where only directories have further components.
-/

set_option autoImplicit false

namespace Guion.CommandLine

/-- A path split into its components. -/
abbrev Path : Type := List String

/-- The components of a path. -/
def Path.ofString (path : String) : Path := path.splitOn "/"

/-- The contents of files by their paths. -/
structure Directory where
  files : List (Path × ByteArray)

namespace Directory

/-- The directory that holds the named files. -/
def ofFiles (files : List (String × ByteArray)) : Directory :=
  ⟨files.map fun (name, bytes) => (Path.ofString name, bytes)⟩

/-- What is found at a place. -/
inductive Entry where
  | file (bytes : ByteArray)
  | directory

/-- What stands at a path without `.` and `..`.  Directories are the proper beginnings of the paths
of files. -/
def entry? (directory : Directory) (path : Path) : Option Entry :=
  match directory.files.lookup path with
  | some bytes => some (.file bytes)
  | none =>
    if path = [] ∨ directory.files.any (fun (file, _) => path.isPrefixOf file) then
      some .directory
    else none

/-- The longest name of a file, in bytes. -/
def maxName : Nat := 255

/-- The longest path, in bytes. -/
def maxPath : Nat := 4095

/-- What is reached by the components left outside the directory, where no file is known. -/
def outside : Path → Except ReadFailure Entry
  | [] => .ok .directory
  | name :: rest =>
    if name = "" ∨ name = "." ∨ name = ".." then outside rest
    else if maxName < name.utf8ByteSize then .error .nameTooLong
    else .error .notFound

/-- The entry reached from the directory at `here` by the components left. -/
def walk (directory : Directory) (here : Path) : Path → Except ReadFailure Entry
  | [] =>
    match directory.entry? here with
    | some entry => .ok entry
    | none => .error .notFound
  | name :: rest =>
    match directory.entry? here with
    | none => .error .notFound
    | some (.file _) => .error .notDirectory
    | some .directory =>
      if name = "" ∨ name = "." then walk directory here rest
      else if name = ".." then
        if here = [] then outside rest else walk directory here.dropLast rest
      else if maxName < name.utf8ByteSize then .error .nameTooLong
      else walk directory (here ++ [name]) rest

/-- The entry at a path, which is absolute when its first component is empty. -/
def locate (directory : Directory) (path : String) : Except ReadFailure Entry :=
  if maxPath < path.utf8ByteSize then .error .nameTooLong
  else
    match Path.ofString path with
    | "" :: rest => outside rest
    | components => directory.walk [] components

/-- The contents of the file at a path. -/
def read (directory : Directory) (path : String) : Except ReadFailure ByteArray :=
  match directory.locate path with
  | .ok (.file bytes) => .ok bytes
  | .ok .directory => .error .isDirectory
  | .error failure => .error failure

end Directory

end Guion.CommandLine
