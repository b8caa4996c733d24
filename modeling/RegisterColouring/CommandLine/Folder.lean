/-
**Files and paths.**

A path is followed step by step from a directory.  Each step stays in place, goes up, or enters the
file or directory with a name; from a file no step leads on.  Of what lies outside the starting
directory nothing is known but that the directories above it are there.

Main definitions:

* `RegisterColouring.ReadFault` — why a file cannot be read;
* `RegisterColouring.Folder` — files below one directory;
* `RegisterColouring.Folder.follow` — where a path leads;
* `RegisterColouring.Folder.read` — **the bytes under a path**.
-/

import RegisterColouring.Layout.Table

set_option autoImplicit false

namespace RegisterColouring

/-- Why a file cannot be read. -/
inductive ReadFault where
  | missing
  | notDirectory
  | nameTooLong
  | directory
  | other (reason : String)
  deriving DecidableEq, Repr

/-- The text of a read fault, for a path. -/
def ReadFault.message (path : String) : ReadFault → String
  | missing => "open " ++ path ++ ": no such file or directory"
  | notDirectory => "open " ++ path ++ ": not a directory"
  | nameTooLong => "open " ++ path ++ ": file name too long"
  | directory => "read " ++ path ++ ": is a directory"
  | other reason => "open " ++ path ++ ": " ++ reason

/-- A way to read files: the bytes under a path. -/
abbrev FileReader := String → Except ReadFault (List UInt8)

/-- Files by the names that lead to them from one directory. -/
structure Folder where
  files : List (List String × List UInt8)
  deriving DecidableEq, Repr

namespace Folder

/-- The names that a path is made of. -/
def namesOf (path : String) : List String := path.splitOn "/"

/-- Files by their paths. -/
def ofPaths (files : List (String × List UInt8)) : Folder :=
  ⟨files.map fun (path, bytes) => (namesOf path, bytes)⟩

/-- Where a path can lead: to a directory, to a file, or out of the folder. -/
inductive Place where
  | directory (names : List String)
  | file (bytes : List UInt8)
  | outside
  deriving DecidableEq, Repr

/-- The most bytes in a name, and the most in a path. -/
def nameLimit : Nat := 255

@[inherit_doc nameLimit]
def pathLimit : Nat := 4095

/-- The place that a name stands for in a directory. -/
def enter (folder : Folder) (names : List String) (name : String) : Except ReadFault Place :=
  let target := names ++ [name]
  if name.utf8ByteSize > nameLimit then .error .nameTooLong
  else match folder.files.lookup target with
    | some bytes => .ok (.file bytes)
    | none =>
      if folder.files.any (target.isPrefixOf ·.1) then .ok (.directory target)
      else .error .missing

/-- One step of a path. -/
def step (folder : Folder) : Place → String → Except ReadFault Place
  | .file _, _ => .error .notDirectory
  | .directory names, "" => .ok (.directory names)
  | .directory names, "." => .ok (.directory names)
  | .directory [], ".." => .ok .outside
  | .directory names, ".." => .ok (.directory names.dropLast)
  | .directory names, name => folder.enter names name
  | .outside, name =>
    if ["", ".", ".."].contains name then .ok .outside
    else if name.utf8ByteSize > nameLimit then .error .nameTooLong
    else .error .missing

/-- **Where a path leads.** -/
def follow (folder : Folder) (path : String) : Except ReadFault Place :=
  if path.isEmpty then .error .missing
  else if path.utf8ByteSize > pathLimit then .error .nameTooLong
  else
    let start := if path.startsWith "/" then Place.outside else .directory []
    (namesOf path).foldlM folder.step start

/-- From a file no step leads on. -/
@[simp]
theorem step_file (folder : Folder) (bytes : List UInt8) (name : String) :
    folder.step (.file bytes) name = .error .notDirectory := by
  rw [step]

/-- **The bytes under a path.** -/
def read (folder : Folder) : FileReader := fun path =>
  match folder.follow path with
  | .ok (.file bytes) => .ok bytes
  | .ok _ => .error .directory
  | .error fault => .error fault

end Folder

end RegisterColouring
