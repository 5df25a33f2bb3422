import TriCore.Command.Files
import TriCore.Text.Blank

/-!
# Files in memory

A file tree holds directories and files in memory. Each has a place, the names that lead to it from
the root. A path is text, and leads to a place part by part. A part leads on from a directory only:
a dot stays there, two dots go one directory up, and a name goes to what has that name.

A path that ends in a slash can only mean a directory. No file is made at such a path, whatever is
there already.

## Main definitions

* `Path`, `Path.ofString` : a path taken apart.
* `FileTree` : directories and files by their places.
* `FileTree.step`, `FileTree.follow` : the place that a part or a whole path leads to.
* `FileTree.read`, `FileTree.target` : the file to read at a path, and the place to write to.
* `FileTree.fileSystem` : the files of a tree.
* `FileTree.workspace` : a tree with files in its working directory.

## Main results

* `FileTree.file?_put` : a file that is put somewhere is found there, and no other changes.
-/

namespace TriCore

/-! ### Paths -/

/-- A path taken apart. -/
structure Path where
  /-- Whether it starts at the root, and not in the working directory. -/
  isAbsolute : Bool
  /-- What stands between slashes, without empty parts. -/
  parts : List String
  /-- Whether a slash ends it. -/
  endsInSlash : Bool
deriving DecidableEq

namespace Path

/-- The bytes that a path has to stay below. -/
def lengthLimit : Nat := 4096

/-- The most bytes of a name. -/
def longestName : Nat := 255

/-- The path in a text. An empty text leads nowhere. -/
def ofString (text : String) : Except FileError Path :=
  if text.isEmpty then .error .notFound
  else if lengthLimit ≤ text.utf8ByteSize then .error .nameTooLong
  else
    let cs := text.toList
    let parts := (Text.splitOn '/' cs).map String.ofList
    .ok ⟨cs.head? == some '/', parts.filter (! ·.isEmpty), cs.getLast? == some '/'⟩

end Path

/-! ### Places -/

/-- Where something is: the names that lead to it from the root. -/
abbrev Place := List String

/-- Directories and files held in memory. A directory is given by its place alone, and implies all
directories above it. -/
structure FileTree where
  /-- The working directory, where a path starts that is not absolute. -/
  here : Place
  directories : List Place
  files : List (Place × List UInt8)

namespace FileTree

/-- The file at a place. -/
def file? (t : FileTree) (place : Place) : Option (List UInt8) := t.files.lookup place

/-- Whether there is a directory at a place. -/
def hasDirectory (t : FileTree) (place : Place) : Bool :=
  (t.here :: t.directories).any place.isPrefixOf

/-- The tree with a file added or replaced. -/
def put (t : FileTree) (place : Place) (bytes : List UInt8) : FileTree :=
  { t with files := (place, bytes) :: t.files.filter fun entry => entry.1 != place }

private theorem lookup_filter_place {place other : Place} (h : (other == place) = false) :
    (files : List (Place × List UInt8)) →
      (files.filter fun entry => entry.1 != place).lookup other = files.lookup other
  | [] => rfl
  | (first, bytes) :: rest => by
    by_cases he : first = place
    · subst he
      simp [List.lookup_cons, h, lookup_filter_place h rest]
    · simp [he, List.lookup_cons, lookup_filter_place h rest]

/-- A file that is put somewhere is found there, and what is found elsewhere stays. -/
theorem file?_put (t : FileTree) (place other : Place) (bytes : List UInt8) :
    (t.put place bytes).file? other = if other = place then some bytes else t.file? other := by
  by_cases h : other = place
  · simp [file?, put, h]
  · have hne : (other == place) = false := beq_false_of_ne h
    simp [file?, put, h, hne, List.lookup_cons, lookup_filter_place hne]

/-! ### Following a path -/

/-- The place that one part of a path leads to. -/
def step (t : FileTree) (place : Place) (part : String) : Except FileError Place :=
  if ! t.hasDirectory place then .error .notADirectory
  else if part == "." then .ok place
  else if part == ".." then .ok place.dropLast
  else if Path.longestName < part.utf8ByteSize then .error .nameTooLong
  else if t.hasDirectory (place ++ [part]) || (t.file? (place ++ [part])).isSome then
    .ok (place ++ [part])
  else .error .notFound

/-- Where a path starts. -/
def start (t : FileTree) (path : Path) : Place := if path.isAbsolute then [] else t.here

/-- The place that some parts lead to. -/
def follow (t : FileTree) (place : Place) (parts : List String) : Except FileError Place :=
  parts.foldlM t.step place

/-- The bytes of the file that a path leads to. -/
def read (t : FileTree) (text : String) : Except FileError (List UInt8) := do
  let path ← Path.ofString text
  let place ← t.follow (t.start path) path.parts
  match t.file? place with
  | none => .error .isADirectory
  | some bytes => if path.endsInSlash then .error .notADirectory else .ok bytes

/-- The place where a path would have a file written. All but the last part have to lead to a
directory; nothing needs to have the last name yet. -/
def target (t : FileTree) (text : String) : Except FileError Place := do
  let path ← Path.ofString text
  match path.parts.getLast? with
  | none => .error .isADirectory
  | some name =>
    let place ← t.follow (t.start path) path.parts.dropLast
    if ! t.hasDirectory place then .error .notADirectory
    else if path.endsInSlash || name == "." || name == ".." then .error .isADirectory
    else if Path.longestName < name.utf8ByteSize then .error .nameTooLong
    else if t.hasDirectory (place ++ [name]) then .error .isADirectory
    else .ok (place ++ [name])

/-- The files of a tree. -/
def fileSystem : FileSystem (StateM FileTree) where
  read path := fun t => (t.read path, t)
  write path content := fun t =>
    match t.target path with
    | .ok place => (.ok (), t.put place content.toUTF8.toList)
    | .error e => (.error e, t)

/-! ### A tree to work in -/

/-- The directories below the root of a usual machine. -/
def usualDirectories : List Place :=
  ["bin", "boot", "dev", "etc", "home", "lib", "media", "mnt", "opt", "proc", "root", "run", "sbin",
    "srv", "sys", "tmp", "usr", "var"].map fun name => [name]

/-- The place of a device. -/
def device (name : String) : Place := ["dev", name]

/-- The place of a file in the working directory. -/
def inWorkingDirectory (t : FileTree) (name : String) : Place := t.here ++ [name]

/-- A usual machine with files in its working directory. Its devices are plain files, empty at
first. -/
def workspace (files : List (String × List UInt8)) : FileTree :=
  let here := ["tmp", "work"]
  { here
    directories := usualDirectories
    files :=
      (files.map fun (name, bytes) => (here ++ [name], bytes)) ++
        ["null", "stdin", "stdout", "stderr"].map fun name => (device name, []) }

end FileTree

end TriCore
