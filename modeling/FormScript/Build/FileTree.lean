import FormScript.Build.FileStore

/-!
# File trees

A file system as a value: files and folders by their location below the root, and a working folder. A path
that begins with a slash is resolved from the root, any other from the working folder. This goes step by
step: every step needs a folder to start from, `.` stays there and `..` goes up, at the root not further.
A name may have `maxNameBytes` bytes and a path `maxPathBytes`.

The system may refuse access to an entry, for a reason of its own, and there may be a limit to the size of
files. An operation that is refused changes nothing; content that is too large is cut off at the limit.
-/

namespace FormScript.Build

/-- The name of an entry in its folder. -/
abbrev Name := ByteString

/-- The names of the folders that lead from the root to an entry, and its own name. -/
abbrev Location := List Name

/-- A file or a folder. -/
inductive Node where
  | file (content : ByteArray)
  | folder

/-- What is done with an entry and may be refused. -/
inductive Access where
  /-- To go on from a folder. -/
  | search
  /-- To make a file in a folder. -/
  | create
  | read
  | overwrite
  | remove
deriving DecidableEq

/-- A file or a folder, and what the system refuses to do with it. -/
structure Entry where
  node : Node
  refuses : Access → Option FileFault

namespace Entry

/-- A file that everything may be done with. -/
def file (content : ByteArray) : Entry := ⟨.file content, fun _ => none⟩

/-- A folder that everything may be done with. -/
def folder : Entry := ⟨.folder, fun _ => none⟩

/-- The entry, if an access to it is not refused. -/
def allow (entry : Entry) (access : Access) : Except FileFault Entry :=
  match entry.refuses access with
  | some fault => .error fault
  | none => .ok entry

end Entry

/-- The entries of a file system, the root included, and the working folder. -/
structure FileTree where
  entries : List (Location × Entry)
  home : Location
  /-- The most bytes that a file may have, if there is a limit. -/
  maxFileBytes : Option Nat := none

namespace FileTree

/-- The entry at a location. -/
def get? (t : FileTree) (location : Location) : Option Entry :=
  (t.entries.find? fun (l, _) => decide (l = location)).map (·.2)

/-- The tree without the entry at a location. -/
def erase (t : FileTree) (location : Location) : FileTree :=
  { t with entries := t.entries.filter fun (l, _) => decide (l ≠ location) }

/-- The tree with an entry at a location. -/
def insert (t : FileTree) (location : Location) (entry : Entry) : FileTree :=
  { t with entries := (t.erase location).entries ++ [(location, entry)] }

/-! ## Paths -/

/-- The byte between the names of a path. -/
def slash : UInt8 := 0x2f

/-- The byte of the names that stay or go up. -/
def dot : UInt8 := 0x2e

/-- The most bytes that a name may have. -/
def maxNameBytes : Nat := 255

/-- The most bytes that a path may have. -/
def maxPathBytes : Nat := 4095

/-- The names of a path. -/
def namesOf (path : Path) : List Name := (path.bytes.splitOn slash).map ByteString.mk

/-- The location that a name leads to from a folder. -/
def descend (folder : Location) (name : Name) : Except FileFault Location :=
  if name.bytes = [dot] then .ok folder
  else if name.bytes = [dot, dot] then .ok folder.dropLast
  else if maxNameBytes < name.bytes.length then .error .nameTooLong
  else .ok (folder ++ [name])

/-- The location reached from another one by one name of a path. Between two slashes, and after the last
    one, there is an empty name, for which nothing is searched. -/
def stepTo (t : FileTree) (location : Location) (name : Name) : Except FileFault Location :=
  match t.get? location with
  | none => .error .notFound
  | some entry =>
    match entry.node with
    | .file _ => .error .notADirectory
    | .folder =>
      if name.bytes = [] then .ok location
      else do
        let _ ← entry.allow .search
        descend location name

/-- Where a path begins. -/
def beginning (t : FileTree) (path : Path) : Location :=
  if path.bytes.head? = some slash then [] else t.home

/-- The location that a path leads to; its last name need not exist there. -/
def resolve (t : FileTree) (path : Path) : Except FileFault Location :=
  if path.bytes.contains 0 then .error .nulInPath
  else if path.bytes.isEmpty then .error .notFound
  else if maxPathBytes < path.bytes.length then .error .nameTooLong
  else (namesOf path).foldlM t.stepTo (t.beginning path)

/-- The entry that a path names. -/
def entryAt (t : FileTree) (path : Path) : Except FileFault Entry := do
  match t.get? (← t.resolve path) with
  | some entry => return entry
  | none => .error .notFound

/-! ## File operations -/

def kindOf (t : FileTree) (path : Path) : Except FileFault FileKind := do
  match (← t.entryAt path).node with
  | .file _ => return .file
  | .folder => return .folder

/-- The entry that a path names, opened to be read. -/
def openToRead (t : FileTree) (path : Path) : Except FileFault Entry := do
  (← t.entryAt path).allow .read

def read (t : FileTree) (path : Path) : Except FileFault ByteArray := do
  match (← t.openToRead path).node with
  | .file content => return content
  | .folder => .error .isADirectory

def remove (t : FileTree) (path : Path) : Except FileFault FileTree := do
  let location ← t.resolve path
  match t.get? location with
  | none => .error .notFound
  | some entry =>
    match entry.node with
    | .folder => .error .isADirectory
    | .file _ =>
      let _ ← entry.allow .remove
      return t.erase location

/-- What a file at a location refuses when it is opened to be written; a new one refuses nothing. -/
def openToWrite (t : FileTree) (location : Location) : Except FileFault (Access → Option FileFault) := do
  match t.get? location with
  | some entry =>
    match entry.node with
    | .folder => .error .isADirectory
    | .file _ => return (← entry.allow .overwrite).refuses
  | none =>
    match t.get? location.dropLast with
    | none => .error .notFound
    | some folder =>
      let _ ← folder.allow .create
      return fun _ => none

/-- Fills a file that is opened to be written, as far as it may. -/
def fill (t : FileTree) (location : Location) (refuses : Access → Option FileFault) (content : ByteArray) :
    Except FileFault Unit × FileTree :=
  let filled := fun content => t.insert location ⟨.file content, refuses⟩
  match t.maxFileBytes with
  | none => (.ok (), filled content)
  | some limit =>
    if content.size ≤ limit then (.ok (), filled content)
    else (.error .fileTooLarge, filled (content.extract 0 limit))

def write (t : FileTree) (path : Path) (content : ByteArray) : Except FileFault Unit × FileTree :=
  match t.resolve path with
  | .error fault => (.error fault, t)
  | .ok location =>
    match t.openToWrite location with
    | .error fault => (.error fault, t)
    | .ok refuses => t.fill location refuses content

instance : FileStore (StateM FileTree) where
  kindOf path := fun t => (t.kindOf path, t)
  openToRead path := fun t => ((t.openToRead path).map fun _ => (), t)
  read path := fun t => (t.read path, t)
  write path content := fun t => t.write path content
  remove path := fun t =>
    match t.remove path with
    | .ok after => (.ok (), after)
    | .error fault => (.error fault, t)

end FileTree

end FormScript.Build
