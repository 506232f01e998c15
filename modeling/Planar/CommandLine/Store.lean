import Planar.Text.Quoted

/-!
# Files

A working directory with files in it, and what paths lead to. A path is walked part by part, from
the working directory or from the root. Of what lies outside the working directory little is known:
every place above it is a directory, and so are a few places that every system has.
-/

namespace Planar.CommandLine

/-! ## Paths -/

namespace Path

/-- The parts of a path, those without meaning left out. -/
def parts (path : String) : List String :=
  (path.splitOn "/").filter fun part => part ≠ "" ∧ part ≠ "."

/-- The slashes at the front of a path that matter: two, one or none. -/
def root (path : String) : String :=
  match path.toList.takeWhile (· == '/') with
  | [] => ""
  | [_, _] => "//"
  | _ => "/"

/-- The shortest text of a path, with its parts in order. -/
def text (root : String) (parts : List String) : String :=
  if root.isEmpty && parts.isEmpty then "." else root ++ "/".intercalate parts

/-- A path without the parts that have no meaning. -/
def normal (path : String) : String := text (root path) (parts path)

/-- The last part of a path. -/
def name (path : String) : String := (parts path).getLast?.getD ""

/-- The number of bytes from which on a whole path is too long. -/
def lengthLimit : Nat := 4096

/-- The number of bytes that a part of a path may have. -/
def partLimit : Nat := 255

end Path

/-! ## Faults -/

/-- What is in the way on a path. -/
inductive Obstacle where
  | missing | exists | notDirectory | isDirectory | tooLong
deriving DecidableEq

/-- The number of an obstacle. -/
def Obstacle.code : Obstacle → Nat
  | missing => 2
  | «exists» => 17
  | notDirectory => 20
  | isDirectory => 21
  | tooLong => 36

/-- An obstacle in words. -/
def Obstacle.text : Obstacle → String
  | missing => "No such file or directory"
  | «exists» => "File exists"
  | notDirectory => "Not a directory"
  | isDirectory => "Is a directory"
  | tooLong => "File name too long"

/-- Why a file cannot be read or written. -/
inductive FileFault where
  /-- Something is in the way. -/
  | blocked (obstacle : Obstacle) (path : String)
  /-- The path has a character that no path can have. -/
  | nullByte
deriving DecidableEq

/-- What a file fault says. -/
def FileFault.message : FileFault → String
  | blocked obstacle path =>
    "[Errno " ++ toString obstacle.code ++ "] " ++ obstacle.text ++ ": " ++ Text.quoted path
  | nullByte => "embedded null byte"

/-! ## Places -/

/-- Where the parts of a place are counted from: the directory that lies so many levels above the
working directory, or the root. -/
inductive Anchor where
  | above (levels : Nat)
  | root
deriving DecidableEq

/-- A place for a file or a directory. -/
structure Place where
  anchor : Anchor
  parts : List String
deriving DecidableEq

namespace Place

/-- The working directory. -/
def working : Place := ⟨.above 0, []⟩

/-- The place under a name in a directory. -/
def child (place : Place) (name : String) : Place := { place with parts := place.parts ++ [name] }

/-- The directory above a place; the root is above itself. -/
def parent (place : Place) : Place :=
  match place.anchor, place.parts with
  | .above levels, [] => ⟨.above (levels + 1), []⟩
  | .root, [] => place
  | anchor, parts => ⟨anchor, parts.dropLast⟩

/-- Directories that every system has under its root. -/
def common : List String :=
  ["bin", "boot", "dev", "etc", "home", "lib", "media", "mnt", "opt", "proc", "root", "run", "sbin",
    "srv", "sys", "tmp", "usr", "var"]

end Place

/-! ## Stores -/

/-- What stands at a place: a file with its content, or a directory. -/
inductive Node where
  | file (content : String)
  | directory
deriving DecidableEq

/-- What stands at a place whatever has been put there: a directory above the working directory,
the root, a common directory, or the file that is always empty. -/
def Node.standing? (place : Place) : Option Node :=
  match place.anchor, place.parts with
  | _, [] => some .directory
  | .root, [name] => if Place.common.contains name then some .directory else none
  | .root, ["dev", "null"] => some (.file "")
  | _, _ => none

/-- What has been put at some places, the latest first. -/
structure Store where
  entries : List (Place × Node)

namespace Store

/-- The store with a node at a place. -/
def put (store : Store) (place : Place) (node : Node) : Store := ⟨(place, node) :: store.entries⟩

/-- The store with a file, given by its parts, and the directories above it. -/
def putFile (store : Store) (here : Place) (content : String) : List String → Store
  | [] => store.put here (.file content)
  | part :: more => (store.put here .directory).putFile (here.child part) content more

/-- The store with some files under their paths in the working directory. -/
def ofFiles (files : List (String × String)) : Store :=
  files.foldl (fun store (path, content) => store.putFile .working content (Path.parts path)) ⟨[]⟩

variable (store : Store)

/-- What stands at a place. -/
def node? (place : Place) : Option Node :=
  (store.entries.lookup place).or (Node.standing? place)

/-- One step of a walk: the directory at `here` must exist, the place it leads to need not. -/
def step (here : Place) (part : String) : Except Obstacle Place :=
  match store.node? here with
  | none => .error .missing
  | some (.file _) => .error .notDirectory
  | some .directory =>
    if part = "" ∨ part = "." then .ok here
    else if part = ".." then .ok here.parent
    else if Path.partLimit < part.utf8ByteSize then .error .tooLong
    else .ok (here.child part)

/-- The place that a path leads to. -/
def locate (path : String) : Except FileFault Place :=
  if path.toList.contains '\x00' then .error .nullByte
  else if path.isEmpty then .error (.blocked .missing path)
  else if Path.lengthLimit ≤ path.utf8ByteSize then .error (.blocked .tooLong path)
  else
    let start : Place := if path.startsWith "/" then ⟨.root, []⟩ else .working
    ((path.splitOn "/").foldlM store.step start).mapError (.blocked · path)

/-- The content of a file. -/
def read (path : String) : Except FileFault String := do
  match store.node? (← store.locate path) with
  | some (.file content) => return content
  | some .directory => throw (.blocked .isDirectory path)
  | none => throw (.blocked .missing path)

/-- Whether a path leads to a directory. -/
def isDirectory (path : String) : Bool :=
  match store.locate path with
  | .ok place => store.node? place = some .directory
  | .error _ => false

/-- Makes a directory where nothing is yet. -/
def makeDirectory (path : String) : Except FileFault Store := do
  let place ← store.locate path
  if (store.node? place).isSome then throw (.blocked .exists path)
  return store.put place .directory

/-- Makes a directory unless there is one. -/
def ensureDirectory (path : String) : Except FileFault Store :=
  match store.makeDirectory path with
  | .ok made => .ok made
  | .error fault => if store.isDirectory path then .ok store else .error fault

/-- Makes a directory, given by its parts from the innermost on. If one above it is missing, those
above are made first. -/
def makeDirectories (root : String) : List String → Except FileFault Store
  | [] => store.ensureDirectory (Path.text root [])
  | part :: above =>
    let path := Path.text root (part :: above).reverse
    match store.ensureDirectory path with
    | .error (.blocked .missing _) => do
      (← makeDirectories root above).ensureDirectory path
    | result => result

/-- Makes the directories above a path. -/
def makeParents (path : String) : Except FileFault Store :=
  store.makeDirectories (Path.root path) (Path.parts path).reverse.tail

/-- The place where a path lets a file be written. -/
def target (path : String) : Except FileFault Place := do
  let place ← store.locate path
  if store.node? place = some .directory then throw (.blocked .isDirectory path)
  return place

/-- The path of a new file at a place, if that lies in the working directory. -/
def newPath? (place : Place) : Option String :=
  if place.anchor = .above 0 ∧ (store.node? place).isNone then some (Path.text "" place.parts)
  else none

end Store

end Planar.CommandLine
