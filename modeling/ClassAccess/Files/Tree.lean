import ClassAccess.Files.Fault
import ClassAccess.Files.Path
import Std.Data.ExtTreeMap

/-!
# File trees

A file tree holds regular files and directories; links to other places are the
matter of `LinkedTree`. A path is followed step by step, from the root of the tree if
it is absolute and from the working directory if it is not, and every step but the
last must lead to a directory. Names and paths longer than a limit are refused.
Operations return the changed tree or a fault, and a failed operation changes nothing.
-/

namespace ClassAccess

/-- What stands at a place of a file tree. -/
inductive FileNode where
  | file (bytes : List UInt8)
  | directory
deriving DecidableEq, Repr

/-- What asking for the node at a path comes to. -/
abbrev FileAnswer := Except FileFault FileNode

/-- Whether an answer is a regular file. -/
def FileAnswer.isFile : FileAnswer → Bool
  | .ok (.file _) => true
  | _ => false

/-- Whether an answer is a directory. -/
def FileAnswer.isDirectory : FileAnswer → Bool
  | .ok .directory => true
  | _ => false

/-- The bytes of the regular file that an answer is. -/
def FileAnswer.bytes : FileAnswer → Except FileFault (List UInt8)
  | .ok (.file bytes) => .ok bytes
  | .ok .directory => .error .isADirectory
  | .error fault => .error fault

/-- A place of a file tree: the names on the way to it from the root. -/
abbrev Location := List String

/-- The files and directories at each place. The working directory and the directories on the
way to it, the root among them, are there without being listed. -/
structure FileTree where
  /-- The place of the working directory. -/
  home : Location
  nodes : Std.ExtTreeMap Location FileNode

/-- Why a walk through directories fails. -/
inductive WalkFault where
  /-- Something at a path cannot be looked at. -/
  | failed (path : Path) (fault : FileFault)
  /-- A link leads back to a directory that is being walked through. -/
  | loop (child ancestor : Path)
deriving DecidableEq, Repr

/-- The wording of a fault of a walk. -/
def WalkFault.message : WalkFault → String
  | failed path fault => "IO error for operation on " ++ path.text ++ ": " ++ fault.message
  | loop child ancestor =>
      "File system loop found: " ++ child.text ++ " points to an ancestor " ++ ancestor.text

namespace FileTree

/-- The tree with nothing in its working directory. -/
def empty (home : Location) : FileTree := ⟨home, ∅⟩

instance : Inhabited FileTree := ⟨empty []⟩

/-- What stands at a place. -/
def nodeAt? (tree : FileTree) (location : Location) : Option FileNode :=
  if location.isPrefixOf tree.home then some .directory else tree.nodes[location]?

/-- The length in bytes of the longest name. -/
def maxNameLength : Nat := 255

/-- Looks for what stands at a place. A name that is too long is refused before that. -/
def lookUp (tree : FileTree) (location : Location) : Except FileFault (Option FileNode) :=
  if location.getLast?.any (maxNameLength < ·.utf8ByteSize) then .error .nameTooLong
  else .ok (tree.nodeAt? location)

/-- Why a place cannot be gone on from, if it cannot. -/
def faultAt? (tree : FileTree) (location : Location) : Option FileFault :=
  match tree.lookUp location with
  | .error fault => some fault
  | .ok none => some .notFound
  | .ok (some (.file _)) => some .notADirectory
  | .ok (some .directory) => none

/-- The first fault on the way to a place that cannot be gone on from. -/
def faultOnWay (tree : FileTree) (location : Location) : FileFault :=
  ((List.range (location.length + 1)).findSome? fun depth =>
    tree.faultAt? (location.take depth)).getD .notFound

/-- Requires a directory at a place. -/
def requireDirectory (tree : FileTree) (location : Location) : Except FileFault Unit :=
  if (tree.faultAt? location).isNone then .ok () else .error (tree.faultOnWay location)

/-- Follows one piece of a path. The names on the way are given and returned in reverse. Before
a piece that is not a name there must be a directory. -/
def follow (tree : FileTree) (names : List String) (piece : List Char) :
    Except FileFault (List String) := do
  if piece = ['.'] then
    tree.requireDirectory names.reverse
    return names
  else if piece = ['.', '.'] then
    tree.requireDirectory names.reverse
    return names.tail
  else
    return String.ofList piece :: names

/-- The pieces of a path that lead somewhere. -/
def leadingPieces (path : Path) : List (List Char) := path.pieces.filter fun piece => !piece.isEmpty

/-- The length in bytes of the longest path. -/
def maxPathLength : Nat := 4095

/-- Whether a path is too long to be followed. -/
def isTooLong (path : Path) : Bool := maxPathLength < path.text.utf8ByteSize

/-- Why the text of a path leads nowhere, whatever the tree holds. -/
def textFault? (path : Path) : Option FileFault :=
  if path.text.toList.any (·.toNat == 0) then some .nulInName
  else if path.text.isEmpty then some .notFound
  else if isTooLong path then some .nameTooLong
  else none

/-- The place that a path starts from. -/
def startOf (tree : FileTree) (path : Path) : Location := if path.isAbsolute then [] else tree.home

/-- Whether the last of some leading pieces is a name. -/
def endInName (pieces : List (List Char)) : Bool :=
  match pieces.getLast? with
  | none => false
  | some piece => piece ≠ ['.'] ∧ piece ≠ ['.', '.']

/-- Whether the last leading piece of a path is a name. -/
def leadsToName (path : Path) : Bool := endInName (leadingPieces path)

/-- The place that some pieces have led to. Nothing need stand there, but a last name must stand in
a directory. -/
def settle (tree : FileTree) (pieces : List (List Char)) (names : List String) :
    Except FileFault Location := do
  if endInName pieces then tree.requireDirectory names.tail.reverse
  return names.reverse

/-- The place that a path leads to. -/
def locate (tree : FileTree) (path : Path) : Except FileFault Location := do
  match textFault? path with
  | some fault => .error fault
  | none =>
      let pieces := leadingPieces path
      tree.settle pieces (← pieces.foldlM tree.follow (tree.startOf path).reverse)

/-- Whether a path ends in a separator. -/
def endsInSeparator (path : Path) : Bool := path.text.toList.getLast? == some '/'

/-- What stands at the place that a path leads to. -/
def nodeFor (tree : FileTree) (path : Path) (location : Location) : FileAnswer := do
  match ← tree.lookUp location with
  | none => .error .notFound
  | some (.file bytes) =>
      if endsInSeparator path then .error .notADirectory else .ok (.file bytes)
  | some .directory => .ok .directory

/-- What a path leads to. -/
def node (tree : FileTree) (path : Path) : FileAnswer := do
  tree.nodeFor path (← tree.locate path)

/-- Whether a path leads to a regular file. -/
def isFile (tree : FileTree) (path : Path) : Bool := (tree.node path).isFile

/-- Whether a path leads to a directory. -/
def isDirectory (tree : FileTree) (path : Path) : Bool := (tree.node path).isDirectory

/-- The bytes of a regular file. -/
def read (tree : FileTree) (path : Path) : Except FileFault (List UInt8) := (tree.node path).bytes

/-- Whether a path ends in a name and not in `.`, `..` or a separator. -/
def endsInName (path : Path) : Bool :=
  match path.pieces.getLast? with
  | none => false
  | some piece => piece ≠ [] ∧ piece ≠ ['.'] ∧ piece ≠ ['.', '.']

/-- The tree after a node was put at a place. -/
def put (tree : FileTree) (location : Location) (node : FileNode) : FileTree :=
  { tree with nodes := tree.nodes.insert location node }

/-- Writes a regular file at the place that a path leads to. It is made or replaced. -/
def writeFor (tree : FileTree) (path : Path) (location : Location) (bytes : List UInt8) :
    Except FileFault FileTree := do
  if !endsInName path then .error .isADirectory
  else
    match ← tree.lookUp location with
    | some .directory => .error .isADirectory
    | _ => .ok (tree.put location (.file bytes))

/-- Writes a regular file. -/
def write (tree : FileTree) (path : Path) (bytes : List UInt8) : Except FileFault FileTree := do
  tree.writeFor path (← tree.locate path) bytes

/-- Makes one directory at the place that a path leads to. -/
def createFor (tree : FileTree) (path : Path) (location : Location) :
    Except FileFault FileTree := do
  if !leadsToName path then .error .alreadyExists
  else
    match ← tree.lookUp location with
    | some _ => .error .alreadyExists
    | none => .ok (tree.put location .directory)

/-- Makes one directory. -/
def createDirectory (tree : FileTree) (path : Path) : Except FileFault FileTree := do
  tree.createFor path (← tree.locate path)

/-- The bytes of a regular file at a place. -/
def file? (tree : FileTree) (location : Location) : Option (List UInt8) :=
  match tree.nodeAt? location with
  | some (.file bytes) => some bytes
  | _ => none

/-- What of a list stands below a place, with places relative to it. -/
def below {α : Type} (location : Location) (entries : List (Location × α)) : List (Location × α) :=
  entries.filterMap fun entry =>
    if location.isPrefixOf entry.1 then some (entry.1.drop location.length, entry.2) else none

/-- What stands below a directory, with places relative to it. Places are ordered by their first
different name, so that each directory comes right before what it holds. -/
def nodesBelow (tree : FileTree) (location : Location) : List (Location × FileNode) :=
  below location tree.nodes.toList

/-- A regular file with the names that lead to it. -/
def fileOf : Location × FileNode → Option (Location × List UInt8)
  | (names, .file bytes) => some (names, bytes)
  | (_, .directory) => none

/-- The regular files below a directory with their places relative to it. -/
def filesBelow (tree : FileTree) (location : Location) : List (Location × List UInt8) :=
  (tree.nodesBelow location).filterMap fileOf

/-- What a walk that starts from a path finds at a place below it. A directory is listed by its
path. -/
def visit (root : Path) : Location × FileNode → Except WalkFault (List Location)
  | (names, .file _) => .ok [names]
  | (names, .directory) =>
      let path := root.joinAll names
      if isTooLong path then .error (.failed path .nameTooLong) else .ok []

/-- The places of the regular files below the directory that a path leads to, relative to it. -/
def walk (tree : FileTree) (root : Path) : Except WalkFault (List Location) := do
  match ← (tree.node root).mapError (.failed root) with
  | .file _ => .ok [[]]
  | .directory =>
      let below := tree.nodesBelow (← (tree.locate root).mapError (.failed root))
      return (← below.mapM (visit root)).flatten

end FileTree

end ClassAccess
