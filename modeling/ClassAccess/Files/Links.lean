import ClassAccess.Files.Host

/-!
# File trees with links

A link stands at a place of a file tree and holds a path, which is followed from there
when a path leads through the link. Reading, writing and walking follow a link that a path
ends in; making a directory does not. The text of a path no longer tells where it leads,
and one file may be found under several names.
-/

namespace ClassAccess

/-- A file tree, and the links that stand in it besides its files and directories. -/
structure LinkedTree where
  files : FileTree
  links : Std.ExtTreeMap Location Path

namespace LinkedTree

open FileTree

/-- A file tree without links. -/
def ofFiles (files : FileTree) : LinkedTree := ⟨files, ∅⟩

/-- The bytes of a regular file at a place. -/
def file? (tree : LinkedTree) (location : Location) : Option (List UInt8) :=
  tree.files.file? location

/-- How many links can be followed along a path. -/
def maxLinks : Nat := 40

/-- How far pieces of a path lead without a link. The names on the way are in reverse. -/
inductive Stretch where
  /-- They lead to a place. -/
  | whole (names : List String)
  /-- They lead to a link, with some pieces left. -/
  | link (names : List String) (target : Path) (rest : List (List Char))

/-- Follows pieces of a path up to the first link. A link behind the last piece counts if `atEnd`. -/
def stretch (tree : LinkedTree) (atEnd : Bool) :
    List String → List (List Char) → Except FileFault Stretch
  | names, [] => .ok (.whole names)
  | names, piece :: rest => do
      let next ← tree.files.follow names piece
      match if atEnd || !rest.isEmpty then tree.links[next.reverse]? else none with
      | some target => return .link next target rest
      | none => tree.stretch atEnd next rest

/-- Where a path leads. -/
structure Route where
  place : Location
  /-- The path whose end leads there: the one that is followed, or that of a link at its end. -/
  ending : Path

/-- Follows pieces of a path through links. There is one round for each of them, and a last one. -/
def arrive (tree : LinkedTree) (atEnd : Bool) :
    Nat → Path → List String → List (List Char) → Except FileFault Route
  | 0, _, _, _ => .error .tooManyLinks
  | rounds + 1, ending, names, pieces => do
      match ← tree.stretch atEnd names pieces with
      | .whole reached => return ⟨← tree.files.settle pieces reached, ending⟩
      | .link reached target rest =>
          tree.arrive atEnd rounds (if rest.isEmpty && endsInName ending then target else ending)
            (if target.isAbsolute then [] else reached.tail) (leadingPieces target ++ rest)

/-- Follows a path. A link that it ends in is followed if `atEnd`. -/
def route (tree : LinkedTree) (atEnd : Bool) (path : Path) : Except FileFault Route :=
  match textFault? path with
  | some fault => .error fault
  | none =>
      tree.arrive atEnd (maxLinks + 1) path (tree.files.startOf path).reverse (leadingPieces path)

/-- The place that a path leads to. -/
def locate (tree : LinkedTree) (path : Path) : Except FileFault Location :=
  (tree.route true path).map Route.place

/-- What a path leads to. -/
def node (tree : LinkedTree) (path : Path) : FileAnswer := do
  let route ← tree.route true path
  tree.files.nodeFor route.ending route.place

/-- Whether a path leads to a regular file. -/
def isFile (tree : LinkedTree) (path : Path) : Bool := (tree.node path).isFile

/-- Whether a path leads to a directory. -/
def isDirectory (tree : LinkedTree) (path : Path) : Bool := (tree.node path).isDirectory

/-- The bytes of a regular file. -/
def read (tree : LinkedTree) (path : Path) : Except FileFault (List UInt8) :=
  (tree.node path).bytes

/-- Writes a regular file. -/
def write (tree : LinkedTree) (path : Path) (bytes : List UInt8) :
    Except FileFault LinkedTree := do
  let route ← tree.route true path
  return { tree with files := ← tree.files.writeFor route.ending route.place bytes }

/-- Makes one directory. Where a link stands, none is made. -/
def createDirectory (tree : LinkedTree) (path : Path) : Except FileFault LinkedTree := do
  let route ← tree.route false path
  if tree.links[route.place]?.isSome then .error .alreadyExists
  else return { tree with files := ← tree.files.createFor path route.place }

/-- What is listed at a place. -/
inductive Entry where
  | node (node : FileNode)
  | link

/-- What is listed below a place, with places relative to it and in the order of file trees. -/
def entriesBelow (tree : LinkedTree) (location : Location) : List (Location × Entry) :=
  let nodes := tree.files.nodes.map fun _ node => Entry.node node
  below location (tree.links.toList.foldl (fun all link => all.insert link.1 .link) nodes).toList

/-- A directory that is being walked through. -/
structure Walked where
  path : Path
  place : Location

/-- The directories on the way along some names, from one that is being walked through. The nearest
comes first. -/
def Walked.along (directory : Walked) (names : List String) : List Walked :=
  (List.range names.length).reverse.map fun depth =>
    ⟨directory.path.joinAll (names.take depth), directory.place ++ names.take depth⟩

/-- Walks through a directory and those below it. The directories that are being walked through
already may not be led back to. Each round goes through one more link, so that the number of rounds
is bounded as the number of links along a path is. -/
def walkThrough (tree : LinkedTree) :
    Nat → List Walked → Walked → Except WalkFault (List Location)
  | 0, _, directory => .error (.failed directory.path .tooManyLinks)
  | rounds + 1, above, directory => do
      let found ← (tree.entriesBelow directory.place).mapM fun
        | (names, .node node) => visit directory.path (names, node)
        | (names, .link) => do
            let path := directory.path.joinAll names
            match ← (tree.node path).mapError (.failed path) with
            | .file _ => return [names]
            | .directory =>
                let place ← (tree.locate path).mapError (.failed path)
                let onWay := directory.along names ++ above
                match onWay.find? (·.place == place) with
                | some ancestor => .error (.loop path ancestor.path)
                | none =>
                    return (← tree.walkThrough rounds onWay ⟨path, place⟩).map (names ++ ·)
      return found.flatten

/-- The places of the regular files that are found below the directory that a path leads to, relative
to it. -/
def walk (tree : LinkedTree) (root : Path) : Except WalkFault (List Location) := do
  match ← (tree.node root).mapError (.failed root) with
  | .file _ => return [[]]
  | .directory =>
      let place ← (tree.locate root).mapError (.failed root)
      tree.walkThrough (maxLinks + 1) [] ⟨root, place⟩

end LinkedTree

instance : FileSystem LinkedTree where
  isFile := LinkedTree.isFile
  isDirectory := LinkedTree.isDirectory
  walk := LinkedTree.walk
  read := LinkedTree.read
  createDirectory := LinkedTree.createDirectory
  write := LinkedTree.write

end ClassAccess
