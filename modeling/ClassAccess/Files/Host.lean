import ClassAccess.Files.Tree
import ClassAccess.Log

/-!
# Hosts

A host is where a program runs: it offers the file operations that the program
needs and takes what the program shows. A session is a host whose files are a
value, such as a file tree; a run on it is a function, about which theorems can be
stated.
-/

namespace ClassAccess

/-- The operations that programs of this library need. -/
class Host (m : Type → Type) where
  /-- Whether a path leads to a regular file. -/
  isFile : Path → m Bool
  /-- Whether a path leads to a directory. -/
  isDirectory : Path → m Bool
  /-- What is found below a directory besides directories, by the names on the way from it. The
  entries of each directory come in ascending order of their names. A directory that cannot be
  listed is a fault. -/
  walk : Path → m (Except WalkFault (List (List String)))
  /-- The bytes of a file. -/
  readFile : Path → m (Except FileFault (List UInt8))
  /-- Makes one directory. -/
  createDirectory : Path → m (Except FileFault Unit)
  /-- Makes or replaces a file. -/
  writeFile : Path → List UInt8 → m (Except FileFault Unit)
  /-- Takes an entry of the log. -/
  report : Log.Entry → m Unit
  /-- Takes a piece of the printed text. -/
  print : String → m Unit

/-- Values that stand for the files of a machine. Operations that change them return the changed
files or a fault. -/
class FileSystem (σ : Type) where
  isFile : σ → Path → Bool
  isDirectory : σ → Path → Bool
  walk : σ → Path → Except WalkFault (List (List String))
  read : σ → Path → Except FileFault (List UInt8)
  createDirectory : σ → Path → Except FileFault σ
  write : σ → Path → List UInt8 → Except FileFault σ

instance : FileSystem FileTree where
  isFile := FileTree.isFile
  isDirectory := FileTree.isDirectory
  walk := FileTree.walk
  read := FileTree.read
  createDirectory := FileTree.createDirectory
  write := FileTree.write

/-- The files that a run sees and changes, and what it has shown. -/
structure SessionOn (σ : Type) where
  tree : σ
  log : Array Log.Entry
  printed : String

/-- A session whose files are a file tree. -/
abbrev Session := SessionOn FileTree

namespace SessionOn

variable {σ : Type}

/-- The session that starts with some files. -/
def start (tree : σ) : SessionOn σ := ⟨tree, #[], ""⟩

/-- Carries out an operation that changes the files. -/
def change (operation : σ → Except FileFault σ) :
    StateM (SessionOn σ) (Except FileFault Unit) := do
  let session ← get
  match operation session.tree with
  | .error fault => return .error fault
  | .ok tree => do
      set { session with tree }
      return .ok ()

instance [FileSystem σ] : Host (StateM (SessionOn σ)) where
  isFile path := do return FileSystem.isFile (← get).tree path
  isDirectory path := do return FileSystem.isDirectory (← get).tree path
  walk path := do return FileSystem.walk (← get).tree path
  readFile path := do return FileSystem.read (← get).tree path
  createDirectory path := change (FileSystem.createDirectory · path)
  writeFile path bytes := change (FileSystem.write · path bytes)
  report entry := modify fun session => { session with log := session.log.push entry }
  print text := modify fun session => { session with printed := session.printed ++ text }

end SessionOn

end ClassAccess
