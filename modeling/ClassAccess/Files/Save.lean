import ClassAccess.ClassFile.Basic
import ClassAccess.Files.Host

/-!
# Saving files

A file is written after the directories on the way to it were made, where that
is asked for.
-/

namespace ClassAccess.Host

variable {m : Type → Type} [Monad m] [Host m]

/-- Overlooks a failure to make a directory that is there. -/
def acceptExisting (path : Path) (made : Except FileFault Unit) : m (Except FileFault Unit) := do
  match made with
  | .ok () => return .ok ()
  | .error fault => if ← isDirectory path then return .ok () else return .error fault

/-- Makes the first of some directories, of which each lies in the next one. The later ones are
made only when they turn out to be missing. -/
def createFirst : List Path → m (Except FileFault Unit)
  | [] => return .ok ()
  | path :: above => do
      match ← createDirectory path with
      | .error .notFound =>
          match ← createFirst above with
          | .error fault => return .error fault
          | .ok () => acceptExisting path (← createDirectory path)
      | made => acceptExisting path made

/-- Makes a directory and those on the way to it, unless it is there. -/
def createDirectories (path : Path) : m (Except FileFault Unit) := createFirst path.ancestors

/-- Makes the directory that a path lies in. -/
def createParent (path : Path) : m (Except FileFault Unit) := createFirst path.ancestors.tail

/-- Writes a file into a directory that is made where it is missing. -/
def saveFile (path : Path) (bytes : List UInt8) : m (Except FileFault Unit) := do
  match ← createParent path with
  | .error fault => return .error fault
  | .ok () => writeFile path bytes

end ClassAccess.Host

namespace ClassAccess.ClassFile

variable {m : Type → Type} [Monad m] [Host m]

/-- Writes a class file, with the directories on the way to it if `createMissing`. -/
def save (file : ClassFile) (path : Path) (createMissing : Bool) : m (Except FileFault Unit) :=
  if createMissing then Host.saveFile path file.toBytes else Host.writeFile path file.toBytes

end ClassAccess.ClassFile
