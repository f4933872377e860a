import ClassAccess.Command.Run

/-!
# The program

Runs commands on the files of the machine. Everything that is decided is decided
by `Command.execute`; this module only carries out its file operations and shows
what it reports.
-/

namespace ClassAccess.Main

/-- The fault that an error of the system stands for. Some operations negate error numbers. -/
def faultOf (error : IO.Error) : FileFault :=
  match error with
  | .noFileOrDirectory .. => .notFound
  | .alreadyExists .. => .alreadyExists
  | .inappropriateType _ code _ =>
      if code = 20 ∨ code = 0 - 20 then .notADirectory
      else if code = 21 ∨ code = 0 - 21 then .isADirectory
      else .other error.toString
  | .invalidArgument _ code _ =>
      if code = 36 ∨ code = 0 - 36 then .nameTooLong else .other error.toString
  | _ => .other error.toString

/-- Carries out an operation of the system and catches its fault. -/
def attempt {α : Type} (operation : IO α) : IO (Except FileFault α) := do
  match ← operation.toBaseIO with
  | .ok value => return .ok value
  | .error error => return .error (faultOf error)

/-- What a text leads to when it is a path. -/
def metadata (text : String) : IO IO.FS.Metadata := do
  let here ← IO.currentDir
  { here with toString := text }.metadata

/-- Whether a path leads to something of a type. -/
def hasType (path : Path) (type : IO.FS.FileType) : IO Bool := do
  match ← attempt (metadata path.text) with
  | .ok data => return data.type == type
  | .error _ => return false

/-- A directory that is being walked through: its path, and where it really is. -/
structure Walked where
  path : Path
  place : String

/-- Where the directory at a path really is, with the names of its entries in ascending order. Each
name comes with its type, which is looked up by the shortest path to the directory. -/
def listDirectory (directory : Path) : IO (Walked × List (String × IO.FS.FileType)) := do
  let here ← IO.currentDir
  let entries ← { here with toString := directory.text }.readDir
  let shortest ← IO.FS.realPath directory.text
  let names := (entries.toList.map (·.fileName)).mergeSort
  let typed ← names.mapM fun (name : String) => do
    return (name, (← (shortest / name).symlinkMetadata).type)
  return (⟨directory, shortest.toString⟩, typed)

/-- Carries out an operation of the system on what is at a path in a walk. -/
def attemptAt {α : Type} (path : Path) (operation : IO α) : ExceptT WalkFault IO α := do
  match ← attempt operation with
  | .error fault => throw (.failed path fault)
  | .ok value => return value

/-- Looks at what a link leads to in a walk, and says whether that is a directory. The directories
that are being walked through may not be led back to. -/
def followLink (above : List Walked) (link : Path) : ExceptT WalkFault IO Bool := do
  let data ← attemptAt link (metadata link.text)
  if data.type == .dir then
    let place ← attemptAt link (IO.FS.realPath link.text)
    if let some ancestor := above.find? (·.place == place.toString) then
      throw (.loop link ancestor.path)
  return data.type == .dir

/-- What is found below a directory besides directories, each directory in ascending order of its
names. The first argument bounds how deep directories may nest. -/
def foundBelow : Nat → List Walked → Path → List String → ExceptT WalkFault IO (List (List String))
  | 0, _, directory, _ => throw (.failed directory .nameTooLong)
  | depth + 1, above, directory, names => do
      let (walked, entries) ← attemptAt directory (listDirectory directory)
      let found ← entries.mapM fun (name, type) => do
        let path := directory.join name
        let descends ←
          if type == .symlink then followLink (walked :: above) path else pure (type == .dir)
        if descends then foundBelow depth (walked :: above) path (names ++ [name])
        else return [names ++ [name]]
      return found.flatten

/-- What is found by a walk that starts from a path. -/
def walk (root : Path) : ExceptT WalkFault IO (List (List String)) := do
  let data ← attemptAt root (metadata root.text)
  if data.type == .dir then foundBelow FileTree.maxPathLength [] root [] else return [[]]

/-- The entries of the log that are shown, unless a setting says otherwise. -/
def defaultThreshold : Log.Level := .error

/-- The threshold that a setting stands for, whatever the case of its letters. A setting that is no
level is ignored. -/
def thresholdOf (setting : String) : Option Log.Level :=
  match setting.toLower with
  | "off" => none
  | "trace" => some .debug
  | name => some ((Log.Level.ofName? name).getD defaultThreshold)

/-- The threshold that the variable `RUST_LOG` sets. Without it, errors only are shown. -/
def threshold : IO (Option Log.Level) := do
  match ← IO.getEnv "RUST_LOG" with
  | some setting => return thresholdOf setting
  | none => return some defaultThreshold

instance : Host IO where
  isFile path := hasType path .file
  isDirectory path := hasType path .dir
  walk path := (walk path).run
  readFile path := attempt do return (← IO.FS.readBinFile path.text).toList
  createDirectory path := attempt (IO.FS.createDir path.text)
  writeFile path bytes := attempt (IO.FS.writeBinFile path.text bytes.toByteArray)
  report entry := do
    if entry.shownAt (← threshold) then
      IO.eprintln ("[" ++ entry.level.label ++ "] " ++ String.intercalate "\n" entry.lines)
  print text := IO.print text

end ClassAccess.Main

/-- Runs the command that the arguments give. -/
def main (arguments : List String) : IO UInt32 := do
  let ending ← ClassAccess.Command.execute arguments
  for line in ending.complaints do
    IO.eprintln line
  return ending.exitCode
