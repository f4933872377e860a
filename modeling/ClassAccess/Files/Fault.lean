/-!
# Faults of file operations

The ways in which an operation on a file or directory fails, with the wording of
the operating system.
-/

namespace ClassAccess

/-- Why a file operation failed. -/
inductive FileFault where
  | notFound
  | alreadyExists
  | notADirectory
  | isADirectory
  /-- A name or a path is longer than the system allows. -/
  | nameTooLong
  /-- A path holds the character that ends texts in the system. -/
  | nulInName
  /-- Any other fault, in the words of the system. -/
  | other (text : String)
deriving DecidableEq, Repr

/-- A path leads through more links than the system follows. -/
def FileFault.tooManyLinks : FileFault := .other "Too many levels of symbolic links (os error 40)"

/-- The wording of a fault, with its number in the system. -/
def FileFault.message : FileFault → String
  | notFound => "No such file or directory (os error 2)"
  | alreadyExists => "File exists (os error 17)"
  | notADirectory => "Not a directory (os error 20)"
  | isADirectory => "Is a directory (os error 21)"
  | nameTooLong => "File name too long (os error 36)"
  | nulInName => "file name contained an unexpected NUL byte"
  | other text => text

end ClassAccess
