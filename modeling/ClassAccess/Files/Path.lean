import ClassAccess.Text.Split

/-!
# Paths

A path is a text of names separated by `/`. Its steps are what counts: repeated
separators, a separator at the end, and `.` anywhere but at the front make no
difference to them. The text itself is kept, since it is what messages show.
-/

namespace ClassAccess

/-- A path as it was given. -/
structure Path where
  text : String
deriving DecidableEq, Repr

namespace Path

/-- One step along a path. -/
inductive Step where
  | root
  | here
  | up
  | into (name : String)
deriving DecidableEq, Repr

/-- The step that a piece of a path stands for, if it stands for one. -/
def Step.ofPiece? (piece : List Char) : Option Step :=
  if piece = [] ∨ piece = ['.'] then none
  else if piece = ['.', '.'] then some .up
  else some (.into (String.ofList piece))

/-- The pieces between separators. -/
def pieces (path : Path) : List (List Char) := Text.pieces (· == '/') path.text.toList

/-- Whether a path starts at the root of all files. -/
def isAbsolute (path : Path) : Bool := path.text.toList.head? == some '/'

/-- The first step, if it is the root or an explicit `.`. -/
def leadingStep (path : Path) : List Step :=
  if path.isAbsolute then [.root]
  else if path.pieces.head? = some ['.'] then [.here]
  else []

/-- The steps along a path. -/
def steps (path : Path) : List Step :=
  path.leadingStep ++ path.pieces.filterMap Step.ofPiece?

/-- The pieces after the leading step. -/
def body (path : Path) : List (List Char) :=
  if path.leadingStep = [] then path.pieces else path.pieces.tail

/-- The path with the same leading step and other pieces after it. -/
def withBody (path : Path) (pieces : List (List Char)) : Path :=
  let names := pieces.map String.ofList
  match path.leadingStep with
  | .root :: _ => ⟨"/" ++ String.intercalate "/" names⟩
  | .here :: _ => ⟨String.intercalate "/" ("." :: names)⟩
  | _ => ⟨String.intercalate "/" names⟩

/-- The paths that end in a piece of the body that is a step. The pieces are given in reverse. -/
def ancestorsFrom (path : Path) : List (List Char) → List Path
  | [] => if path.leadingStep = [] then [] else [path.withBody []]
  | piece :: before =>
      if (Step.ofPiece? piece).isNone then path.ancestorsFrom before
      else path.withBody (piece :: before).reverse :: path.ancestorsFrom before

/-- A path and the paths to the directories on the way to it, the longest first. Each is a
beginning of the text, cut after a step. -/
def ancestors (path : Path) : List Path := path.ancestorsFrom path.body.reverse

/-- Whether two paths take the same steps. -/
def same (left right : Path) : Bool := left.steps == right.steps

/-- The name that a path ends in. -/
def fileName? (path : Path) : Option String :=
  match path.steps.getLast? with
  | some (.into name) => some name
  | _ => none

/-- Goes on from a path with a text that is itself a path. An absolute text replaces it. -/
def join (path : Path) (later : String) : Path :=
  if later.toList.head? = some '/' then ⟨later⟩
  else if path.text.toList.getLast?.all (· == '/') then ⟨path.text ++ later⟩
  else ⟨path.text ++ "/" ++ later⟩

/-- Goes on from a path through several names. -/
def joinAll (path : Path) (names : List String) : Path :=
  if names.isEmpty then path else path.join (String.intercalate "/" names)

/-- The part of a file name after its last dot, unless that dot is its first character. -/
def extension? (name : String) : Option String :=
  let reversed := name.toList.reverse
  match reversed.dropWhile (· != '.') with
  | [] => none
  | [_] => none
  | _ => some (String.ofList (reversed.takeWhile (· != '.')).reverse)

end Path

end ClassAccess
