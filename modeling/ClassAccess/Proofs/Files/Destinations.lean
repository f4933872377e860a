import ClassAccess.Proofs.Files.Tree

/-!
# Destinations of paths

In a tree without links, the steps of a path alone tell where it leads. `destination` is
the place that a path leads to once the directories on the way are there, so that it can
be named before anything is made.

Whether the directories are there is not said here.
-/

namespace ClassAccess

/-- Goes on by a step. The names on the way are in reverse. -/
def Path.Step.after (names : List String) : Path.Step → List String
  | root => []
  | here => names
  | up => names.tail
  | into name => name :: names

namespace FileTree

open ClassAccess.Path

/-- The place that the steps of a path lead to. -/
def destination (tree : FileTree) (path : Path) : Location :=
  (path.steps.foldl Step.after tree.home.reverse).reverse

variable {tree after : FileTree} {path other root : Path} {location : Location}
  {names : List String}

/-- Paths that take the same steps have the same destination. -/
theorem destination_of_same (same : path.same other = true) :
    tree.destination path = tree.destination other := by
  rw [destination, beq_iff_eq.mp same, destination]

/-- Destinations depend on the working directory only. -/
theorem destination_of_home (home : after.home = tree.home) :
    after.destination = tree.destination := by
  funext path
  rw [destination, home, destination]

/-- The steps of a path are those that its leading pieces stand for. -/
theorem filterMap_leadingPieces (path : Path) :
    (leadingPieces path).filterMap Step.ofPiece? = path.pieces.filterMap Step.ofPiece? := by
  rw [leadingPieces, List.filterMap_filter]
  refine List.filterMap_congr fun piece _ => ?_
  cases piece with
  | nil => rfl
  | cons c rest => rfl

/-- The leading pieces of a path lead on from where it starts. -/
theorem destination_eq (tree : FileTree) (path : Path) :
    tree.destination path = (((leadingPieces path).filterMap Step.ofPiece?).foldl Step.after
      (tree.startOf path).reverse).reverse := by
  rw [destination, steps, List.foldl_append, filterMap_leadingPieces, startOf, leadingStep]
  by_cases absolute : path.isAbsolute = true
  · rw [if_pos absolute, if_pos absolute]
    rfl
  · rw [if_neg absolute, if_neg absolute]
    split <;> rfl

/-- A piece that is followed leads where its step does. -/
theorem eq_of_follow {piece : List Char} {next : List String} (filled : piece ≠ [])
    (followed : tree.follow names piece = .ok next) :
    next = (Step.ofPiece? piece).toList.foldl Step.after names := by
  rw [follow] at followed
  rw [Step.ofPiece?]
  split at followed
  · next here =>
      obtain ⟨-, -, same⟩ := bind_eq_ok_iff.mp followed
      rw [if_pos (.inr here)]
      exact (Except.ok.inj same).symm
  · next notHere =>
      rw [if_neg (by simp [filled, notHere])]
      split at followed
      · next up =>
          obtain ⟨-, -, same⟩ := bind_eq_ok_iff.mp followed
          rw [if_pos up]
          exact (Except.ok.inj same).symm
      · next notUp =>
          rw [if_neg notUp]
          exact (Except.ok.inj followed).symm

/-- Pieces that are followed lead where their steps do. -/
theorem eq_of_foldlM_follow {pieces : List (List Char)} {reached : List String}
    (filled : ∀ piece ∈ pieces, piece ≠ [])
    (followed : pieces.foldlM tree.follow names = .ok reached) :
    reached = (pieces.filterMap Step.ofPiece?).foldl Step.after names := by
  induction pieces generalizing names with
  | nil => exact (Except.ok.inj followed).symm
  | cons piece later ih =>
      rw [List.forall_mem_cons] at filled
      rw [List.foldlM_cons, bind_eq_ok_iff] at followed
      obtain ⟨next, first, behind⟩ := followed
      rw [ih filled.2 behind, eq_of_follow filled.1 first, List.filterMap_cons]
      cases Step.ofPiece? piece <;> rfl

/-- A path that leads to a place leads to its destination. -/
theorem eq_destination_of_locate (located : tree.locate path = .ok location) :
    location = tree.destination path := by
  obtain ⟨-, names, followed, -, rfl⟩ := locate_eq_ok_iff.mp located
  have filled : ∀ piece ∈ leadingPieces path, piece ≠ [] := by
    intro piece among empty
    simp [empty, leadingPieces] at among
  rw [destination_eq, eq_of_foldlM_follow filled followed]

/-- Names lead from place to place. -/
theorem foldl_after_names {start : List String} (each : ∀ name ∈ names, IsEntryName name) :
    ((names.map String.toList).filterMap Step.ofPiece?).foldl Step.after start =
      names.reverse ++ start := by
  induction names generalizing start with
  | nil => rfl
  | cons name later ih =>
      rw [List.forall_mem_cons] at each
      have filled : name.toList ≠ [] := mt String.toList_eq_nil_iff.mp each.1.filled
      have notHere : name.toList ≠ ['.'] := fun same => each.1.notHere (String.toList_inj.mp same)
      have notUp : name.toList ≠ ['.', '.'] := fun same => each.1.notUp (String.toList_inj.mp same)
      have first : Step.ofPiece? name.toList = some (.into name) := by
        rw [Step.ofPiece?, if_neg (by simp [filled, notHere]), if_neg notUp, String.ofList_toList]
      rw [List.map_cons, List.filterMap_cons_some first, List.foldl_cons, ih each.2,
        List.reverse_cons, List.append_assoc]
      rfl

/-- Names that are gone through from the empty path are gone through from the working directory. -/
theorem leadingPieces_joinAll_of_empty (empty : root.text = "")
    (each : ∀ name ∈ names, IsEntryName name) :
    (root.joinAll names).isAbsolute = root.isAbsolute ∧
      leadingPieces (root.joinAll names) = leadingPieces root ++ names.map String.toList := by
  obtain ⟨text⟩ := root
  cases empty
  cases names with
  | nil => exact ⟨rfl, (List.append_nil _).symm⟩
  | cons name later =>
      have relative : (String.intercalate "/" (name :: later)).toList.head? ≠ some '/' :=
        head?_intercalate (each name List.mem_cons_self)
      have joined : (⟨""⟩ : Path).joinAll (name :: later) =
          ⟨String.intercalate "/" (name :: later)⟩ := by
        change (⟨""⟩ : Path).join (String.intercalate "/" (name :: later)) = _
        rw [join, if_neg relative]
        exact congrArg Path.mk String.empty_append
      rw [joined]
      exact ⟨beq_false_of_ne relative, leading_names each⟩

/-- The destination of a path that is gone on from through names lies below that of the path. -/
theorem destination_joinAll (tree : FileTree) (root : Path)
    (each : ∀ name ∈ names, IsEntryName name) :
    tree.destination (root.joinAll names) = tree.destination root ++ names := by
  obtain ⟨start, pieces⟩ : (root.joinAll names).isAbsolute = root.isAbsolute ∧
      leadingPieces (root.joinAll names) = leadingPieces root ++ names.map String.toList := by
    by_cases empty : root.text = ""
    · exact leadingPieces_joinAll_of_empty empty each
    · exact leadingPieces_joinAll empty each
  rw [destination_eq, destination_eq, pieces, startOf, start, ← startOf, List.filterMap_append,
    List.foldl_append, foldl_after_names each, List.reverse_append, List.reverse_reverse]

/-- What a path leads to along a piece that is no name is a directory. -/
theorem WellFormed.nodeAt?_of_follow (wellFormed : tree.WellFormed) {piece : List Char}
    {next : List String} (noName : piece = ['.'] ∨ piece = ['.', '.'])
    (followed : tree.follow names piece = .ok next) :
    tree.nodeAt? next.reverse = some .directory := by
  rw [follow] at followed
  rcases noName with rfl | rfl
  · obtain ⟨⟨⟩, required, same⟩ := bind_eq_ok_iff.mp followed
    cases same
    exact nodeAt?_of_requireDirectory required
  · obtain ⟨⟨⟩, required, same⟩ := bind_eq_ok_iff.mp followed
    cases same
    rw [← List.dropLast_reverse]
    exact wellFormed.nodeAt?_dropLast (nodeAt?_of_requireDirectory required)

/-- A path to a regular file ends in a name. -/
theorem WellFormed.exists_fileName? (wellFormed : tree.WellFormed)
    (isFile : tree.isFile path = true) : ∃ name, path.fileName? = some name := by
  obtain ⟨bytes, held⟩ := FileAnswer.isFile_iff.mp isFile
  obtain ⟨location, ⟨located, -, -⟩, stored⟩ := read_eq_ok_iff.mp held
  obtain ⟨-, names, followed, -, rfl⟩ := locate_eq_ok_iff.mp located
  have noDirectory : tree.nodeAt? names.reverse ≠ some .directory := fun directory => by
    cases (file?_eq_some_iff.mp stored).symm.trans directory
  rcases List.eq_nil_or_concat' (leadingPieces path) with none | ⟨front, piece, pieces⟩
  · -- Without pieces, the path leads to where it starts.
    rw [none] at followed
    cases followed
    refine absurd (if_pos ?_) noDirectory
    rw [List.reverse_reverse, startOf]
    split
    · rfl
    · exact List.isPrefixOf_iff_prefix.mpr (List.prefix_refl _)
  · rw [pieces, List.foldlM_append, bind_eq_ok_iff] at followed
    obtain ⟨middle, -, followed⟩ := followed
    obtain ⟨next, last, same⟩ := bind_eq_ok_iff.mp followed
    cases same
    have filled : piece ≠ [] := by
      have among : piece ∈ leadingPieces path := by simp [pieces]
      intro empty
      simp [empty, leadingPieces] at among
    by_cases here : piece = ['.']
    · exact absurd (wellFormed.nodeAt?_of_follow (.inl here) last) noDirectory
    by_cases up : piece = ['.', '.']
    · exact absurd (wellFormed.nodeAt?_of_follow (.inr up) last) noDirectory
    refine ⟨String.ofList piece, ?_⟩
    have isName : Step.ofPiece? piece = some (.into (String.ofList piece)) := by
      rw [Step.ofPiece?, if_neg (by simp [filled, here]), if_neg up]
    have ends : path.steps.getLast? = some (.into (String.ofList piece)) := by
      rw [steps, ← filterMap_leadingPieces, pieces, List.filterMap_append, ← List.append_assoc,
        List.filterMap_cons_some isName]
      exact List.getLast?_concat
    rw [fileName?, ends]

end FileTree

end ClassAccess
