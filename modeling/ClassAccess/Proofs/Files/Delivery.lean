import ClassAccess.Proofs.Files.Destinations
import ClassAccess.Proofs.Files.Saving

/-!
# Delivering files

Wherever a file is saved, the directories that are missing on the way to it are made, and
then the one file at its destination is made or replaced. A failure leaves all regular
files as they were.
-/

namespace ClassAccess

namespace FileTree

/-- Directories were made where nothing stood, and nothing else was changed. -/
structure Grows (tree after : FileTree) : Prop where
  home : after.home = tree.home
  nodes : ∀ location : Location, after.nodes[location]? = tree.nodes[location]? ∨
    tree.nodes[location]? = none ∧ after.nodes[location]? = some .directory

variable {tree after last : FileTree} {path : Path}

/-- Nothing need be made. -/
theorem Grows.refl (tree : FileTree) : Grows tree tree := ⟨rfl, fun _ => .inl rfl⟩

/-- Directories are made one after the other. -/
theorem Grows.trans (first : Grows tree after) (second : Grows after last) : Grows tree last where
  home := second.home.trans first.home
  nodes location := by
    rcases first.nodes location with same | ⟨free, made⟩ <;>
      rcases second.nodes location with still | ⟨freeStill, madeLater⟩
    · exact .inl (still.trans same)
    · exact .inr ⟨same.symm.trans freeStill, madeLater⟩
    · exact .inr ⟨free, still.trans made⟩
    · cases made.symm.trans freeStill

/-- Making directories touches no regular file. -/
theorem Grows.file? (grows : Grows tree after) : after.file? = tree.file? := by
  funext location
  rw [FileTree.file?, FileTree.file?, nodeAt?, nodeAt?, grows.home]
  by_cases onWay : location.isPrefixOf tree.home = true
  · rw [if_pos onWay, if_pos onWay]
  · rw [if_neg onWay, if_neg onWay]
    rcases grows.nodes location with same | ⟨free, made⟩
    · rw [same]
    · rw [free, made]

/-- A directory that is put where nothing stands is one more. -/
theorem grows_put {location : Location} (free : tree.nodeAt? location = none) :
    Grows tree (tree.put location .directory) := by
  have unlisted : tree.nodes[location]? = none := by
    rw [nodeAt?] at free
    split at free
    · cases free
    · exact free
  refine ⟨rfl, fun other => ?_⟩
  rw [getElem?_put]
  by_cases here : location = other
  · subst here
    exact .inr ⟨unlisted, if_pos rfl⟩
  · exact .inl (if_neg here)

/-- Directories are made where nothing stands. -/
theorem grows_of_prepared (prepared : Prepared tree after) : Grows tree after := by
  induction prepared with
  | refl => exact .refl tree
  | tail _ created ih =>
      obtain ⟨path, created⟩ := created
      obtain ⟨place, -, created⟩ := bind_eq_ok_iff.mp created
      obtain ⟨free, rfl⟩ := free_of_createFor created
      exact ih.trans (grows_put free)

/-- A file is written to the destination of the path to it, where no directory may stand. -/
theorem eq_put_destination_of_write {bytes : List UInt8}
    (written : tree.write path bytes = .ok after) :
    tree.nodeAt? (tree.destination path) ≠ some .directory ∧
      after = tree.put (tree.destination path) (.file bytes) := by
  obtain ⟨place, located, written⟩ := bind_eq_ok_iff.mp written
  cases eq_destination_of_locate located
  exact ne_directory_of_writeFor written

/-- A file that is written once some directories were made stands at the destination of its path. All
other regular files are as before. -/
theorem file?_of_write {bytes : List UInt8} (prepared : Prepared tree after)
    (written : after.write path bytes = .ok last) :
    last.home = tree.home ∧ ∀ location, last.file? location =
      if tree.destination path = location then some bytes else tree.file? location := by
  have grows := grows_of_prepared prepared
  obtain ⟨noDirectory, rfl⟩ := eq_put_destination_of_write written
  refine ⟨grows.home, fun location => ?_⟩
  rw [file?_put_of_ne_directory noDirectory, grows.file?, destination_of_home grows.home]

end FileTree

end ClassAccess
