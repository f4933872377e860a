import ClassAccess.Proofs.Files.Tree

/-!
# Walks through directories

Which files a walk finds, and where. Each is found once, under the names that lead
to it from the directory at which the walk starts.
-/

namespace ClassAccess.FileTree

variable {tree : FileTree} {root : Path} {place : Location} {files : List Location}

/-- What stands below a place stands there under the names that lead on from the place. -/
theorem mem_nodesBelow_iff {names : Location} {node : FileNode} :
    (names, node) ∈ tree.nodesBelow place ↔ tree.nodes[place ++ names]? = some node := by
  rw [nodesBelow, below, List.mem_filterMap, ← Std.ExtTreeMap.mem_toList_iff_getElem?_eq_some]
  constructor
  · rintro ⟨⟨location, node⟩, among, kept⟩
    split at kept
    · next below =>
        cases kept
        obtain ⟨names, rfl⟩ := List.isPrefixOf_iff_prefix.mp below
        rwa [List.drop_left]
    · cases kept
  · intro among
    refine ⟨(place ++ names, node), among, ?_⟩
    rw [if_pos (List.isPrefixOf_iff_prefix.mpr (List.prefix_append place names)), List.drop_left]

/-- A regular file is one with the names that lead to it. -/
theorem fileOf_eq_some_iff {entry : Location × FileNode} {names : Location} {bytes : List UInt8} :
    fileOf entry = some (names, bytes) ↔ entry = (names, .file bytes) := by
  obtain ⟨other, content | _⟩ := entry <;> simp [fileOf]

/-- The files below a place stand there under the names that lead on from it. -/
theorem mem_filesBelow_iff {names : Location} {bytes : List UInt8} :
    (names, bytes) ∈ tree.filesBelow place ↔ tree.nodes[place ++ names]? = some (.file bytes) := by
  rw [filesBelow, List.mem_filterMap, ← mem_nodesBelow_iff]
  simp only [fileOf_eq_some_iff, exists_eq_right]

/-- Nothing stands below a place twice. -/
theorem pairwise_nodesBelow (tree : FileTree) (place : Location) :
    (tree.nodesBelow place).Pairwise fun entry other => entry.1 ≠ other.1 := by
  rw [nodesBelow, below, List.pairwise_filterMap]
  refine Std.ExtTreeMap.distinct_keys_toList.imp ?_
  rintro ⟨location, node⟩ ⟨otherLocation, otherNode⟩ apart entry kept other otherKept same
  split at kept
  · next below =>
      split at otherKept
      · next otherBelow =>
          cases kept
          cases otherKept
          obtain ⟨names, rfl⟩ := List.isPrefixOf_iff_prefix.mp below
          obtain ⟨otherNames, rfl⟩ := List.isPrefixOf_iff_prefix.mp otherBelow
          rw [List.drop_left, List.drop_left] at same
          exact apart (Std.LawfulEqCmp.compare_eq_iff_eq.mpr (congrArg (place ++ ·) same))
      · cases otherKept
  · cases kept

/-- No file stands below a place twice. -/
theorem nodup_filesBelow (tree : FileTree) (place : Location) :
    ((tree.filesBelow place).map Prod.fst).Nodup := by
  rw [List.Nodup, List.pairwise_map, filesBelow, List.pairwise_filterMap]
  refine (pairwise_nodesBelow tree place).imp fun apart file kept otherFile otherKept => ?_
  rw [fileOf_eq_some_iff.mp kept, fileOf_eq_some_iff.mp otherKept] at apart
  exact apart

/-- What is visited without a fault shows its regular files. -/
theorem flatten_of_mapM_visit {entries : List (Location × FileNode)} {visits : List (List Location)}
    (visited : entries.mapM (visit root) = .ok visits) :
    visits.flatten = (entries.filterMap fileOf).map Prod.fst := by
  induction entries generalizing visits with
  | nil =>
      cases visited
      rfl
  | cons entry later ih =>
      rw [List.mapM_cons] at visited
      obtain ⟨first, visit, visited⟩ := bind_eq_ok_iff.mp visited
      obtain ⟨rest, behind, same⟩ := bind_eq_ok_iff.mp visited
      cases same
      rw [List.flatten_cons, ih behind]
      obtain ⟨names, bytes | _⟩ := entry
      · cases visit
        rfl
      · rw [FileTree.visit] at visit
        split at visit
        · cases visit
        · cases visit
          rfl

/-- A walk that does not start from a file starts from a directory, and finds the files below it. -/
theorem exists_of_walk (walked : tree.walk root = .ok files) (notFile : tree.isFile root = false) :
    ∃ place, tree.locate root = .ok place ∧ files = (tree.filesBelow place).map Prod.fst := by
  obtain ⟨node, stands, -⟩ := bind_eq_ok_iff.mp walked
  have reached := mapError_eq_ok_iff.mp stands
  obtain ⟨place, located, -⟩ := bind_eq_ok_iff.mp reached
  cases node with
  | file bytes =>
      rw [isFile, reached] at notFile
      cases notFile
  | directory =>
      rw [walk_of_directory reached located] at walked
      obtain ⟨visits, visited, rfl⟩ := map_eq_ok_iff.mp walked
      exact ⟨place, located, flatten_of_mapM_visit visited⟩

end ClassAccess.FileTree
