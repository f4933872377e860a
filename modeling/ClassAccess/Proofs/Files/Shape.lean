import ClassAccess.Proofs.Files.Tree

/-!
# Shapes of file trees

Two file trees have the same shape when the same places hold regular files and the
same places are directories. Where a path leads and which files a walk finds depends
on the shape alone, and replacing the bytes of a regular file keeps the shape.
-/

namespace ClassAccess

/-- Two nodes, if any, of the same kind: regular files with any bytes, or directories. -/
inductive SameKind : Option FileNode → Option FileNode → Prop where
  | missing : SameKind none none
  | file (bytes other : List UInt8) : SameKind (some (.file bytes)) (some (.file other))
  | directory : SameKind (some .directory) (some .directory)

/-- Whether a node is a regular file. -/
def FileNode.isRegular : FileNode → Bool
  | file _ => true
  | directory => false

/-- Nodes of the same kind are regular files or are not. -/
theorem SameKind.map_isRegular {found other : Option FileNode} (same : SameKind found other) :
    other.map FileNode.isRegular = found.map FileNode.isRegular := by
  cases same <;> rfl

/-- Two answers of the same kind: the same fault, or nodes of the same kind. -/
inductive SameAnswer : Except FileFault FileNode → Except FileFault FileNode → Prop where
  | fault (fault : FileFault) : SameAnswer (.error fault) (.error fault)
  | file (bytes other : List UInt8) : SameAnswer (.ok (.file bytes)) (.ok (.file other))
  | directory : SameAnswer (.ok .directory) (.ok .directory)

/-- Everything is of its own kind. -/
theorem SameKind.refl (found : Option FileNode) : SameKind found found := by
  match found with
  | none => exact .missing
  | some (.file bytes) => exact .file bytes bytes
  | some .directory => exact .directory

/-- Kinds are compared one with the next. -/
theorem SameKind.trans {first second third : Option FileNode} (one : SameKind first second)
    (other : SameKind second third) : SameKind first third := by
  cases one <;> cases other <;> constructor

namespace FileTree

/-- Two trees differ in the bytes of regular files only. -/
structure SameShape (tree after : FileTree) : Prop where
  home : after.home = tree.home
  nodes : ∀ location : Location, SameKind tree.nodes[location]? after.nodes[location]?

variable {tree after last : FileTree} {path : Path} {location : Location}

/-- A tree has its own shape. -/
theorem SameShape.refl (tree : FileTree) : SameShape tree tree := ⟨rfl, fun _ => .refl _⟩

/-- Shapes are compared one with the next. -/
theorem SameShape.trans (first : SameShape tree after) (second : SameShape after last) :
    SameShape tree last :=
  ⟨second.home.trans first.home, fun location => (first.nodes location).trans (second.nodes location)⟩

/-- Replacing the bytes of a regular file keeps the shape. -/
theorem sameShape_put {old : List UInt8} (stored : tree.file? location = some old)
    (bytes : List UInt8) : SameShape tree (tree.put location (.file bytes)) := by
  refine ⟨rfl, fun other => ?_⟩
  rw [file?_eq_some_iff, nodeAt?] at stored
  rw [getElem?_put]
  split
  · next same =>
      split at stored
      · cases stored
      · rw [← same, stored]
        exact .file old bytes
  · exact .refl _

/-- What a walk finds depends on where regular files and directories are. -/
theorem mapM_visit_congr (root : Path) {entries others : List (Location × FileNode)}
    (same : others.map (fun entry => (entry.1, entry.2.isRegular)) =
      entries.map fun entry => (entry.1, entry.2.isRegular)) :
    others.mapM (visit root) = entries.mapM (visit root) := by
  induction entries generalizing others with
  | nil => rw [List.map_eq_nil_iff.mp same]
  | cons entry later ih =>
      obtain ⟨other, rest, rfl, first, behind⟩ := List.map_eq_cons_iff.mp same
      have visited : visit root other = visit root entry := by
        obtain ⟨names, bytes | _⟩ := entry <;> obtain ⟨otherNames, otherBytes | _⟩ := other <;>
          cases first <;> rfl
      rw [List.mapM_cons, List.mapM_cons, visited, ih behind]

namespace SameShape

/-- The same kinds of things stand at the same places. -/
theorem nodeAt? (same : SameShape tree after) (location : Location) :
    SameKind (tree.nodeAt? location) (after.nodeAt? location) := by
  rw [FileTree.nodeAt?, FileTree.nodeAt?, same.home]
  split
  · exact .directory
  · exact same.nodes location

/-- What has the shape of a well-formed tree is well-formed. -/
theorem wellFormed (same : SameShape tree after) (wellFormed : tree.WellFormed) :
    after.WellFormed where
  named := by
    intro location node stored
    have kinds := same.nodes location
    rw [stored] at kinds
    generalize listed : tree.nodes[location]? = found at kinds
    cases kinds <;> exact wellFormed.named _ _ listed
  inDirectory := by
    intro location node stored
    have kinds := same.nodes location
    have above := same.nodeAt? location.dropLast
    rw [stored] at kinds
    generalize listed : tree.nodes[location]? = found at kinds
    cases kinds <;> rw [wellFormed.inDirectory _ _ listed] at above <;>
      generalize after.nodeAt? location.dropLast = other at above <;> cases above <;> rfl

/-- The same places cannot be gone on from. -/
theorem faultAt? (same : SameShape tree after) : after.faultAt? = tree.faultAt? := by
  funext location
  have kinds := same.nodeAt? location
  rw [FileTree.faultAt?, FileTree.faultAt?, lookUp, lookUp]
  generalize tree.nodeAt? location = found, after.nodeAt? location = other at kinds
  by_cases long : location.getLast?.any (maxNameLength < ·.utf8ByteSize) = true
  · rw [if_pos long, if_pos long]
  · rw [if_neg long, if_neg long]
    cases kinds <;> rfl

/-- Paths are followed alike. -/
theorem follow (same : SameShape tree after) : after.follow = tree.follow := by
  funext names piece
  simp only [FileTree.follow, requireDirectory, faultOnWay, same.faultAt?]

/-- Paths lead to the same places. -/
theorem locate (same : SameShape tree after) (path : Path) :
    after.locate path = tree.locate path := by
  simp only [FileTree.locate, settle, same.follow, startOf, same.home, requireDirectory, faultOnWay,
    same.faultAt?]

/-- Paths lead to things of the same kind. -/
theorem node (same : SameShape tree after) (path : Path) :
    SameAnswer (tree.node path) (after.node path) := by
  rw [FileTree.node, FileTree.node, same.locate]
  cases tree.locate path with
  | error fault => exact .fault fault
  | ok location =>
      have kinds := same.nodeAt? location
      change SameAnswer (tree.lookUp location >>= _) (after.lookUp location >>= _)
      rw [lookUp, lookUp]
      generalize tree.nodeAt? location = found, after.nodeAt? location = other at kinds
      by_cases long : location.getLast?.any (maxNameLength < ·.utf8ByteSize) = true
      · rw [if_pos long, if_pos long]
        exact .fault .nameTooLong
      · rw [if_neg long, if_neg long]
        cases kinds with
        | missing => exact .fault .notFound
        | directory => exact .directory
        | file bytes other =>
            change SameAnswer (if endsInSeparator path then _ else _)
              (if endsInSeparator path then _ else _)
            cases endsInSeparator path
            · exact .file bytes other
            · exact .fault .notADirectory

/-- The same paths lead to regular files. -/
theorem isFile (same : SameShape tree after) (path : Path) :
    after.isFile path = tree.isFile path := by
  have kinds := same.node path
  rw [FileTree.isFile, FileTree.isFile]
  generalize tree.node path = found, after.node path = other at kinds
  cases kinds <;> rfl

/-- The same kinds of things stand below a directory. -/
theorem nodesBelow (same : SameShape tree after) (location : Location) :
    (after.nodesBelow location).map (fun entry => (entry.1, entry.2.isRegular)) =
      (tree.nodesBelow location).map fun entry => (entry.1, entry.2.isRegular) := by
  have kinds : after.nodes.map (fun _ node => node.isRegular) =
      tree.nodes.map fun _ node => node.isRegular := by
    refine Std.ExtTreeMap.ext_getElem? fun place => ?_
    rw [Std.ExtTreeMap.getElem?_map, Std.ExtTreeMap.getElem?_map]
    exact (same.nodes place).map_isRegular
  have listed := congrArg Std.ExtTreeMap.toList kinds
  rw [Std.ExtTreeMap.toList_map, Std.ExtTreeMap.toList_map] at listed
  rw [FileTree.nodesBelow, FileTree.nodesBelow, ← below_map, ← below_map, listed]

/-- The same files are found by a walk. -/
theorem walk (same : SameShape tree after) (root : Path) : after.walk root = tree.walk root := by
  have kinds := same.node root
  generalize stands : tree.node root = answer, standsAfter : after.node root = other at kinds
  cases kinds with
  | fault fault =>
      rw [FileTree.walk, FileTree.walk, stands, standsAfter]
      rfl
  | file bytes other =>
      rw [FileTree.walk, FileTree.walk, stands, standsAfter]
      rfl
  | directory =>
      obtain ⟨place, located, -⟩ := bind_eq_ok_iff.mp stands
      rw [walk_of_directory stands located,
        walk_of_directory standsAfter ((same.locate root).trans located),
        mapM_visit_congr root (same.nodesBelow place)]

/-- Paths reach the same regular files. -/
theorem reachesFile_iff (same : SameShape tree after) :
    after.ReachesFile path location ↔ tree.ReachesFile path location :=
  ⟨fun reaches => ⟨(same.locate path).symm.trans reaches.located, reaches.short, reaches.ended⟩,
    fun reaches => ⟨(same.locate path).trans reaches.located, reaches.short, reaches.ended⟩⟩

end SameShape

end FileTree

end ClassAccess
