import ClassAccess.Files.Links
import ClassAccess.Proofs.Files.Delivery

/-!
# Places in file trees with links

Where a path leads through links, what is read and written there, and what stays the same
when files are written: a path that leads somewhere goes on leading there, since no
directory is lost and no link is changed. Without links the operations are those of the
file tree.

A path that leads nowhere may lead somewhere later, when directories were made.
-/

namespace ClassAccess

namespace FileTree

/-- The directories of a tree are still there. -/
structure Extends (tree after : FileTree) : Prop where
  home : after.home = tree.home
  directories : ∀ location, tree.nodeAt? location = some .directory →
    after.nodeAt? location = some .directory

variable {tree after last : FileTree} {location : Location}

/-- A tree has its own directories. -/
theorem Extends.refl (tree : FileTree) : Extends tree tree := ⟨rfl, fun _ stands => stands⟩

/-- Directories stay from one tree to the next. -/
theorem Extends.trans (first : Extends tree after) (second : Extends after last) :
    Extends tree last :=
  ⟨second.home.trans first.home,
    fun location stands => second.directories location (first.directories location stands)⟩

/-- What is put where no directory stands leaves the directories. -/
theorem extends_put (noDirectory : tree.nodeAt? location ≠ some .directory) (node : FileNode) :
    Extends tree (tree.put location node) := by
  refine ⟨rfl, fun other stands => ?_⟩
  have apart : location ≠ other := fun same => noDirectory (same ▸ stands)
  have home : (tree.put location node).home = tree.home := rfl
  rw [nodeAt?] at stands ⊢
  rwa [home, getElem?_put, if_neg apart]

/-- What is required to be a directory still is one. -/
theorem Extends.requireDirectory (more : Extends tree after)
    (required : tree.requireDirectory location = .ok ()) :
    after.requireDirectory location = .ok () := by
  rw [requireDirectory_eq_ok_iff, lookUp_eq_ok_iff] at required ⊢
  exact ⟨required.1, more.directories location required.2⟩

/-- A piece of a path that leads on still does. -/
theorem Extends.follow (more : Extends tree after) {names next : List String} {piece : List Char}
    (followed : tree.follow names piece = .ok next) : after.follow names piece = .ok next := by
  have stays {reached : List String}
      (led : (do tree.requireDirectory names.reverse; return reached) = .ok next) :
      (do after.requireDirectory names.reverse; return reached) = .ok next := by
    obtain ⟨⟨⟩, required, same⟩ := bind_eq_ok_iff.mp led
    exact bind_eq_ok_iff.mpr ⟨(), more.requireDirectory required, same⟩
  rw [FileTree.follow] at followed ⊢
  by_cases here : piece = ['.']
  · rw [if_pos here] at followed ⊢
    exact stays followed
  · rw [if_neg here] at followed ⊢
    by_cases up : piece = ['.', '.']
    · rw [if_pos up] at followed ⊢
      exact stays followed
    · rw [if_neg up] at followed ⊢
      exact followed

/-- Pieces that have led somewhere still do. -/
theorem Extends.settle (more : Extends tree after) {pieces : List (List Char)}
    {names : List String} (settled : tree.settle pieces names = .ok location) :
    after.settle pieces names = .ok location := by
  rw [settle_eq_ok_iff] at settled ⊢
  exact ⟨fun named => more.requireDirectory (settled.1 named), settled.2⟩

end FileTree

namespace LinkedTree

open FileTree

/-- The directories and links of a tree are still there. -/
structure Extends (tree after : LinkedTree) : Prop where
  files : tree.files.Extends after.files
  links : after.links = tree.links

variable {tree after last : LinkedTree} {path : Path} {location : Location} {atEnd : Bool}
  {bytes : List UInt8}

/-- A tree has its own directories and links. -/
theorem Extends.refl (tree : LinkedTree) : Extends tree tree := ⟨.refl _, rfl⟩

/-- Directories and links stay from one tree to the next. -/
theorem Extends.trans (first : Extends tree after) (second : Extends after last) :
    Extends tree last :=
  ⟨first.files.trans second.files, second.links.trans first.links⟩

/-- Pieces that lead somewhere, or to a link, still do. -/
theorem Extends.stretch (more : Extends tree after) {names : List String}
    {pieces : List (List Char)} {found : Stretch}
    (followed : tree.stretch atEnd names pieces = .ok found) :
    after.stretch atEnd names pieces = .ok found := by
  induction pieces generalizing names with
  | nil => exact followed
  | cons piece rest ih =>
      rw [LinkedTree.stretch] at followed ⊢
      obtain ⟨next, first, followed⟩ := bind_eq_ok_iff.mp followed
      refine bind_eq_ok_iff.mpr ⟨next, more.files.follow first, ?_⟩
      rw [more.links]
      split at followed
      · exact followed
      · exact ih followed

/-- Pieces that arrive somewhere through links still arrive there. -/
theorem Extends.arrive (more : Extends tree after) {rounds : Nat} {ending : Path}
    {names : List String} {pieces : List (List Char)} {route : Route}
    (arrived : tree.arrive atEnd rounds ending names pieces = .ok route) :
    after.arrive atEnd rounds ending names pieces = .ok route := by
  induction rounds generalizing ending names pieces with
  | zero => exact arrived
  | succ rounds ih =>
      rw [LinkedTree.arrive] at arrived ⊢
      obtain ⟨found, followed, arrived⟩ := bind_eq_ok_iff.mp arrived
      refine bind_eq_ok_iff.mpr ⟨found, more.stretch followed, ?_⟩
      cases found with
      | whole reached =>
          obtain ⟨place, settled, same⟩ := bind_eq_ok_iff.mp arrived
          exact bind_eq_ok_iff.mpr ⟨place, more.files.settle settled, same⟩
      | link reached target rest => exact ih arrived

/-- A path that leads somewhere still leads there. -/
theorem Extends.route (more : Extends tree after) {route : Route}
    (led : tree.route atEnd path = .ok route) : after.route atEnd path = .ok route := by
  have start : after.files.startOf path = tree.files.startOf path := by
    rw [startOf, startOf, more.files.home]
  rw [LinkedTree.route] at led ⊢
  split at led
  · cases led
  · rw [start]
    exact more.arrive led

/-- The place that a path leads to stays. -/
theorem Extends.locate (more : Extends tree after) (located : tree.locate path = .ok location) :
    after.locate path = .ok location := by
  obtain ⟨route, led, rfl⟩ := map_eq_ok_iff.mp located
  exact map_eq_ok_iff.mpr ⟨route, more.route led, rfl⟩

/-- A path leads to a place where a regular file can be read. -/
structure ReachesFile (tree : LinkedTree) (path : Path) (location : Location) : Prop where
  routed : ∃ ending, tree.route true path = .ok ⟨location, ending⟩ ∧
    ¬endsInSeparator ending = true
  short : ¬location.getLast?.any (maxNameLength < ·.utf8ByteSize) = true

/-- A path that reaches a regular file leads to its place. -/
theorem ReachesFile.located (reaches : tree.ReachesFile path location) :
    tree.locate path = .ok location := by
  obtain ⟨ending, routed, -⟩ := reaches.routed
  exact map_eq_ok_iff.mpr ⟨_, routed, rfl⟩

/-- A file is read at the place that the path to it leads to. -/
theorem read_eq_ok_iff : tree.read path = .ok bytes ↔
    ∃ location, tree.ReachesFile path location ∧ tree.file? location = some bytes := by
  rw [read, FileAnswer.bytes_eq_ok_iff, node, bind_eq_ok_iff]
  constructor
  · rintro ⟨⟨location, ending⟩, routed, stands⟩
    obtain ⟨short, ended, stored⟩ := nodeFor_eq_file_iff.mp stands
    exact ⟨location, ⟨⟨ending, routed, ended⟩, short⟩, stored⟩
  · rintro ⟨location, ⟨⟨ending, routed, ended⟩, short⟩, stored⟩
    exact ⟨⟨location, ending⟩, routed, nodeFor_eq_file_iff.mpr ⟨short, ended, stored⟩⟩

/-- A file is written at the place that the path to it leads to, and all others keep their bytes. -/
theorem exists_place_of_write (written : tree.write path bytes = .ok after) :
    ∃ place, tree.locate path = .ok place ∧ tree.Extends after ∧
      ∀ location, after.file? location =
        if place = location then some bytes else tree.file? location := by
  obtain ⟨⟨place, ending⟩, routed, written⟩ := bind_eq_ok_iff.mp written
  obtain ⟨files, writtenFor, same⟩ := bind_eq_ok_iff.mp written
  cases same
  obtain ⟨noDirectory, rfl⟩ := ne_directory_of_writeFor writtenFor
  exact ⟨place, map_eq_ok_iff.mpr ⟨_, routed, rfl⟩, ⟨extends_put noDirectory _, rfl⟩,
    file?_put_of_ne_directory noDirectory bytes⟩

/-- Directories are made where nothing stands, and no file is changed. -/
theorem extends_of_prepared (prepared : Prepared tree after) :
    tree.Extends after ∧ after.file? = tree.file? := by
  induction prepared with
  | refl => exact ⟨.refl tree, rfl⟩
  | tail _ created ih =>
      obtain ⟨path, created⟩ := created
      obtain ⟨route, -, created⟩ := bind_eq_ok_iff.mp created
      split at created
      · cases created
      · obtain ⟨files, createdFor, same⟩ := bind_eq_ok_iff.mp created
        cases same
        obtain ⟨free, rfl⟩ := free_of_createFor createdFor
        have more := extends_put (fun directory => by cases free.symm.trans directory) .directory
        exact ⟨ih.1.trans ⟨more, rfl⟩, (grows_put free).file?.trans ih.2⟩

section

variable (files : FileTree)

@[simp] theorem files_ofFiles : (ofFiles files).files = files := rfl

/-- Without links, pieces are followed as in the file tree. -/
theorem stretch_ofFiles (names : List String) (pieces : List (List Char)) :
    (ofFiles files).stretch atEnd names pieces =
      (pieces.foldlM files.follow names).map Stretch.whole := by
  induction pieces generalizing names with
  | nil => rfl
  | cons piece rest ih =>
      have free (location : Location) : (ofFiles files).links[location]? = none :=
        Std.ExtTreeMap.getElem?_empty
      rw [stretch, List.foldlM_cons]
      simp only [free, ite_self, ih, files_ofFiles]
      cases files.follow names piece <;> rfl

/-- Without links, a path leads where it does in the file tree. -/
theorem route_ofFiles (path : Path) :
    (ofFiles files).route atEnd path = (files.locate path).map (⟨·, path⟩) := by
  rw [route, FileTree.locate]
  cases textFault? path with
  | some fault => rfl
  | none =>
      dsimp only
      rw [arrive, stretch_ofFiles, files_ofFiles]
      cases List.foldlM files.follow (files.startOf path).reverse (leadingPieces path) with
      | error fault => rfl
      | ok names =>
          change (files.settle (leadingPieces path) names >>= _) =
            (files.settle (leadingPieces path) names).map _
          cases files.settle (leadingPieces path) names <;> rfl

/-- Without links, a path leads to what it does in the file tree. -/
theorem node_ofFiles (path : Path) : (ofFiles files).node path = files.node path := by
  rw [node, route_ofFiles, FileTree.node]
  cases files.locate path <;> rfl

/-- Without links, the same paths lead to regular files as in the file tree. -/
theorem isFile_ofFiles (path : Path) : (ofFiles files).isFile path = files.isFile path :=
  congrArg FileAnswer.isFile (node_ofFiles files path)

/-- Without links, a path leads to the place that it does in the file tree. -/
theorem locate_ofFiles (path : Path) : (ofFiles files).locate path = files.locate path := by
  rw [locate, route_ofFiles]
  cases files.locate path <;> rfl

/-- Without links, files are written as in the file tree. -/
theorem write_ofFiles (path : Path) (bytes : List UInt8) :
    (ofFiles files).write path bytes = (files.write path bytes).map ofFiles := by
  rw [write, route_ofFiles, FileTree.write]
  cases files.locate path with
  | error fault => rfl
  | ok place =>
      change (files.writeFor path place bytes >>= _) = (files.writeFor path place bytes).map _
      cases files.writeFor path place bytes <;> rfl

/-- Without links, directories are made as in the file tree. -/
theorem createDirectory_ofFiles (path : Path) :
    (ofFiles files).createDirectory path = (files.createDirectory path).map ofFiles := by
  rw [createDirectory, route_ofFiles, FileTree.createDirectory]
  cases files.locate path with
  | error fault => rfl
  | ok place =>
      change (files.createFor path place >>= _) = (files.createFor path place).map _
      cases files.createFor path place <;> rfl

/-- Without links, the nodes of the file tree are listed. -/
theorem entriesBelow_ofFiles (place : Location) :
    (ofFiles files).entriesBelow place =
      (files.nodesBelow place).map fun entry => (entry.1, .node entry.2) := by
  have unlinked : (ofFiles files).links.toList = [] := rfl
  rw [entriesBelow, unlinked, List.foldl_nil, Std.ExtTreeMap.toList_map, nodesBelow, ← below_map]
  rfl

/-- Without links, a walk finds what it does in the file tree. -/
theorem walk_ofFiles (root : Path) : (ofFiles files).walk root = files.walk root := by
  rw [walk, node_ofFiles, locate_ofFiles]
  cases stands : files.node root with
  | error fault =>
      rw [FileTree.walk, stands]
      rfl
  | ok node =>
      cases node with
      | file bytes =>
          rw [FileTree.walk, stands]
          rfl
      | directory =>
          obtain ⟨place, located, -⟩ := bind_eq_ok_iff.mp stands
          rw [walk_of_directory stands located, located]
          change (ofFiles files).walkThrough (maxLinks + 1) [] ⟨root, place⟩ = _
          rw [walkThrough, entriesBelow_ofFiles, List.mapM_map]
          change ((files.nodesBelow place).mapM (visit root) >>= _) = _
          cases (files.nodesBelow place).mapM (visit root) <;> rfl

/-- Without links, a path that leads to a place leads to its destination. -/
theorem eq_destination_of_locate (unlinked : tree.links = ∅)
    (located : tree.locate path = .ok location) : location = tree.files.destination path := by
  obtain ⟨files, links⟩ := tree
  subst unlinked
  exact FileTree.eq_destination_of_locate ((locate_ofFiles files path).symm.trans located)

end

/-- A tree whose links have names, lie in directories, stand where nothing else does, and hold paths
that may lead somewhere. -/
structure WellFormed (tree : LinkedTree) : Prop where
  files : tree.files.WellFormed
  named : ∀ link ∈ tree.links.toList, ∀ name ∈ link.1, IsEntryName name
  inDirectory : ∀ link ∈ tree.links.toList, tree.files.nodeAt? link.1.dropLast = some .directory
  alone : ∀ link ∈ tree.links.toList, tree.files.nodeAt? link.1 = none
  leading : ∀ link ∈ tree.links.toList, textFault? link.2 = none

instance : DecidablePred WellFormed := fun tree =>
  decidable_of_iff (tree.files.WellFormed ∧
      (∀ link ∈ tree.links.toList, ∀ name ∈ link.1, IsEntryName name) ∧
      (∀ link ∈ tree.links.toList, tree.files.nodeAt? link.1.dropLast = some .directory) ∧
      (∀ link ∈ tree.links.toList, tree.files.nodeAt? link.1 = none) ∧
      ∀ link ∈ tree.links.toList, textFault? link.2 = none)
    ⟨fun ⟨files, named, inDirectory, alone, leading⟩ => ⟨files, named, inDirectory, alone, leading⟩,
      fun formed =>
        ⟨formed.files, formed.named, formed.inDirectory, formed.alone, formed.leading⟩⟩

end LinkedTree

end ClassAccess
