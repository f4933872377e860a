import ClassAccess.Proofs.Fallible
import ClassAccess.Proofs.Files.Paths

/-!
# Places in file trees

Where paths lead in a file tree, and what stands on the way. In a well-formed tree all
that is listed lies in directories, so that everything on the way to a place where
something stands is a directory.
-/

namespace ClassAccess

/-- An answer has bytes when it is a regular file with these. -/
theorem FileAnswer.bytes_eq_ok_iff {answer : FileAnswer} {bytes : List UInt8} :
    answer.bytes = .ok bytes ↔ answer = .ok (.file bytes) := by
  rcases answer with fault | content | _ <;> simp [FileAnswer.bytes]

/-- An answer is a regular file when it has bytes. -/
theorem FileAnswer.isFile_iff {answer : FileAnswer} :
    answer.isFile = true ↔ ∃ bytes, answer.bytes = .ok bytes := by
  rcases answer with fault | content | _ <;> simp [FileAnswer.isFile, FileAnswer.bytes]

namespace FileTree

/-- A tree in which everything that is listed has names and lies in a directory. -/
structure WellFormed (tree : FileTree) : Prop where
  named : ∀ (location : Location) (node : FileNode), tree.nodes[location]? = some node →
    ∀ name ∈ location, IsEntryName name
  inDirectory : ∀ (location : Location) (node : FileNode), tree.nodes[location]? = some node →
    tree.nodeAt? location.dropLast = some .directory

variable {tree : FileTree} {path : Path} {location : Location}

/-- A tree is well-formed when everything on its list has names and lies in a directory. -/
theorem wellFormed_iff : tree.WellFormed ↔ ∀ entry ∈ tree.nodes.toList,
    (∀ name ∈ entry.1, IsEntryName name) ∧ tree.nodeAt? entry.1.dropLast = some .directory := by
  constructor
  · rintro ⟨named, inDirectory⟩ ⟨location, node⟩ among
    have stored := Std.ExtTreeMap.mem_toList_iff_getElem?_eq_some.mp among
    exact ⟨named location node stored, inDirectory location node stored⟩
  · intro each
    have listed {location : Location} {node : FileNode} (stored : tree.nodes[location]? = some node) :=
      each (location, node) (Std.ExtTreeMap.mem_toList_iff_getElem?_eq_some.mpr stored)
    exact ⟨fun _ _ stored => (listed stored).1, fun _ _ stored => (listed stored).2⟩

instance : Decidable tree.WellFormed := decidable_of_iff _ wellFormed_iff.symm

/-- What stands at a place is found there unless the name is too long. -/
theorem lookUp_eq_ok_iff {found : Option FileNode} :
    tree.lookUp location = .ok found ↔
      ¬location.getLast?.any (maxNameLength < ·.utf8ByteSize) = true ∧
        tree.nodeAt? location = found := by
  rw [lookUp]
  split
  · next long => simp [long]
  · next short => simp [short]

/-- A directory is where one stands under a name that is not too long. -/
theorem requireDirectory_eq_ok_iff :
    tree.requireDirectory location = .ok () ↔ tree.lookUp location = .ok (some .directory) := by
  rw [requireDirectory, faultAt?]
  rcases tree.lookUp location with fault | _ | ⟨bytes | _⟩ <;> simp

/-- What is required to be a directory is one. -/
theorem nodeAt?_of_requireDirectory (required : tree.requireDirectory location = .ok ()) :
    tree.nodeAt? location = some .directory :=
  (lookUp_eq_ok_iff.mp (requireDirectory_eq_ok_iff.mp required)).2

/-- The place that something lies in is a directory. -/
theorem WellFormed.nodeAt?_dropLast (wellFormed : tree.WellFormed) {node : FileNode}
    (stands : tree.nodeAt? location = some node) :
    tree.nodeAt? location.dropLast = some .directory := by
  rw [nodeAt?] at stands
  split at stands
  · next onWay =>
      have above : location.dropLast.isPrefixOf tree.home = true := by
        rw [List.isPrefixOf_iff_prefix] at onWay ⊢
        exact (List.dropLast_prefix location).trans onWay
      rw [nodeAt?, if_pos above]
  · exact wellFormed.inDirectory location node stands

/-- Some pieces have led to a place when what a last name stands in is a directory. -/
theorem settle_eq_ok_iff {pieces : List (List Char)} {names : List String} :
    tree.settle pieces names = .ok location ↔
      (endInName pieces = true → tree.requireDirectory names.tail.reverse = .ok ()) ∧
        location = names.reverse := by
  have returned : (pure names.reverse : Except FileFault Location) = .ok location ↔
      location = names.reverse :=
    ⟨fun same => (Except.ok.inj same).symm, fun same => congrArg Except.ok same.symm⟩
  rw [settle]
  cases endInName pieces with
  | true =>
      simp only [if_true, bind_eq_ok_iff, returned, true_imp_iff]
      exact ⟨fun ⟨_, required, same⟩ => ⟨required, same⟩,
        fun ⟨required, same⟩ => ⟨(), required, same⟩⟩
  | false =>
      simp only [Bool.false_eq_true, if_false, false_imp_iff, true_and]
      exact returned

/-- A path leads to the place that its pieces lead to, if its text leads anywhere. What its last
name stands in must be a directory. -/
theorem locate_eq_ok_iff :
    tree.locate path = .ok location ↔ textFault? path = none ∧
      ∃ names, (leadingPieces path).foldlM tree.follow (tree.startOf path).reverse = .ok names ∧
        (leadsToName path = true → tree.requireDirectory names.tail.reverse = .ok ()) ∧
        location = names.reverse := by
  rw [locate]
  cases textFault? path with
  | some fault => simp
  | none => simp only [true_and, bind_eq_ok_iff, settle_eq_ok_iff, leadsToName]

/-- Something that is followed along one piece stands in a directory, if what comes behind does. -/
theorem nodeAt?_of_follow {names next : List String} {piece : List Char}
    (first : tree.follow names piece = .ok next)
    (stands : piece ≠ ['.'] → piece ≠ ['.', '.'] →
      tree.nodeAt? next.tail.reverse = some .directory) :
    tree.nodeAt? names.reverse = some .directory := by
  rw [follow] at first
  split at first
  · obtain ⟨⟨⟩, required, -⟩ := bind_eq_ok_iff.mp first
    exact nodeAt?_of_requireDirectory required
  · next notHere =>
      split at first
      · obtain ⟨⟨⟩, required, -⟩ := bind_eq_ok_iff.mp first
        exact nodeAt?_of_requireDirectory required
      · next notUp =>
          cases first
          exact stands notHere notUp

/-- Everything on the way along some pieces is a directory, if what the last name stands in is. -/
theorem WellFormed.nodeAt?_of_followed (wellFormed : tree.WellFormed) {names reached : List String}
    {pieces : List (List Char)} (filled : pieces ≠ [])
    (followed : pieces.foldlM tree.follow names = .ok reached)
    (ended : ∀ piece ∈ pieces.getLast?, piece ≠ ['.'] → piece ≠ ['.', '.'] →
      tree.requireDirectory reached.tail.reverse = .ok ()) :
    tree.nodeAt? names.reverse = some .directory := by
  induction pieces generalizing names with
  | nil => exact absurd rfl filled
  | cons piece later ih =>
      rw [List.foldlM_cons, bind_eq_ok_iff] at followed
      obtain ⟨next, first, followed⟩ := followed
      refine nodeAt?_of_follow first fun notHere notUp => ?_
      cases later with
      | nil =>
          cases followed
          exact nodeAt?_of_requireDirectory (ended piece rfl notHere notUp)
      | cons second later =>
          have behind := ih (by simp) followed fun last isLast => ended last (by simpa using isLast)
          rw [← List.dropLast_reverse]
          exact wellFormed.nodeAt?_dropLast behind

/-- A directory is made where nothing stands. -/
theorem free_of_createFor {after : FileTree} (created : tree.createFor path location = .ok after) :
    tree.nodeAt? location = none ∧ after = tree.put location .directory := by
  rw [createFor] at created
  split at created
  · cases created
  · obtain ⟨found, looked, created⟩ := bind_eq_ok_iff.mp created
    split at created
    · cases created
    · exact ⟨(lookUp_eq_ok_iff.mp looked).2, (Except.ok.inj created).symm⟩

/-- A regular file is written where no directory stands. -/
theorem ne_directory_of_writeFor {bytes : List UInt8} {after : FileTree}
    (written : tree.writeFor path location bytes = .ok after) :
    tree.nodeAt? location ≠ some .directory ∧ after = tree.put location (.file bytes) := by
  rw [writeFor] at written
  split at written
  · cases written
  · obtain ⟨found, looked, written⟩ := bind_eq_ok_iff.mp written
    split at written
    · cases written
    · next noDirectory =>
        rw [(lookUp_eq_ok_iff.mp looked).2]
        exact ⟨noDirectory, (Except.ok.inj written).symm⟩

/-- A path leads to a name when its last piece is neither of the two that are none. -/
theorem leadsToName_of_getLast? {piece : List Char} (last : (leadingPieces path).getLast? = some piece)
    (notHere : piece ≠ ['.']) (notUp : piece ≠ ['.', '.']) : leadsToName path = true := by
  rw [leadsToName, endInName, last]
  simpa using ⟨notHere, notUp⟩

/-- On the way to where a path leads, no directory is missing. -/
theorem WellFormed.createDirectory_of_mem_ancestors (wellFormed : tree.WellFormed) {above : Path}
    (located : tree.locate path = .ok location) (among : above ∈ path.ancestors.tail)
    (made : FileTree) : tree.createDirectory above ≠ .ok made := by
  intro created
  obtain ⟨start, back, filled, pieces⟩ := Path.leadingPieces_of_mem_ancestors among
  obtain ⟨-, names, followed, ended, -⟩ := locate_eq_ok_iff.mp located
  rw [pieces, List.foldlM_append, bind_eq_ok_iff] at followed
  obtain ⟨middle, toAbove, behind⟩ := followed
  have last : (leadingPieces path).getLast? = back.getLast? := by
    rw [pieces, List.getLast?_append_of_ne_nil _ filled]
  have directory := wellFormed.nodeAt?_of_followed filled behind fun piece isLast notHere notUp =>
    ended (leadsToName_of_getLast? (last.trans isLast) notHere notUp)
  -- The same pieces lead to the same place, where the directory to be made stands already.
  rw [createDirectory, bind_eq_ok_iff] at created
  obtain ⟨place, locatedAbove, created⟩ := created
  obtain ⟨-, names, followed, -, rfl⟩ := locate_eq_ok_iff.mp locatedAbove
  rw [startOf, start, ← startOf, toAbove] at followed
  cases followed
  cases directory.symm.trans (free_of_createFor created).1

/-- A path leads to a place where a regular file can be read. -/
structure ReachesFile (tree : FileTree) (path : Path) (location : Location) : Prop where
  located : tree.locate path = .ok location
  short : ¬location.getLast?.any (maxNameLength < ·.utf8ByteSize) = true
  ended : ¬endsInSeparator path = true

/-- The bytes of a regular file are those of the node at its place. -/
theorem file?_eq_some_iff {bytes : List UInt8} :
    tree.file? location = some bytes ↔ tree.nodeAt? location = some (.file bytes) := by
  rw [file?]
  split
  · next found => simp [found]
  · next other => simpa using other bytes

/-- A regular file is found at a place, unless its name is too long or the path to it ends in a
separator. -/
theorem nodeFor_eq_file_iff {bytes : List UInt8} :
    tree.nodeFor path location = .ok (.file bytes) ↔
      ¬location.getLast?.any (maxNameLength < ·.utf8ByteSize) = true ∧
        ¬endsInSeparator path = true ∧ tree.file? location = some bytes := by
  rw [nodeFor, bind_eq_ok_iff, file?_eq_some_iff]
  constructor
  · rintro ⟨found, looked, answered⟩
    obtain ⟨short, stands⟩ := lookUp_eq_ok_iff.mp looked
    split at answered
    · cases answered
    · split at answered
      · cases answered
      · next ended =>
          cases answered
          exact ⟨short, ended, stands⟩
    · cases answered
  · rintro ⟨short, ended, stands⟩
    exact ⟨_, lookUp_eq_ok_iff.mpr ⟨short, stands⟩, if_neg ended⟩

/-- A file is read at the place that the path to it leads to. -/
theorem read_eq_ok_iff {bytes : List UInt8} :
    tree.read path = .ok bytes ↔
      ∃ location, tree.ReachesFile path location ∧ tree.file? location = some bytes := by
  rw [read, FileAnswer.bytes_eq_ok_iff, node, bind_eq_ok_iff]
  constructor
  · rintro ⟨location, located, stands⟩
    obtain ⟨short, ended, stored⟩ := nodeFor_eq_file_iff.mp stands
    exact ⟨location, ⟨located, short, ended⟩, stored⟩
  · rintro ⟨location, ⟨located, short, ended⟩, stored⟩
    exact ⟨location, located, nodeFor_eq_file_iff.mpr ⟨short, ended, stored⟩⟩

/-- What is listed below a place is what is listed of each entry there. -/
theorem below_map {α β : Type} (change : α → β) (entries : List (Location × α)) :
    below location (entries.map fun entry => (entry.1, change entry.2)) =
      (below location entries).map fun entry => (entry.1, change entry.2) := by
  rw [below, below, List.map_filterMap, List.filterMap_map]
  congr 1
  funext entry
  simp only [Function.comp_apply]
  split <;> rfl

/-- A walk from a directory visits everything below it. -/
theorem walk_of_directory {root : Path} {place : Location} (stands : tree.node root = .ok .directory)
    (located : tree.locate root = .ok place) :
    tree.walk root = ((tree.nodesBelow place).mapM (visit root)).map List.flatten := by
  rw [walk, stands, located]
  rfl

/-- What stands at a place when something was put there, and at the others. -/
theorem getElem?_put (tree : FileTree) (location other : Location) (node : FileNode) :
    (tree.put location node).nodes[other]? =
      if location = other then some node else tree.nodes[other]? := by
  rw [put, Std.ExtTreeMap.getElem?_insert]
  simp only [Std.LawfulEqCmp.compare_eq_iff_eq]

/-- A regular file that is put where no directory stands is there with its bytes, and all others keep
theirs. -/
theorem file?_put_of_ne_directory (noDirectory : tree.nodeAt? location ≠ some .directory)
    (bytes : List UInt8) (other : Location) :
    (tree.put location (.file bytes)).file? other =
      if location = other then some bytes else tree.file? other := by
  have below : ¬location.isPrefixOf tree.home = true := by
    intro onWay
    exact noDirectory (if_pos onWay)
  have home : (tree.put location (.file bytes)).home = tree.home := rfl
  by_cases same : location = other
  · subst same
    rw [if_pos rfl, file?_eq_some_iff, nodeAt?, home, if_neg below, getElem?_put, if_pos rfl]
  · rw [if_neg same, file?, file?, nodeAt?, nodeAt?, home, getElem?_put, if_neg same]

/-- A regular file that is replaced has the new bytes, and all others keep theirs. -/
theorem file?_put {old : List UInt8} (stored : tree.file? location = some old)
    (bytes : List UInt8) (other : Location) :
    (tree.put location (.file bytes)).file? other =
      if location = other then some bytes else tree.file? other := by
  refine file?_put_of_ne_directory (fun directory => ?_) bytes other
  cases (file?_eq_some_iff.mp stored).symm.trans directory

/-- Writing a file puts it where the path to it leads. -/
theorem eq_put_of_write {bytes : List UInt8} {after : FileTree}
    (located : tree.locate path = .ok location) (written : tree.write path bytes = .ok after) :
    after = tree.put location (.file bytes) := by
  rw [write, located, bind_eq_ok_iff] at written
  obtain ⟨place, same, written⟩ := written
  cases same
  exact (ne_directory_of_writeFor written).2

end FileTree

end ClassAccess
