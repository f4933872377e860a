import ClassAccess.Files.Save
import ClassAccess.Proofs.Files.Session
import ClassAccess.Proofs.Files.Tree
import Mathlib.Logic.Relation

/-!
# Saving files on a session

A file that is saved is written after some directories were made, and a failure leaves
no more than such directories. Where a path leads already, the directories on the way to
it are there, so that saving a file makes none of them.
-/

namespace ClassAccess

variable {σ : Type} [FileSystem σ]

/-- Directories were made among some files, one after the other, to get at others. -/
def Prepared : σ → σ → Prop := Relation.ReflTransGen fun tree after =>
  ∃ path, FileSystem.createDirectory tree path = .ok after

namespace SessionOn

/-- Directories were made, and nothing was shown. -/
structure Grows (session left : SessionOn σ) : Prop where
  tree : Prepared session.tree left.tree
  log : left.log = session.log
  printed : left.printed = session.printed

/-- Nothing need be made. -/
theorem Grows.refl (session : SessionOn σ) : session.Grows session := ⟨.refl, rfl, rfl⟩

/-- Directories are made one after the other. -/
theorem Grows.trans {session middle left : SessionOn σ} (first : session.Grows middle)
    (second : middle.Grows left) : session.Grows left :=
  ⟨first.tree.trans second.tree, second.log.trans first.log, second.printed.trans first.printed⟩

end SessionOn

namespace Host

variable {session left : SessionOn σ} {path : Path} {bytes : List UInt8}

/-- Overlooking a failure changes nothing. -/
theorem snd_run_acceptExisting (made : Except FileFault Unit) :
    ((acceptExisting path made : StateM (SessionOn σ) (Except FileFault Unit)).run session).2 =
      session := by
  cases made with
  | ok _ => rfl
  | error fault =>
      rw [acceptExisting, SessionOn.run_bind, SessionOn.run_isDirectory]
      cases FileSystem.isDirectory session.tree path <;> rfl

/-- Whether or not a directory can be made, no more than that is done. -/
theorem grows_run_createDirectory (path : Path) (session : SessionOn σ) : session.Grows
    ((createDirectory path : StateM (SessionOn σ) (Except FileFault Unit)).run session).2 := by
  rw [SessionOn.run_createDirectory]
  cases created : FileSystem.createDirectory session.tree path with
  | error fault => exact .refl session
  | ok after => exact ⟨.single ⟨path, created⟩, rfl, rfl⟩

/-- Whether or not directories can be made, no more than that is done. -/
theorem grows_run_createFirst (paths : List Path) (session : SessionOn σ) : session.Grows
    ((createFirst paths : StateM (SessionOn σ) (Except FileFault Unit)).run session).2 := by
  induction paths generalizing session with
  | nil => exact .refl session
  | cons path above ih =>
      have first := grows_run_createDirectory path session
      rw [createFirst, SessionOn.run_bind]
      generalize (createDirectory path : StateM (SessionOn σ) (Except FileFault Unit)).run session =
        made at first
      obtain ⟨made, middle⟩ := made
      cases made with
      | ok _ =>
          rw [snd_run_acceptExisting]
          exact first
      | error fault =>
          -- Only a directory that is missing on the way has the ones above it made.
          cases fault with
          | notFound =>
              have before := ih middle
              rw [SessionOn.run_bind]
              generalize (createFirst above : StateM (SessionOn σ) (Except FileFault Unit)).run
                middle = more at before
              obtain ⟨more, later⟩ := more
              cases more with
              | error fault => exact first.trans before
              | ok _ =>
                  rw [SessionOn.run_bind, snd_run_acceptExisting]
                  exact (first.trans before).trans (grows_run_createDirectory path later)
          | _ =>
              rw [snd_run_acceptExisting]
              exact first

/-- A file that is saved is written once some directories were made. -/
theorem written_of_run_saveFile
    (saved : (saveFile path bytes : StateM (SessionOn σ) (Except FileFault Unit)).run session =
      (.ok (), left)) :
    ∃ middle, session.Grows middle ∧
      ((createParent path : StateM (SessionOn σ) (Except FileFault Unit)).run session).2 = middle ∧
      ∃ after, FileSystem.write middle.tree path bytes = .ok after ∧
        left = { middle with tree := after } := by
  have grows : session.Grows
      ((createParent path : StateM (SessionOn σ) (Except FileFault Unit)).run session).2 :=
    grows_run_createFirst _ session
  rw [saveFile, SessionOn.run_bind] at saved
  generalize (createParent path : StateM (SessionOn σ) (Except FileFault Unit)).run session = made
    at grows saved
  obtain ⟨fault | _, middle⟩ := made
  · cases saved
  · refine ⟨middle, grows, rfl, ?_⟩
    change (writeFile path bytes : StateM (SessionOn σ) (Except FileFault Unit)).run middle = _
      at saved
    rw [SessionOn.run_writeFile] at saved
    split at saved
    · cases saved
    · next after written =>
        cases saved
        exact ⟨after, written, rfl⟩

/-- A file that cannot be saved leaves directories at most. -/
theorem grows_of_run_saveFile {fault : FileFault}
    (failed : (saveFile path bytes : StateM (SessionOn σ) (Except FileFault Unit)).run session =
      (.error fault, left)) : session.Grows left := by
  have grows : session.Grows
      ((createParent path : StateM (SessionOn σ) (Except FileFault Unit)).run session).2 :=
    grows_run_createFirst _ session
  rw [saveFile, SessionOn.run_bind] at failed
  generalize (createParent path : StateM (SessionOn σ) (Except FileFault Unit)).run session = made
    at grows failed
  obtain ⟨_ | _, middle⟩ := made
  · cases failed
    exact grows
  · change (writeFile path bytes : StateM (SessionOn σ) (Except FileFault Unit)).run middle = _
      at failed
    rw [SessionOn.run_writeFile] at failed
    split at failed
    · cases failed
      exact grows
    · cases failed

/-- Directories that are not missing are not made. -/
theorem snd_run_createFirst {paths : List Path}
    (there : ∀ path ∈ paths, ∀ made, FileSystem.createDirectory session.tree path ≠ .ok made) :
    ((createFirst paths : StateM (SessionOn σ) (Except FileFault Unit)).run session).2 =
      session := by
  induction paths with
  | nil => rfl
  | cons path above ih =>
      rw [List.forall_mem_cons] at there
      have failed : ∃ fault,
          (createDirectory path : StateM (SessionOn σ) (Except FileFault Unit)).run session =
            (.error fault, session) := by
        rw [SessionOn.run_createDirectory]
        cases made : FileSystem.createDirectory session.tree path with
        | ok tree => exact absurd made (there.1 tree)
        | error fault => exact ⟨fault, rfl⟩
      obtain ⟨fault, failed⟩ := failed
      rw [createFirst, SessionOn.run_bind, failed]
      cases fault with
      | notFound =>
          have unchanged := ih there.2
          rw [SessionOn.run_bind, unchanged]
          cases ((createFirst above : StateM (SessionOn σ) (Except FileFault Unit)).run session).1
            with
          | error fault => rfl
          | ok _ =>
              rw [SessionOn.run_bind, failed]
              exact snd_run_acceptExisting _
      | _ => exact snd_run_acceptExisting _

/-- A file that is saved where a path leads already is written there. -/
theorem run_saveFile_of_located {session left : Session} {location : Location}
    (wellFormed : session.tree.WellFormed) (located : session.tree.locate path = .ok location)
    (saved : (saveFile path bytes : StateM Session (Except FileFault Unit)).run session =
      (.ok (), left)) :
    left = { session with tree := session.tree.put location (.file bytes) } := by
  obtain ⟨middle, -, parent, after, written, rfl⟩ := written_of_run_saveFile saved
  have unchanged : ((createParent path : StateM Session (Except FileFault Unit)).run session).2 =
      session := snd_run_createFirst fun above among made =>
    wellFormed.createDirectory_of_mem_ancestors located among made
  cases parent.symm.trans unchanged
  rw [FileTree.eq_put_of_write located written]

end Host

end ClassAccess
