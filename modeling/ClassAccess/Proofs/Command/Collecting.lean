import ClassAccess.Proofs.Command.Steps
import ClassAccess.Proofs.Files.Destinations
import ClassAccess.Proofs.Files.Walking
import Mathlib.Data.List.Nodup

/-!
# Collecting classes

The classes that a run collects are the input itself or those below it, each once. Their
results go back to where they came from, or to the same names below another directory,
and in both cases to different places.
-/

namespace ClassAccess.Command

variable {options : Options} {jobs : List Job}

section

variable {σ : Type} [FileSystem σ] {tree : σ}

/-- The jobs depend on which paths lead to regular files and on what is walked to. -/
theorem jobsIn_congr {τ : Type} [FileSystem τ] {other : τ}
    (isFile : FileSystem.isFile other = FileSystem.isFile tree)
    (walk : FileSystem.walk other = FileSystem.walk tree) :
    jobsIn other options = jobsIn tree options := by
  rw [jobsIn, jobsIn, isFile, walk]

/-- Jobs cannot be collected when the input cannot be walked through. -/
theorem exists_walk_of_jobsIn {error : RunError} (failed : jobsIn tree options = .error error) :
    ∃ fault, error = .walk fault := by
  rw [jobsIn] at failed
  split at failed
  · cases failed
  · cases walked : FileSystem.walk tree options.input with
    | ok files =>
        rw [walked] at failed
        cases failed
    | error fault =>
        rw [walked] at failed
        cases failed
        exact ⟨fault, rfl⟩

/-- The jobs are about regular files: the input itself, or files that are walked to. -/
theorem isFile_of_jobsIn (collected : jobsIn tree options = .ok jobs) :
    ∀ job ∈ jobs, FileSystem.isFile tree job.source = true ∧
      (job = fileJob options ∨ ∃ names, job = walkedJob options names) := by
  rw [jobsIn] at collected
  intro job among
  split at collected
  · next isFile =>
      cases collected
      cases List.mem_singleton.mp among
      exact ⟨isFile, .inl rfl⟩
  · obtain ⟨files, -, rfl⟩ := map_eq_ok_iff.mp collected
    obtain ⟨walked, isFile⟩ := List.mem_filter.mp among
    obtain ⟨names, -, rfl⟩ := List.mem_map.mp walked
    exact ⟨isFile, .inr ⟨names, rfl⟩⟩

/-- Without an output directory, results go back to where the classes came from. -/
theorem target_of_jobsIn (noOutput : options.output = none)
    (collected : jobsIn tree options = .ok jobs) : ∀ job ∈ jobs, job.target = job.source := by
  intro job among
  obtain ⟨-, rfl | ⟨names, rfl⟩⟩ := isFile_of_jobsIn collected job among
  · rw [fileJob, noOutput]
  · rw [walkedJob, noOutput]
    rfl

end

variable {tree : FileTree} {root : Path} {place names : Location}

/-- The names that lead on from a directory to the classes below it, whose paths can be followed. -/
def classesBelow (tree : FileTree) (root : Path) (place : Location) : List Location :=
  (((tree.filesBelow place).map Prod.fst).filter leadsToClass).filter fun names =>
    tree.isFile (root.joinAll names)

/-- Classes are found under names that can name entries of directories. -/
theorem named_of_classesBelow (wellFormed : tree.WellFormed)
    (held : names ∈ classesBelow tree root place) : ∀ name ∈ names, IsEntryName name := by
  have listed := List.mem_of_mem_filter (List.mem_of_mem_filter held)
  obtain ⟨⟨_, bytes⟩, among, rfl⟩ := List.mem_map.mp listed
  have stored := FileTree.mem_filesBelow_iff.mp among
  intro name within
  exact wellFormed.named _ _ stored name (List.mem_append_right _ within)

/-- The jobs of a run: one for an input that is a file, or one for each class below the input. -/
inductive Collected (tree : FileTree) (options : Options) : List Job → Prop where
  | alone (isFile : tree.isFile options.input = true) : Collected tree options [fileJob options]
  | below {place : Location} (notFile : tree.isFile options.input = false)
      (rooted : tree.locate options.input = .ok place) :
      Collected tree options ((classesBelow tree options.input place).map (walkedJob options))

/-- These jobs are collected. -/
theorem collected_of_jobsIn (collected : jobsIn tree options = .ok jobs) :
    Collected tree options jobs := by
  rw [jobsIn] at collected
  split at collected
  · next isFile =>
      cases collected
      exact .alone isFile
  · next other =>
      have notFile := Bool.eq_false_iff.mpr other
      obtain ⟨files, walked, rfl⟩ := map_eq_ok_iff.mp collected
      obtain ⟨place, rooted, rfl⟩ :=
        FileTree.exists_of_walk (mapError_eq_ok_iff.mp walked) notFile
      rw [List.filter_map]
      exact .below notFile rooted

/-- The results of a run go to different places. -/
theorem nodup_destinations (wellFormed : tree.WellFormed)
    (collected : jobsIn tree options = .ok jobs) :
    (jobs.map fun job => tree.destination job.target).Nodup := by
  cases collected_of_jobsIn collected with
  | alone isFile => exact List.nodup_singleton _
  | @below place notFile rooted =>
      have leads {names : Location} (held : names ∈ classesBelow tree options.input place) :
          tree.destination (walkedJob options names).target =
            tree.destination (options.output.getD options.input) ++ names :=
        tree.destination_joinAll _ (named_of_classesBelow wellFormed held)
      rw [List.map_map]
      refine (((tree.nodup_filesBelow place).filter _).filter _).map_on ?_
      intro names held other heldToo same
      exact List.append_cancel_left ((leads held).symm.trans (same.trans (leads heldToo)))

end ClassAccess.Command
