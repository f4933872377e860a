import ClassAccess.Proofs.Command.Jobs
import ClassAccess.Proofs.Files.Shape

/-!
# The work of a job in place

A job that goes back to where its class came from replaces the bytes of this one file
by what is made of them, or leaves the file when nothing changes. This module says so
of a single job and of several jobs that are done one after the other.
-/

namespace ClassAccess.Command

/-- A class lies where its job looks for it, and can be transformed. -/
structure Work.Ready (rules : RuleSet) (tree : FileTree) (work : Work) : Prop where
  reached : tree.ReachesFile work.job.source work.location
  stored : tree.file? work.location = some work.before
  transformed : (transform rules work.before).1 = .ok work.made

/-- What is left of a session when the work is done: the file of the class has other bytes, and the
line about the class is printed. -/
structure Work.Leaves (work : Work) (session left : Session) : Prop where
  sameShape : session.tree.SameShape left.tree
  files : ∀ location, left.tree.file? location =
    if work.location = location then some work.made.bytes else session.tree.file? location
  printed : left.printed = session.printed ++ work.line
  reported : unusedReports left = unusedReports session

variable {options : Options} {rules : RuleSet} {tally later : Tally} {job : Job}
  {session left : Session} {location : Location}

/-- A result without changes is not written in place. -/
theorem run_writeResult_of_isUnchanged {made : Transformed} (real : options.dryRun = false)
    (same : job.target = job.source) (unchanged : made.outcome.isUnchanged = true)
    (session : Session) :
    (writeResult options job made : RunM (StateM Session) Unit).run.run session =
      (.ok (), session) := by
  rw [writeResult, real, unchanged, inPlace_of_eq same]
  rfl

/-- A result with changes is written over the file that the job is about. -/
theorem left_of_run_writeResult {made : Transformed} (wellFormed : session.tree.WellFormed)
    (real : options.dryRun = false) (same : job.target = job.source)
    (changed : made.outcome.isUnchanged = false)
    (located : session.tree.locate job.source = .ok location)
    (wrote : (writeResult options job made : RunM (StateM Session) Unit).run.run session =
      (.ok (), left)) :
    ∃ entries : List Log.Entry, (∀ entry ∈ entries, entry.level ≠ .warn) ∧
      left = { session.logged entries with
        tree := session.tree.put location (.file made.bytes) } := by
  have new : (!made.outcome.isUnchanged || !job.inPlace) = true := by rw [changed]; rfl
  rw [run_writeResult_of_new real new, same] at wrote
  obtain ⟨saved, rest⟩ := Prod.mk.inj wrote
  let opened := session.logged [⟨.info, "Writing '" ++ job.source.text ++ "'"⟩]
  have stillWellFormed : opened.tree.WellFormed := wellFormed
  have ran : (Host.saveFile job.source made.bytes : StateM Session (Except FileFault Unit)).run
      opened = (.ok (), left) := Prod.ext (mapError_eq_ok_iff.mp saved) rest
  exact ⟨_, by simp, Host.run_saveFile_of_located stillWellFormed located ran⟩

/-- What is left when the result was written and the line about the class printed. -/
theorem Work.Ready.leaves {work : Work} (ready : work.Ready rules session.tree)
    (wellFormed : session.tree.WellFormed) (real : options.dryRun = false)
    (same : work.job.target = work.job.source)
    (wrote : (writeResult options work.job work.made : RunM (StateM Session) Unit).run.run session =
      (.ok (), left)) : work.Leaves session (left.shown work.line) := by
  cases unchanged : work.made.outcome.isUnchanged with
  | true =>
      rw [run_writeResult_of_isUnchanged real same unchanged] at wrote
      cases wrote
      refine ⟨.refl _, fun location => ?_, rfl, rfl⟩
      split
      · next here =>
          rw [← here, bytes_of_isUnchanged ready.transformed unchanged]
          exact ready.stored
      · rfl
  | false =>
      obtain ⟨entries, calm, rfl⟩ :=
        left_of_run_writeResult wellFormed real same unchanged ready.reached.located wrote
      refine ⟨FileTree.sameShape_put ready.stored _, FileTree.file?_put ready.stored _, rfl, ?_⟩
      change unusedReports (session.logged entries) = _
      rw [unusedReports_logged, filter_isUnusedEntry_of_calm calm, List.append_nil]

/-- What is left when a class is transformed, the result written and the line printed. -/
theorem Work.Ready.leaves_of_logged {work : Work} (ready : work.Ready rules session.tree)
    (wellFormed : session.tree.WellFormed) (real : options.dryRun = false)
    (same : work.job.target = work.job.source)
    (wrote : (writeResult options work.job work.made : RunM (StateM Session) Unit).run.run
      (session.logged (transform rules work.before).2) = (.ok (), left)) :
    work.Leaves session (left.shown work.line) := by
  have still : work.Ready rules (session.logged (transform rules work.before).2).tree := ready
  obtain ⟨sameShape, files, printed, reported⟩ := still.leaves wellFormed real same wrote
  rw [unusedReports_logged, filter_isUnusedEntry_transform ready.transformed,
    List.append_nil] at reported
  exact ⟨sameShape, files, printed, reported⟩

/-- A job that succeeds in place finds its class, and replaces it by what is made of it. -/
theorem exists_work_of_runJob (wellFormed : session.tree.WellFormed)
    (real : options.dryRun = false) (same : job.target = job.source)
    (ran : (runJob options rules tally job : RunM (StateM Session) Tally).run.run session =
      (.ok later, left)) :
    ∃ work : Work, work.job = job ∧ work.Ready rules session.tree ∧ work.Leaves session left ∧
      later = tally.add work.made.outcome := by
  obtain ⟨bytes, made, middle, read, done, wrote, rfl, rfl⟩ := run_runJob_eq_ok_iff.mp ran
  obtain ⟨location, reached, stored⟩ := FileTree.read_eq_ok_iff.mp read
  have ready : Work.Ready rules session.tree ⟨job, location, bytes, made⟩ := ⟨reached, stored, done⟩
  exact ⟨_, rfl, ready, ready.leaves_of_logged wellFormed real same wrote, rfl⟩

/-- A job in place about a class that has nothing left to change succeeds, and leaves the files. -/
theorem run_runJob_of_isUnchanged (tally : Tally) {work : Work}
    (ready : work.Ready rules session.tree) (unchanged : work.made.outcome.isUnchanged = true)
    (wellFormed : session.tree.WellFormed) (real : options.dryRun = false)
    (same : work.job.target = work.job.source) :
    ∃ left, (runJob options rules tally work.job : RunM (StateM Session) Tally).run.run session =
      (.ok (tally.add work.made.outcome), left) ∧ left.tree = session.tree ∧
        work.Leaves session left := by
  have read := FileTree.read_eq_ok_iff.mpr ⟨work.location, ready.reached, ready.stored⟩
  have wrote := run_writeResult_of_isUnchanged real same unchanged
    (session.logged (transform rules work.before).2)
  exact ⟨_, run_runJob_eq_ok_iff.mpr ⟨_, _, _, read, ready.transformed, wrote, rfl, rfl⟩, rfl,
    ready.leaves_of_logged wellFormed real same wrote⟩

/-- Work that is done in a session, one class after the other, and what is left at the end. -/
inductive Works (rules : RuleSet) : List Work → Session → Session → Prop where
  | none {session : Session} : Works rules [] session session
  | next {work : Work} {behind : List Work} {session middle left : Session}
      (ready : work.Ready rules session.tree) (leaves : work.Leaves session middle)
      (rest : Works rules behind middle left) : Works rules (work :: behind) session left

/-- Jobs that succeed in place are work that is done. -/
theorem exists_works_of_foldlM {jobs : List Job} (wellFormed : session.tree.WellFormed)
    (real : options.dryRun = false) (same : ∀ job ∈ jobs, job.target = job.source)
    (ran : (jobs.foldlM (runJob options rules) tally : RunM (StateM Session) Tally).run.run session =
      (.ok later, left)) :
    ∃ works, works.map Work.job = jobs ∧ Works rules works session left ∧
      later = tallyAfter works tally := by
  induction jobs generalizing session tally with
  | nil =>
      cases ran
      exact ⟨[], rfl, .none, rfl⟩
  | cons job jobs ih =>
      rw [List.forall_mem_cons] at same
      rw [List.foldlM_cons, run_bind] at ran
      split at ran
      · next middle ranFirst =>
          obtain ⟨work, rfl, ready, leaves, rfl⟩ :=
            exists_work_of_runJob wellFormed real same.1 ranFirst
          obtain ⟨works, rfl, rest, tallied⟩ :=
            ih (leaves.sameShape.wellFormed wellFormed) same.2 ran
          exact ⟨work :: works, rfl, .next ready leaves rest, tallied⟩
      · cases ran

/-- Jobs in place about classes that have nothing left to change succeed, and leave the files. -/
theorem run_foldlM_of_isUnchanged {works : List Work} (tally : Tally)
    (each : ∀ work ∈ works, work.Ready rules session.tree ∧
      work.made.outcome.isUnchanged = true ∧ work.job.target = work.job.source)
    (wellFormed : session.tree.WellFormed) (real : options.dryRun = false) :
    ∃ left, ((works.map Work.job).foldlM (runJob options rules) tally :
        RunM (StateM Session) Tally).run.run session = (.ok (tallyAfter works tally), left) ∧
      left.tree = session.tree ∧ Works rules works session left := by
  induction works generalizing session tally with
  | nil => exact ⟨session, rfl, rfl, .none⟩
  | cons work behind ih =>
      rw [List.forall_mem_cons] at each
      obtain ⟨⟨ready, unchanged, same⟩, rest⟩ := each
      obtain ⟨middle, ranFirst, kept, leaves⟩ :=
        run_runJob_of_isUnchanged tally ready unchanged wellFormed real same
      rw [← kept] at rest wellFormed
      obtain ⟨left, ran, keptBehind, done⟩ := ih (tally.add work.made.outcome) rest wellFormed
      refine ⟨left, ?_, keptBehind.trans kept, .next ready leaves done⟩
      rw [List.map_cons, List.foldlM_cons, run_bind, ranFirst]
      exact ran

namespace Works

variable {works : List Work}

/-- Work changes the bytes of files only. -/
theorem sameShape (done : Works rules works session left) : session.tree.SameShape left.tree := by
  induction done with
  | none => exact .refl _
  | next ready leaves rest ih => exact leaves.sameShape.trans ih

/-- The classes are reached before anything is done. -/
theorem reached (done : Works rules works session left) :
    ∀ work ∈ works, session.tree.ReachesFile work.job.source work.location := by
  induction done with
  | none => exact List.forall_mem_nil _
  | next ready leaves rest ih =>
      exact List.forall_mem_cons.mpr
        ⟨ready.reached, fun work among => leaves.sameShape.reachesFile_iff.mp (ih work among)⟩

end Works

end ClassAccess.Command
