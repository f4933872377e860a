import ClassAccess.Proofs.Command.Steps
import ClassAccess.Proofs.Files.Saving
import ClassAccess.Proofs.Transform.Again

/-!
# Jobs one after the other

What a run does about its classes, whatever its files are. A job that succeeds has read its
class, transformed it, taken care of the result and printed a line. The first job that
fails ends the run, and leaves no more than directories that it has made.

Where a result goes, and what becomes of the other files, is not said here, since it
depends on the files.
-/

namespace ClassAccess.Command

/-- A class that a job is about: where it lies, its bytes, and what is made of them. -/
structure Work where
  job : Job
  location : Location
  before : List UInt8
  made : Transformed

/-- The line about a class. -/
def Work.line (work : Work) : String := resultLine work.job work.made.outcome

/-- A tally after some work. -/
def tallyAfter (works : List Work) (tally : Tally) : Tally :=
  works.foldl (fun tally work => tally.add work.made.outcome) tally

/-- A job whose target is its source is done in place. -/
theorem inPlace_of_eq {job : Job} (same : job.target = job.source) : job.inPlace = true := by
  rw [Job.inPlace, same]
  exact beq_self_eq_true _

variable {σ : Type} [FileSystem σ] {options : Options} {rules : RuleSet} {tally later : Tally}
  {job : Job} {before : List UInt8} {made : Transformed} {session left : SessionOn σ}
  {error : RunError}

/-- How a result is taken care of. It is not written in a dry run, nor where it is there already.
Otherwise some directories are made, and then it is written to the target of the job. -/
inductive Job.Writes (options : Options) (job : Job) (made : Transformed) (tree : σ) :
    σ → Prop where
  | dry (dry : options.dryRun = true) : Writes options job made tree tree
  | there (real : options.dryRun = false) (unchanged : made.outcome.isUnchanged = true)
      (inPlace : job.inPlace = true) : Writes options job made tree tree
  | saved {middle after : σ} (real : options.dryRun = false)
      (new : made.outcome.isUnchanged = false ∨ job.inPlace = false)
      (prepared : Prepared tree middle)
      (written : FileSystem.write middle job.target made.bytes = .ok after) :
      Writes options job made tree after

/-- What a job has done that succeeded. -/
structure Job.Does (options : Options) (rules : RuleSet) (job : Job) (before : List UInt8)
    (made : Transformed) (session left : SessionOn σ) : Prop where
  read : FileSystem.read session.tree job.source = .ok before
  transformed : (transform rules before).1 = .ok made
  writes : job.Writes options made session.tree left.tree
  printed : left.printed = session.printed ++ resultLine job made.outcome
  reported : unusedReports left = unusedReports session

/-- Why a job fails: its class cannot be read or transformed, or the result cannot be saved. -/
inductive Job.Stops (rules : RuleSet) (tree : σ) (job : Job) : RunError → Prop where
  | unreadable {fault : FileFault} (failed : FileSystem.read tree job.source = .error fault) :
      Stops rules tree job (.file fault)
  | unfit {bytes : List UInt8} {error : TransformError}
      (read : FileSystem.read tree job.source = .ok bytes)
      (failed : (transform rules bytes).1 = .error error) :
      Stops rules tree job (.badClass job.source error)
  | unsaved {bytes : List UInt8} {made : Transformed} {session : SessionOn σ} {fault : FileFault}
      (read : FileSystem.read tree job.source = .ok bytes)
      (transformed : (transform rules bytes).1 = .ok made) (there : session.tree = tree)
      (failed : ((Host.saveFile job.target made.bytes :
        StateM (SessionOn σ) (Except FileFault Unit)).run session).1 = .error fault) :
      Stops rules tree job (.file fault)

/-- A job failed, and made directories at most. -/
structure Job.Fails (options : Options) (rules : RuleSet) (job : Job) (error : RunError)
    (session left : SessionOn σ) : Prop where
  stops : job.Stops rules session.tree error
  prepared : Prepared session.tree left.tree
  kept : options.dryRun = true → left.tree = session.tree

/-- In a dry run, a job leaves the files. -/
theorem Job.Does.kept (does : job.Does options rules before made session left)
    (dry : options.dryRun = true) : left.tree = session.tree := by
  have writes := does.writes
  generalize left.tree = after at writes
  cases writes with
  | dry => rfl
  | there => rfl
  | saved real => cases real.symm.trans dry

/-- Transformations that succeed report no owners without a class. -/
theorem filter_isUnusedEntry_transform {bytes : List UInt8}
    (succeeded : (transform rules bytes).1 = .ok made) :
    (transform rules bytes).2.filter isUnusedEntry = [] :=
  List.filter_eq_nil_iff.mpr fun _ among => Bool.eq_false_iff.mp
    (isUnusedEntry_of_isNotice (isNotice_of_mem_transform succeeded among))

/-- In a dry run, a result is only mentioned in the log. -/
theorem run_writeResult_of_dryRun (dry : options.dryRun = true) (job : Job) (made : Transformed)
    (session : SessionOn σ) :
    (writeResult options job made : RunM (StateM (SessionOn σ)) Unit).run.run session =
      (.ok (), session.logged [⟨.info, "Not writing '" ++ job.target.text ++ "' (dry run)"⟩]) := by
  rw [writeResult, dry]
  rfl

/-- A result that is not there yet is saved, which is mentioned in the log. -/
theorem run_writeResult_of_new (real : options.dryRun = false)
    (new : (!made.outcome.isUnchanged || !job.inPlace) = true) (session : SessionOn σ) :
    (writeResult options job made : RunM (StateM (SessionOn σ)) Unit).run.run session =
      let saved := (Host.saveFile job.target made.bytes :
        StateM (SessionOn σ) (Except FileFault Unit)).run
          (session.logged [⟨.info, "Writing '" ++ job.target.text ++ "'"⟩])
      (saved.1.mapError .file, saved.2) := by
  rw [writeResult, real, if_neg Bool.false_ne_true, if_pos new]
  rfl

/-- A result that is there already is not written. -/
theorem run_writeResult_of_there (real : options.dryRun = false)
    (there : ¬(!made.outcome.isUnchanged || !job.inPlace) = true) (session : SessionOn σ) :
    (writeResult options job made : RunM (StateM (SessionOn σ)) Unit).run.run session =
      (.ok (), session) := by
  rw [writeResult, real, if_neg Bool.false_ne_true, if_neg there]
  rfl

omit [FileSystem σ] in
/-- Reports about owners depend on the log alone, and messages about files are none. -/
theorem unusedReports_of_log {text : String}
    (log : left.log = (session.logged [⟨.info, text⟩]).log) :
    unusedReports left = unusedReports session := by
  have noReport : [(⟨.info, text⟩ : Log.Entry)].filter isUnusedEntry = [] :=
    filter_isUnusedEntry_of_calm (by simp)
  rw [unusedReports, log, ← unusedReports, unusedReports_logged, noReport, List.append_nil]

/-- A result that is written without a fault is taken care of, and nothing is printed or
reported. -/
theorem writes_of_run_writeResult
    (wrote : (writeResult options job made : RunM (StateM (SessionOn σ)) Unit).run.run session =
      (.ok (), left)) :
    job.Writes options made session.tree left.tree ∧ left.printed = session.printed ∧
      unusedReports left = unusedReports session := by
  by_cases dry : options.dryRun = true
  · rw [run_writeResult_of_dryRun dry] at wrote
    cases wrote
    exact ⟨.dry dry, rfl, unusedReports_of_log rfl⟩
  have real := Bool.eq_false_iff.mpr dry
  by_cases new : (!made.outcome.isUnchanged || !job.inPlace) = true
  · rw [run_writeResult_of_new real new] at wrote
    obtain ⟨saved, rest⟩ := Prod.mk.inj wrote
    obtain ⟨middle, grows, -, after, written, rfl⟩ :=
      Host.written_of_run_saveFile (Prod.ext (mapError_eq_ok_iff.mp saved) rest)
    exact ⟨.saved real (by simpa using new) grows.tree written, grows.printed,
      unusedReports_of_log grows.log⟩
  · rw [run_writeResult_of_there real new] at wrote
    cases wrote
    obtain ⟨unchanged, inPlace⟩ : made.outcome.isUnchanged = true ∧ job.inPlace = true := by
      simpa using new
    exact ⟨.there real unchanged inPlace, rfl, rfl⟩

/-- Only saving can fail when a result is written, and then directories were made at most. -/
theorem unsaved_of_run_writeResult
    (failed : (writeResult options job made : RunM (StateM (SessionOn σ)) Unit).run.run session =
      (.error error, left)) :
    options.dryRun = false ∧ Prepared session.tree left.tree ∧
      ∃ (opened : SessionOn σ) (fault : FileFault), opened.tree = session.tree ∧
        ((Host.saveFile job.target made.bytes :
          StateM (SessionOn σ) (Except FileFault Unit)).run opened).1 = .error fault ∧
        error = .file fault := by
  by_cases dry : options.dryRun = true
  · rw [run_writeResult_of_dryRun dry] at failed
    cases failed
  have real := Bool.eq_false_iff.mpr dry
  by_cases new : (!made.outcome.isUnchanged || !job.inPlace) = true
  · rw [run_writeResult_of_new real new] at failed
    obtain ⟨saved, rest⟩ := Prod.mk.inj failed
    generalize ran : (Host.saveFile job.target made.bytes :
      StateM (SessionOn σ) (Except FileFault Unit)).run _ = outcome at saved rest
    obtain ⟨fault | _, after⟩ := outcome
    · cases saved
      cases rest
      have grows := Host.grows_of_run_saveFile ran
      exact ⟨real, grows.tree, session.logged _, fault, rfl, congrArg Prod.fst ran, rfl⟩
    · cases saved
  · rw [run_writeResult_of_there real new] at failed
    cases failed

/-- A class that was transformed is done when the result is written and the line printed. -/
theorem does_of_run_writeResult {middle : SessionOn σ}
    (read : FileSystem.read session.tree job.source = .ok before)
    (transformed : (transform rules before).1 = .ok made)
    (wrote : (writeResult options job made : RunM (StateM (SessionOn σ)) Unit).run.run
      (session.logged (transform rules before).2) = (.ok (), middle)) :
    job.Does options rules before made session (middle.shown (resultLine job made.outcome)) := by
  obtain ⟨writes, printed, reported⟩ := writes_of_run_writeResult wrote
  refine ⟨read, transformed, writes, congrArg (· ++ resultLine job made.outcome) printed, ?_⟩
  rw [unusedReports_shown, reported, unusedReports_logged,
    filter_isUnusedEntry_transform transformed, List.append_nil]

/-- What a job comes to that succeeds. -/
theorem exists_does_of_runJob
    (ran : (runJob options rules tally job : RunM (StateM (SessionOn σ)) Tally).run.run session =
      (.ok later, left)) :
    ∃ before made, job.Does options rules before made session left ∧
      later = tally.add made.outcome := by
  obtain ⟨before, made, middle, read, transformed, wrote, rfl, rfl⟩ := run_runJob_eq_ok_iff.mp ran
  exact ⟨before, made, does_of_run_writeResult read transformed wrote, rfl⟩

/-- What a job comes to that does not succeed. -/
theorem fails_of_runJob
    (ran : (runJob options rules tally job : RunM (StateM (SessionOn σ)) Tally).run.run session =
      (.error error, left)) : job.Fails options rules error session left := by
  rw [run_runJob] at ran
  split at ran
  · next fault failed =>
      cases ran
      exact ⟨.unreadable failed, .refl, fun _ => rfl⟩
  · next bytes read =>
      split at ran
      · next refused log failed =>
          cases ran
          exact ⟨.unfit read (congrArg Prod.fst failed), .refl, fun _ => rfl⟩
      · next made log done =>
          split at ran
          · next other after failed =>
              cases ran
              obtain ⟨real, prepared, opened, fault, there, unsaved, rfl⟩ :=
                unsaved_of_run_writeResult failed
              refine ⟨.unsaved read (congrArg Prod.fst done) there unsaved, prepared, fun dry => ?_⟩
              cases real.symm.trans dry
          · cases ran

/-- Steps that lead on from one another, one for each item of a list. -/
inductive Chain {α β : Type} (Step : α → β → β → Prop) : List α → β → β → Prop where
  | none {state : β} : Chain Step [] state state
  | next {item : α} {behind : List α} {state middle last : β} (first : Step item state middle)
      (rest : Chain Step behind middle last) : Chain Step (item :: behind) state last

/-- The steps before and after a point of a chain. -/
theorem Chain.exists_middle {α β : Type} {Step : α → β → β → Prop} {earlier behind : List α}
    {state last : β} (chain : Chain Step (earlier ++ behind) state last) :
    ∃ middle, Chain Step earlier state middle ∧ Chain Step behind middle last := by
  induction earlier generalizing state with
  | nil => exact ⟨state, .none, chain⟩
  | cons item earlier ih =>
      cases chain with
      | next first rest =>
          obtain ⟨middle, before, after⟩ := ih rest
          exact ⟨middle, .next first before, after⟩

section

variable {α : Type} {work : α → Work} {Step : α → SessionOn σ → SessionOn σ → Prop}
  {jobs : List Job}

/-- Jobs that all succeed are steps that lead on from one another. -/
theorem exists_chain_of_foldlM
    (step : ∀ {job before made} {session left : SessionOn σ},
      job.Does options rules before made session left →
        ∃ item, (work item).job = job ∧ (work item).made = made ∧ Step item session left)
    (ran : (jobs.foldlM (runJob options rules) tally :
      RunM (StateM (SessionOn σ)) Tally).run.run session = (.ok later, left)) :
    ∃ items, items.map (fun item => (work item).job) = jobs ∧ Chain Step items session left ∧
      later = tallyAfter (items.map work) tally := by
  induction jobs generalizing session tally with
  | nil =>
      cases ran
      exact ⟨[], rfl, .none, rfl⟩
  | cons job jobs ih =>
      rw [List.foldlM_cons, run_bind] at ran
      split at ran
      · next middle ranFirst =>
          obtain ⟨before, made, does, rfl⟩ := exists_does_of_runJob ranFirst
          obtain ⟨item, rfl, rfl, first⟩ := step does
          obtain ⟨items, rfl, rest, tallied⟩ := ih ran
          exact ⟨item :: items, rfl, .next first rest, tallied⟩
      · cases ran

/-- When not all jobs succeed, some are steps that lead on from one another, and the next one
fails. -/
theorem exists_fails_of_foldlM
    (step : ∀ {job before made} {session left : SessionOn σ},
      job.Does options rules before made session left →
        ∃ item, (work item).job = job ∧ (work item).made = made ∧ Step item session left)
    (ran : (jobs.foldlM (runJob options rules) tally :
      RunM (StateM (SessionOn σ)) Tally).run.run session = (.error error, left)) :
    ∃ items job behind middle, jobs = items.map (fun item => (work item).job) ++ job :: behind ∧
      Chain Step items session middle ∧ job.Fails options rules error middle left := by
  induction jobs generalizing session tally with
  | nil => cases ran
  | cons job jobs ih =>
      rw [List.foldlM_cons, run_bind] at ran
      split at ran
      · next middle ranFirst =>
          obtain ⟨before, made, does, -⟩ := exists_does_of_runJob ranFirst
          obtain ⟨item, rfl, -, first⟩ := step does
          obtain ⟨items, failing, behind, last, rfl, rest, fails⟩ := ih ran
          exact ⟨item :: items, failing, behind, last, rfl, .next first rest, fails⟩
      · next middle ranFirst =>
          cases ran
          exact ⟨[], job, jobs, session, rfl, .none, fails_of_runJob ranFirst⟩

end

end ClassAccess.Command
