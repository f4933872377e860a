import ClassAccess.Proofs.Command.Reports
import ClassAccess.Proofs.Rule.Loading

/-!
# The steps of a run on a session

What each step of a run comes to on a session: what it returns by the files alone, what
it does to them, and what it shows. A step that only looks at the files leaves them.
-/

namespace ClassAccess.Command

variable {σ : Type} {options : Options} {rules : RuleSet} {session : SessionOn σ}

/-- An operation that is attempted gives its own fault or result. -/
theorem run_attempt {ε α : Type} (error : ε → RunError)
    (operation : StateM (SessionOn σ) (Except ε α)) (session : SessionOn σ) :
    (attempt error operation).run.run session =
      ((operation.run session).1.mapError error, (operation.run session).2) := rfl

variable [FileSystem σ]

/-- The jobs of a run on some files. -/
def jobsIn (tree : σ) (options : Options) : Except RunError (List Job) :=
  if FileSystem.isFile tree options.input then .ok [fileJob options]
  else
    ((FileSystem.walk tree options.input).mapError .walk).map fun found =>
      ((found.filter leadsToClass).map (walkedJob options)).filter fun job =>
        FileSystem.isFile tree job.source

/-- A message that is added to the log is shown there. -/
theorem run_inform (level : Log.Level) (text : String) (session : SessionOn σ) :
    (inform level text : RunM (StateM (SessionOn σ)) Unit).run.run session =
      (.ok (), session.logged [⟨level, text⟩]) := rfl

/-- The rules are those of the rule files, which are loaded without warnings. -/
theorem run_loadRules (options : Options) (session : SessionOn σ) :
    ∃ entries : List Log.Entry, (∀ entry ∈ entries, entry.level ≠ .warn) ∧
      (loadRules options : RunM (StateM (SessionOn σ)) RuleSet).run.run session =
        ((RuleSet.ofFilesOnto session.tree .empty options.rules).mapError .rules,
          session.logged entries) := by
  obtain ⟨entries, calm, ran⟩ := RuleSet.run_loadFiles options.rules session
  have loaded := run_attempt .rules (RuleSet.loadFiles options.rules).run session
  rw [ran] at loaded
  change ∃ entries : List Log.Entry, _ ∧
    (attempt .rules (RuleSet.loadFiles options.rules).run >>= fun rules => _ :
      RunM (StateM (SessionOn σ)) RuleSet).run.run session = _
  rw [run_bind, loaded]
  cases RuleSet.ofFilesOnto session.tree .empty options.rules with
  | error error => exact ⟨entries, calm, rfl⟩
  | ok rules =>
      dsimp only [Except.mapError]
      rw [run_bind, run_inform, SessionOn.logged_logged]
      exact ⟨_, List.forall_mem_append.mpr ⟨calm, by simp⟩, rfl⟩

/-- Jobs are kept when their classes are regular files. -/
theorem run_filterM_isFile (jobs : List Job) (session : SessionOn σ) :
    (jobs.filterM fun job => ExceptT.lift (Host.isFile job.source) :
        RunM (StateM (SessionOn σ)) (List Job)).run.run session =
      (.ok (jobs.filter fun job => FileSystem.isFile session.tree job.source), session) := by
  have kept (jobs before : List Job) :
      (jobs.filterAuxM (fun job => ExceptT.lift (Host.isFile job.source)) before :
          RunM (StateM (SessionOn σ)) (List Job)).run.run session =
        (.ok ((jobs.filter fun job => FileSystem.isFile session.tree job.source).reverse ++ before),
          session) := by
    induction jobs generalizing before with
    | nil => rfl
    | cons job later ih =>
        rw [List.filterAuxM, run_lift_bind, SessionOn.run_isFile]
        dsimp only
        rw [ih, List.filter_cons]
        cases FileSystem.isFile session.tree job.source <;> simp
  have whole := kept jobs []
  rw [List.append_nil] at whole
  rw [List.filterM, run_bind, whole]
  exact congrArg (fun kept => (Except.ok kept, session)) (List.reverse_reverse _)

/-- The jobs are those in the files. -/
theorem run_collectJobs (options : Options) (session : SessionOn σ) :
    (collectJobs options : RunM (StateM (SessionOn σ)) (List Job)).run.run session =
      (jobsIn session.tree options, session) := by
  rw [collectJobs, run_lift_bind, SessionOn.run_isFile, jobsIn]
  cases FileSystem.isFile session.tree options.input with
  | true => rfl
  | false =>
      change ((attempt .walk (Host.walk options.input) >>= _ :
        RunM (StateM (SessionOn σ)) (List Job))).run.run session = _
      rw [run_bind, run_attempt, SessionOn.run_walk]
      cases FileSystem.walk session.tree options.input with
      | error fault => rfl
      | ok found => exact run_filterM_isFile _ session

/-- A job reads, transforms, writes and prints, and stops at the first fault. -/
theorem run_runJob (options : Options) (rules : RuleSet) (tally : Tally) (job : Job)
    (session : SessionOn σ) :
    (runJob options rules tally job : RunM (StateM (SessionOn σ)) Tally).run.run session =
      match FileSystem.read session.tree job.source with
      | .error fault => (.error (.file fault), session)
      | .ok bytes =>
          match transform rules bytes with
          | (.error error, log) => (.error (.badClass job.source error), session.logged log)
          | (.ok made, log) =>
              match (writeResult options job made : RunM (StateM (SessionOn σ)) Unit).run.run
                  (session.logged log) with
              | (.error error, left) => (.error error, left)
              | (.ok (), left) =>
                  (.ok (tally.add made.outcome), left.shown (resultLine job made.outcome)) := by
  rw [runJob, run_bind, run_attempt, SessionOn.run_readFile]
  dsimp only
  cases FileSystem.read session.tree job.source with
  | error fault => rfl
  | ok bytes =>
      have reported := @run_report σ RunError _ _ id (transform rules bytes).2 session
      rw [List.map_id] at reported
      simp only [id] at reported
      dsimp only [Except.mapError]
      rw [run_bind, reported]
      rcases transform rules bytes with ⟨error | made, log⟩
      · rfl
      · dsimp only
        rw [run_bind]
        rcases (writeResult options job made : RunM (StateM (SessionOn σ)) Unit).run.run
          (session.logged log) with ⟨error | _, left⟩ <;> rfl

/-- A job succeeds when its class can be read and transformed and the result can be written. -/
theorem run_runJob_eq_ok_iff {tally later : Tally} {job : Job} {left : SessionOn σ} :
    (runJob options rules tally job : RunM (StateM (SessionOn σ)) Tally).run.run session =
        (.ok later, left) ↔
      ∃ bytes made middle, FileSystem.read session.tree job.source = .ok bytes ∧
        (transform rules bytes).1 = .ok made ∧
        (writeResult options job made : RunM (StateM (SessionOn σ)) Unit).run.run
          (session.logged (transform rules bytes).2) = (.ok (), middle) ∧
        later = tally.add made.outcome ∧ left = middle.shown (resultLine job made.outcome) := by
  rw [run_runJob]
  constructor
  · intro ran
    split at ran
    · cases ran
    · next bytes read =>
        split at ran
        · cases ran
        · next made log done =>
            split at ran
            · cases ran
            · next middle wrote =>
                cases ran
                exact ⟨bytes, made, middle, read, congrArg Prod.fst done, by rwa [done], rfl, rfl⟩
  · rintro ⟨bytes, made, middle, read, done, wrote, rfl, rfl⟩
    have both : transform rules bytes = (.ok made, (transform rules bytes).2) := Prod.ext done rfl
    rw [read]
    dsimp only
    rw [both]
    dsimp only
    rw [wrote]

/-- What a run reports at its end. -/
theorem run_closing (rules : RuleSet) (jobs : List Job) (tally : Tally) (session : SessionOn σ) :
    (do
      for owner in unusedOwners rules tally do
        inform .warn ("No class found for directives on '" ++ owner ++ "'")
      inform .info ("Changed " ++ toString tally.changedClasses ++ " of "
        ++ toString jobs.length ++ " classes") : RunM (StateM (SessionOn σ)) Unit).run.run session =
      (.ok (), session.logged (closingEntries rules jobs tally)) := by
  have reported := @run_report σ RunError _ _ unusedEntry (unusedOwners rules tally) session
  have closed := run_inform .info ("Changed " ++ toString tally.changedClasses ++ " of " ++
    toString jobs.length ++ " classes")
    (session.logged ((unusedOwners rules tally).map unusedEntry))
  rw [SessionOn.logged_logged] at closed
  have entry (owner : String) :
      ⟨.warn, "No class found for directives on '" ++ owner ++ "'"⟩ = unusedEntry owner := rfl
  rw [run_bind]
  simp only [inform, entry] at closed ⊢
  rw [reported]
  exact closed

/-- A run loads the rules, collects the classes and does the jobs, and stops at the first fault. At
its end it reports. -/
theorem run_run (options : Options) (session : SessionOn σ) :
    ∃ entries : List Log.Entry, (∀ entry ∈ entries, entry.level ≠ .warn) ∧
      (run options : RunM (StateM (SessionOn σ)) Unit).run.run session =
        match RuleSet.ofFilesOnto session.tree .empty options.rules with
        | .error error => (.error (.rules error), session.logged entries)
        | .ok rules =>
            match jobsIn session.tree options with
            | .error error => (.error error, session.logged entries)
            | .ok jobs =>
                match (jobs.foldlM (runJob options rules) ⟨[], 0⟩ :
                    RunM (StateM (SessionOn σ)) Tally).run.run (session.logged entries) with
                | (.error error, left) => (.error error, left)
                | (.ok tally, left) => (.ok (), left.logged (closingEntries rules jobs tally)) := by
  obtain ⟨entries, calm, loaded⟩ := run_loadRules options session
  refine ⟨entries, calm, ?_⟩
  rw [run, run_bind, loaded]
  cases RuleSet.ofFilesOnto session.tree .empty options.rules with
  | error error => rfl
  | ok rules =>
      dsimp only [Except.mapError]
      rw [run_bind, run_collectJobs, SessionOn.tree_logged]
      cases jobsIn session.tree options with
      | error error => rfl
      | ok jobs =>
          dsimp only
          rw [run_bind]
          rcases (jobs.foldlM (runJob options rules) ⟨[], 0⟩ :
            RunM (StateM (SessionOn σ)) Tally).run.run (session.logged entries) with
              ⟨error | tally, left⟩
          · rfl
          · exact run_closing rules jobs tally left

/-- A run succeeds when the rules can be loaded, the classes collected and all jobs done. -/
theorem run_run_eq_ok_iff (options : Options) (session : SessionOn σ) :
    ∃ entries : List Log.Entry, (∀ entry ∈ entries, entry.level ≠ .warn) ∧
      ∀ left, (run options : RunM (StateM (SessionOn σ)) Unit).run.run session = (.ok (), left) ↔
        ∃ rules jobs tally middle,
          RuleSet.ofFilesOnto session.tree .empty options.rules = .ok rules ∧
          jobsIn session.tree options = .ok jobs ∧
          (jobs.foldlM (runJob options rules) ⟨[], 0⟩ : RunM (StateM (SessionOn σ)) Tally).run.run
            (session.logged entries) = (.ok tally, middle) ∧
          left = middle.logged (closingEntries rules jobs tally) := by
  obtain ⟨entries, calm, equation⟩ := run_run options session
  refine ⟨entries, calm, fun left => ?_⟩
  rw [equation]
  constructor
  · intro ran
    split at ran
    · cases ran
    · next rules loaded =>
        split at ran
        · cases ran
        · next jobs collected =>
            split at ran
            · cases ran
            · next tally middle done =>
                cases ran
                exact ⟨rules, jobs, tally, middle, loaded, collected, done, rfl⟩
  · rintro ⟨rules, jobs, tally, middle, loaded, collected, done, rfl⟩
    rw [loaded]
    dsimp only
    rw [collected]
    dsimp only
    rw [done]

/-- How a command ends when its run does. -/
def endingOf : Except RunError Unit → Ending
  | .ok () => ⟨0, []⟩
  | .error error => ⟨1, ["Error: " ++ error.message]⟩

/-- A command that asks for a run does no more than to run. -/
theorem run_execute {arguments : List String}
    (asked : Request.ofArguments arguments = .ok (.run options)) (session : SessionOn σ) :
    (execute arguments : StateM (SessionOn σ) Ending).run session =
      (endingOf ((run options : RunM (StateM (SessionOn σ)) Unit).run.run session).1,
        ((run options : RunM (StateM (SessionOn σ)) Unit).run.run session).2) := by
  rw [execute, asked]
  dsimp only
  rw [SessionOn.run_bind]
  rcases (run options : RunM (StateM (SessionOn σ)) Unit).run.run session with
    ⟨error | _, left⟩ <;> rfl

/-- A command that asks for a run ends well when the run does. -/
theorem run_execute_eq_iff {arguments : List String} {left : SessionOn σ}
    (asked : Request.ofArguments arguments = .ok (.run options)) :
    (execute arguments : StateM (SessionOn σ) Ending).run session = (⟨0, []⟩, left) ↔
      (run options : RunM (StateM (SessionOn σ)) Unit).run.run session = (.ok (), left) := by
  rw [run_execute asked]
  rcases (run options : RunM (StateM (SessionOn σ)) Unit).run.run session with ⟨error | _, other⟩
  · constructor <;> intro ended <;> cases ended
  · constructor
    · intro ended
      cases ended
      rfl
    · intro ran
      cases ran
      rfl

/-- A command that asks for a run and does not end well complains about the error of the run. -/
theorem exists_error_of_run_execute {arguments : List String} {ending : Ending} {left : SessionOn σ}
    (asked : Request.ofArguments arguments = .ok (.run options))
    (ended : (execute arguments : StateM (SessionOn σ) Ending).run session = (ending, left))
    (failed : ending.exitCode ≠ 0) :
    ∃ error : RunError, ending = ⟨1, ["Error: " ++ error.message]⟩ ∧
      (run options : RunM (StateM (SessionOn σ)) Unit).run.run session = (.error error, left) := by
  rw [run_execute asked] at ended
  generalize (run options : RunM (StateM (SessionOn σ)) Unit).run.run session = ran at ended
  obtain ⟨error | _, other⟩ := ran
  · cases ended
    exact ⟨error, rfl, rfl⟩
  · cases ended
    exact absurd rfl failed

end ClassAccess.Command
