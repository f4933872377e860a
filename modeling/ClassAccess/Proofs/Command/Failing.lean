import ClassAccess.Proofs.Command.LinkedTurns
import ClassAccess.Proofs.Command.Output

/-!
# Runs that fail

A run stops at the first fault. What was written before is complete, and nothing of the
class at which it stopped or of a later one is written. So a run that fails leaves each
regular file as it was, or with the whole result for a class that was done. That file is
the one that the output path of the class leads to, which through a link may be any.

A fault of the machine in the middle of writing a file is not looked at here.
-/

namespace ClassAccess.Command

variable {options : Options} {tree : LinkedTree} {rules : RuleSet} {left : SessionOn LinkedTree}

/-- What a run that stopped at a job comes to. The classes of the jobs before it had their turns, and
their results are written over the files in order. So a file that was changed is one that the output
path of such a class leads to, and holds the whole result. Without links it lies at the output path
itself, and what lies at those of the other classes is left. No file is changed in a dry run. -/
structure Stopped (tree : LinkedTree) (options : Options) (rules : RuleSet) (turns : List Turn)
    (job : Job) (behind : List Job) (error : RunError) (left : SessionOn LinkedTree) : Prop where
  loaded : RuleSet.ofFilesOnto tree .empty options.rules = .ok rules
  collected : jobsIn tree options = .ok (turns.map (fun turn => turn.job) ++ job :: behind)
  took : TookTurns options rules tree.file? turns left.tree
  stops : ∃ before : LinkedTree, before.file? = left.tree.file? ∧ job.Stops rules before error
  changed : ∀ location, left.tree.file? location ≠ tree.file? location →
    ∃ turn ∈ turns, turn.written = some location ∧
      left.tree.locate turn.job.target = .ok location ∧
      left.tree.file? location = some turn.made.bytes
  unlinked : tree.links = ∅ → ∀ turn ∈ turns, ∀ place ∈ turn.written,
    place = tree.files.destination turn.job.target
  unwritten : tree.links = ∅ → tree.files.WellFormed → ∀ later ∈ job :: behind,
    left.tree.file? (tree.files.destination later.target) =
      tree.file? (tree.files.destination later.target)
  kept : options.dryRun = true → left.tree = tree

/-- How a run fails. -/
inductive Failed (tree : LinkedTree) (options : Options) (left : SessionOn LinkedTree) :
    RunError → Prop where
  | loading {error : LoadError}
      (failed : RuleSet.ofFilesOnto tree .empty options.rules = .error error)
      (kept : left.tree = tree) : Failed tree options left (.rules error)
  | collecting {rules : RuleSet} {fault : WalkFault}
      (loaded : RuleSet.ofFilesOnto tree .empty options.rules = .ok rules)
      (failed : jobsIn tree options = .error (.walk fault))
      (kept : left.tree = tree) : Failed tree options left (.walk fault)
  | working {rules : RuleSet} {turns : List Turn} {job : Job} {behind : List Job}
      {error : RunError} (stopped : Stopped tree options rules turns job behind error left) :
      Failed tree options left error

/-- When some classes had their turns and the next job failed, the run stopped there. -/
theorem LinkedTurns.stopped {turns : List Turn} {job : Job} {behind : List Job} {error : RunError}
    {session middle : SessionOn LinkedTree} (chain : LinkedTurns options rules turns session middle)
    (fails : job.Fails options rules error middle left)
    (loaded : RuleSet.ofFilesOnto session.tree .empty options.rules = .ok rules)
    (collected :
      jobsIn session.tree options = .ok (turns.map (fun turn => turn.job) ++ job :: behind)) :
    Stopped session.tree options rules turns job behind error left := by
  obtain ⟨more, same⟩ := LinkedTree.extends_of_prepared fails.prepared
  have took := chain.tookTurns
  have led : ∀ turn ∈ turns, ∀ place ∈ turn.written,
      left.tree.locate turn.job.target = .ok place :=
    fun turn among place written => more.locate (took.led turn among place written)
  have changed (location : Location)
      (differs : left.tree.file? location ≠ session.tree.file? location) :
      ∃ turn ∈ turns, turn.written = some location ∧
        left.tree.locate turn.job.target = .ok location ∧
        left.tree.file? location = some turn.made.bytes := by
    rw [same, took.files] at differs ⊢
    obtain ⟨turn, among, written, whole⟩ := exists_turn_of_filesAfter differs
    exact ⟨turn, among, written, led turn among location written, whole⟩
  have unlinked (none : session.tree.links = ∅) : ∀ turn ∈ turns, ∀ place ∈ turn.written,
      place = session.tree.files.destination turn.job.target := by
    intro turn among place written
    have whole := chain.more.trans more
    rw [LinkedTree.eq_destination_of_locate (whole.links.trans none)
      (led turn among place written), FileTree.destination_of_home whole.files.home]
  refine ⟨loaded, collected, ⟨fun turn among => more.locate (took.located turn among), took.inTurn,
      took.transformed, took.spared, led, same.trans took.files⟩,
    ⟨middle.tree, same.symm, fails.stops⟩, changed, unlinked,
    fun none wellFormed later among => Classical.byContradiction fun differs => ?_,
    fun dry => (fails.kept dry).trans (chain.kept dry)⟩
  -- Without links no output path is that of two classes.
  obtain ⟨turn, held, written, -⟩ := changed _ differs
  have apart := nodup_destinations_of_unlinked none wellFormed collected
  rw [List.map_append, List.map_map, List.nodup_append] at apart
  exact apart.2.2 _ (List.mem_map_of_mem held) _ (List.mem_map_of_mem among)
    (unlinked none turn held _ written).symm

/-- A run that fails has not started with the classes, and has changed nothing, or has stopped at one
of them, and all results that it has written are whole. -/
theorem execute_failed {arguments : List String} {ending : Ending}
    (asked : Request.ofArguments arguments = .ok (.run options))
    (ran : (execute arguments : StateM (SessionOn LinkedTree) Ending).run (.start tree) =
      (ending, left))
    (failed : ending.exitCode ≠ 0) :
    ∃ error, ending = ⟨1, ["Error: " ++ error.message]⟩ ∧ Failed tree options left error := by
  obtain ⟨error, complaint, stopped⟩ := exists_error_of_run_execute asked ran failed
  refine ⟨error, complaint, ?_⟩
  obtain ⟨entries, -, equation⟩ := run_run options (.start tree)
  rw [equation] at stopped
  split at stopped
  · next unloaded =>
      cases stopped
      exact .loading unloaded rfl
  · next rules loaded =>
      split at stopped
      · next uncollected =>
          cases stopped
          obtain ⟨fault, rfl⟩ := exists_walk_of_jobsIn uncollected
          exact .collecting loaded uncollected rfl
      · next jobs collected =>
          split at stopped
          · next ranJobs =>
              cases stopped
              obtain ⟨turns, job, behind, middle, rfl, chain, fails⟩ :=
                exists_fails_of_foldlM Job.Does.exists_turn ranJobs
              exact .working (LinkedTurns.stopped chain fails loaded collected)
          · cases stopped

/-- A directory with a class, and behind it a file that holds no class. A link in the output
directory leads to a file outside. -/
def brokenTree : LinkedTree where
  files := {
    home := ["w"]
    nodes := .ofList [
      (["w", "in"], FileNode.directory),
      (["w", "in", "A.class"], FileNode.file (tinyBytes 65 32)),
      (["w", "in", "B.class"], FileNode.file [202, 254]),
      (["w", "notes"], FileNode.file [10]),
      (["w", "out"], FileNode.directory),
      (["w", "rules"], FileNode.file ("public A".toList.flatMap String.utf8EncodeChar))] }
  links := .ofList [(["w", "out", "A.class"], Path.mk "../notes")]

/-- The arguments of a run on this directory. -/
def brokenArguments : List String := ["in", "--rules=rules", "--output=out"]

/-- What these arguments ask for. -/
def brokenOptions : Options := ⟨[⟨"rules"⟩], some ⟨"out"⟩, false, ⟨"in"⟩⟩

/-- How the run ends, and what is left of it. -/
def brokenRun : Ending × SessionOn LinkedTree :=
  (execute brokenArguments : StateM (SessionOn LinkedTree) Ending).run (.start brokenTree)

/-- The run stops at the second file, with the result for the class in the file that the link leads
to. -/
theorem execute_failed_broken :
    brokenTree.WellFormed ∧ Request.ofArguments brokenArguments = .ok (.run brokenOptions) ∧
      brokenRun.1.exitCode ≠ 0 ∧
      brokenRun.2.tree.file? ["w", "notes"] = some (tinyBytes 65 33) ∧
      ∃ error, brokenRun.1 = ⟨1, ["Error: " ++ error.message]⟩ ∧
        Failed brokenTree brokenOptions brokenRun.2 error := by
  have asked : Request.ofArguments brokenArguments = .ok (.run brokenOptions) := by decide +kernel
  have wellFormed : brokenTree.WellFormed := by decide +kernel
  obtain ⟨failed, written⟩ : brokenRun.1.exitCode ≠ 0 ∧
      brokenRun.2.tree.file? ["w", "notes"] = some (tinyBytes 65 33) := by decide +kernel
  exact ⟨wellFormed, asked, failed, written, execute_failed asked rfl failed⟩

/-- A file that is changed need not lie at the output path of a class. -/
theorem changed_elsewhere :
    ¬∀ (tree : LinkedTree) (arguments : List String) (options : Options) (ending : Ending)
        (left : SessionOn LinkedTree) (jobs : List Job), tree.WellFormed →
      Request.ofArguments arguments = .ok (.run options) →
      (execute arguments : StateM (SessionOn LinkedTree) Ending).run (.start tree) =
        (ending, left) →
      ending.exitCode ≠ 0 → jobsIn tree options = .ok jobs →
      ∀ location, left.tree.file? location ≠ tree.file? location →
        ∃ job ∈ jobs, tree.files.destination job.target = location := by
  intro atOutput
  have asked : Request.ofArguments brokenArguments = .ok (.run brokenOptions) := by decide +kernel
  have wellFormed : brokenTree.WellFormed := by decide +kernel
  obtain ⟨failed, changed⟩ : brokenRun.1.exitCode ≠ 0 ∧
      brokenRun.2.tree.file? ["w", "notes"] ≠ brokenTree.file? ["w", "notes"] := by decide +kernel
  have collected : jobsIn brokenTree brokenOptions =
      .ok [⟨⟨"in/A.class"⟩, ⟨"out/A.class"⟩⟩, ⟨⟨"in/B.class"⟩, ⟨"out/B.class"⟩⟩] := by
    decide +kernel
  obtain ⟨job, among, lies⟩ := atOutput brokenTree brokenArguments brokenOptions brokenRun.1
    brokenRun.2 _ wellFormed asked rfl failed collected ["w", "notes"] changed
  have elsewhere : ∀ job ∈ [(⟨⟨"in/A.class"⟩, ⟨"out/A.class"⟩⟩ : Job),
      ⟨⟨"in/B.class"⟩, ⟨"out/B.class"⟩⟩],
      brokenTree.files.destination job.target ≠ ["w", "notes"] := by decide +kernel
  exact elsewhere job among lies

end ClassAccess.Command
