import ClassAccess.Proofs.Command.Collecting
import ClassAccess.Proofs.Command.Jobs
import ClassAccess.Proofs.Files.Links

/-!
# Turns in a tree with links

What becomes of a tree with links when classes have their turns. Each turn reads the file
that its source leads to and writes the one that its target leads to, and these paths go
on leading there. The files at the end are those at the start, with the results written
over them in order.

Several paths may lead to one file, so that a result may be written over an earlier one.
-/

namespace ClassAccess.Command

/-- A class that has had its turn, and the place that was written, if one was. -/
structure Turn extends Work where
  written : Option Location

/-- The files after a turn. -/
def Turn.after (files : Location → Option (List UInt8)) (turn : Turn) :
    Location → Option (List UInt8) :=
  fun location => if turn.written = some location then some turn.made.bytes else files location

/-- The files after some turns. -/
def filesAfter (files : Location → Option (List UInt8)) (turns : List Turn) :
    Location → Option (List UInt8) := turns.foldl Turn.after files

/-- A file that turns have changed holds the result of one of them, which was written there. -/
theorem exists_turn_of_filesAfter {files : Location → Option (List UInt8)} {turns : List Turn}
    {location : Location} (changed : filesAfter files turns location ≠ files location) :
    ∃ turn ∈ turns, turn.written = some location ∧
      filesAfter files turns location = some turn.made.bytes := by
  induction turns generalizing files with
  | nil => exact absurd rfl changed
  | cons turn behind ih =>
      have both : filesAfter files (turn :: behind) = filesAfter (turn.after files) behind := rfl
      rw [both] at changed ⊢
      by_cases later : filesAfter (turn.after files) behind location = turn.after files location
      · rw [later] at changed ⊢
        have here : turn.written = some location :=
          Classical.byContradiction fun elsewhere => changed (if_neg elsewhere)
        exact ⟨turn, List.mem_cons_self, here, if_pos here⟩
      · obtain ⟨other, among, here⟩ := ih later
        exact ⟨other, List.mem_cons_of_mem turn among, here⟩

/-- A class has had its turn. The file that its source leads to was read and transformed, and the one
that its target leads to was written, unless it was a dry run or the result was there already. -/
structure Turn.Done (options : Options) (rules : RuleSet) (turn : Turn)
    (session left : SessionOn LinkedTree) : Prop where
  reached : session.tree.ReachesFile turn.job.source turn.location
  stored : session.tree.file? turn.location = some turn.before
  transformed : (transform rules turn.before).1 = .ok turn.made
  more : session.tree.Extends left.tree
  led : ∀ place ∈ turn.written, left.tree.locate turn.job.target = .ok place
  files : left.tree.file? = turn.after session.tree.file?
  spared : turn.written = none ↔
    options.dryRun = true ∨ turn.made.outcome.isUnchanged = true ∧ turn.job.inPlace = true
  kept : options.dryRun = true → left.tree = session.tree
  printed : left.printed = session.printed ++ turn.line
  reported : unusedReports left = unusedReports session

variable {options : Options} {rules : RuleSet} {tally later : Tally} {job : Job}
  {before : List UInt8} {made : Transformed} {session left : SessionOn LinkedTree}
  {turns earlier behind : List Turn} {turn : Turn}

/-- A job that succeeds is a class that has had its turn. -/
theorem Job.Does.exists_turn (does : job.Does options rules before made session left) :
    ∃ turn : Turn, turn.job = job ∧ turn.made = made ∧ turn.Done options rules session left := by
  have kept := does.kept
  obtain ⟨read, transformed, writes, printed, reported⟩ := does
  obtain ⟨location, reached, stored⟩ := LinkedTree.read_eq_ok_iff.mp read
  -- Nothing is written in the first two cases, so that the files are as before.
  have unwritten (same : left.tree = session.tree)
      (spared : options.dryRun = true ∨ made.outcome.isUnchanged = true ∧ job.inPlace = true) :
      Turn.Done options rules ⟨⟨job, location, before, made⟩, none⟩ session left :=
    ⟨reached, stored, transformed, same ▸ .refl _, nofun, same ▸ rfl,
      ⟨fun _ => spared, fun _ => rfl⟩, kept, printed, reported⟩
  generalize ended : left.tree = after at writes
  cases writes with
  | dry dry => exact ⟨_, rfl, rfl, unwritten ended (.inl dry)⟩
  | there real unchanged inPlace =>
      exact ⟨_, rfl, rfl, unwritten ended (.inr ⟨unchanged, inPlace⟩)⟩
  | @saved middle after real new prepared written =>
      obtain ⟨first, same⟩ := LinkedTree.extends_of_prepared prepared
      obtain ⟨place, located, second, files⟩ := LinkedTree.exists_place_of_write written
      subst ended
      refine ⟨⟨⟨job, location, before, made⟩, some place⟩, rfl, rfl, reached, stored, transformed,
        first.trans second, ?_, ?_, ?_, kept, printed, reported⟩
      · rintro _ ⟨⟩
        exact second.locate located
      · funext other
        simp only [files, same, Turn.after, Option.some.injEq]
      · constructor
        · exact nofun
        · rintro (dry | ⟨unchanged, inPlace⟩)
          · cases real.symm.trans dry
          · rcases new with changed | elsewhere
            · cases unchanged.symm.trans changed
            · cases inPlace.symm.trans elsewhere

/-- Classes that have had their turns, one after the other. -/
abbrev LinkedTurns (options : Options) (rules : RuleSet) :
    List Turn → SessionOn LinkedTree → SessionOn LinkedTree → Prop :=
  Chain (Turn.Done options rules)

namespace LinkedTurns

/-- Directories and links stay. -/
theorem more (chain : LinkedTurns options rules turns session left) :
    session.tree.Extends left.tree := by
  induction chain with
  | none => exact .refl _
  | next first rest ih => exact first.more.trans ih

/-- The results are written over the files in order. -/
theorem files (chain : LinkedTurns options rules turns session left) :
    left.tree.file? = filesAfter session.tree.file? turns := by
  induction chain with
  | none => rfl
  | next first rest ih =>
      rw [ih, first.files]
      rfl

/-- A dry run leaves the files. -/
theorem kept (chain : LinkedTurns options rules turns session left)
    (dry : options.dryRun = true) : left.tree = session.tree := by
  induction chain with
  | none => rfl
  | next first rest ih => exact ih.trans (first.kept dry)

/-- The turns before and after a point of a run. -/
theorem exists_middle (chain : LinkedTurns options rules (earlier ++ behind) session left) :
    ∃ middle, LinkedTurns options rules earlier session middle ∧
      LinkedTurns options rules behind middle left := Chain.exists_middle chain

/-- What a turn came to, with the turns before it and behind it. -/
theorem exists_done (chain : LinkedTurns options rules (earlier ++ turn :: behind) session left) :
    ∃ middle next, LinkedTurns options rules earlier session middle ∧
      turn.Done options rules middle next ∧ next.tree.Extends left.tree := by
  obtain ⟨middle, before, after⟩ := chain.exists_middle
  cases after with
  | next first rest => exact ⟨middle, _, before, first, more rest⟩

/-- What one of the turns came to. -/
theorem exists_done_of_mem (chain : LinkedTurns options rules turns session left)
    (among : turn ∈ turns) :
    ∃ middle next, turn.Done options rules middle next ∧ next.tree.Extends left.tree := by
  obtain ⟨earlier, behind, rfl⟩ := List.append_of_mem among
  obtain ⟨middle, next, -, done, rest⟩ := chain.exists_done
  exact ⟨middle, next, done, rest⟩

end LinkedTurns

/-- What is known of turns that had their results written over some files. Each class was read in its
turn, so that what was written in earlier turns is seen, and the paths of its job lead to where it was
read and written. -/
structure TookTurns (options : Options) (rules : RuleSet) (files : Location → Option (List UInt8))
    (turns : List Turn) (tree : LinkedTree) : Prop where
  located : ∀ turn ∈ turns, tree.locate turn.job.source = .ok turn.location
  inTurn : ∀ earlier turn behind, turns = earlier ++ turn :: behind →
    filesAfter files earlier turn.location = some turn.before
  transformed : ∀ turn ∈ turns, (transform rules turn.before).1 = .ok turn.made
  spared : ∀ turn ∈ turns, turn.written = none ↔
    options.dryRun = true ∨ turn.made.outcome.isUnchanged = true ∧ turn.job.inPlace = true
  led : ∀ turn ∈ turns, ∀ place ∈ turn.written, tree.locate turn.job.target = .ok place
  files : tree.file? = filesAfter files turns

/-- Turns that were had. -/
theorem LinkedTurns.tookTurns (chain : LinkedTurns options rules turns session left) :
    TookTurns options rules session.tree.file? turns left.tree where
  located turn among := by
    obtain ⟨middle, next, done, rest⟩ := chain.exists_done_of_mem among
    exact (done.more.trans rest).locate done.reached.located
  inTurn earlier turn behind split := by
    subst split
    obtain ⟨middle, next, before, done, -⟩ := chain.exists_done
    rw [← before.files]
    exact done.stored
  transformed turn among := by
    obtain ⟨middle, next, done, -⟩ := chain.exists_done_of_mem among
    exact done.transformed
  spared turn among := by
    obtain ⟨middle, next, done, -⟩ := chain.exists_done_of_mem among
    exact done.spared
  led turn among place written := by
    obtain ⟨middle, next, done, rest⟩ := chain.exists_done_of_mem among
    exact rest.locate (done.led place written)
  files := chain.files

/-- Without links, the results of a run go to different places. -/
theorem nodup_destinations_of_unlinked {tree : LinkedTree} {jobs : List Job}
    (unlinked : tree.links = ∅) (wellFormed : tree.files.WellFormed)
    (collected : jobsIn tree options = .ok jobs) :
    (jobs.map fun job => tree.files.destination job.target).Nodup := by
  obtain ⟨files, links⟩ := tree
  subst unlinked
  have same : jobsIn files options = .ok jobs := by
    rw [← collected]
    exact (jobsIn_congr (funext (LinkedTree.isFile_ofFiles files))
      (funext (LinkedTree.walk_ofFiles files))).symm
  exact nodup_destinations wellFormed same

end ClassAccess.Command
