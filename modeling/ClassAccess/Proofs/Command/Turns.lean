import ClassAccess.Proofs.Command.Work
import ClassAccess.Proofs.Files.Delivery

/-!
# Jobs in turn

What a run does about one class after the other, wherever the results go. A job that
succeeds leaves its result at the destination of its target, or nothing in a dry run. The
first job that fails ends the run, and touches no regular file itself.

`Turns` is the part of a run that succeeded; each class is read when its turn comes, so
that what was written in earlier turns is seen.
-/

namespace ClassAccess.Command

variable {options : Options} {rules : RuleSet} {tally later : Tally} {job : Job}
  {session left : Session} {error : RunError}

/-- The place that the result for a class goes to. -/
def Work.place (tree : FileTree) (work : Work) : Location := tree.destination work.job.target

/-- What taking care of a result comes to. In a dry run the files are as before. Otherwise the
destination of the target holds the result, and all other regular files are as before. -/
structure Job.Settles (options : Options) (job : Job) (bytes : List UInt8)
    (tree after : FileTree) : Prop where
  home : after.home = tree.home
  kept : options.dryRun = true → after = tree
  files : options.dryRun = false → ∀ location, after.file? location =
    if tree.destination job.target = location then some bytes else tree.file? location

/-- A class was transformed in its turn, the result was taken care of, and the line about the class was
printed. -/
structure Work.Done (options : Options) (rules : RuleSet) (work : Work)
    (session left : Session) : Prop where
  ready : work.Ready rules session.tree
  settles : work.job.Settles options work.made.bytes session.tree left.tree
  printed : left.printed = session.printed ++ work.line
  reported : unusedReports left = unusedReports session

/-- What became of the files when a result was taken care of. -/
theorem Job.Writes.settles {before : List UInt8} {made : Transformed} {tree after : FileTree}
    (writes : job.Writes options made tree after)
    (stored : tree.file? (tree.destination job.source) = some before)
    (transformed : (transform rules before).1 = .ok made) :
    job.Settles options made.bytes tree after := by
  cases writes with
  | dry dry => exact ⟨rfl, fun _ => rfl, fun real => by cases dry.symm.trans real⟩
  | there real unchanged inPlace =>
      refine ⟨rfl, fun _ => rfl, fun _ location => ?_⟩
      split
      · next here =>
          rw [← here, bytes_of_isUnchanged transformed unchanged,
            FileTree.destination_of_same inPlace]
          exact stored
      · rfl
  | saved real new prepared written =>
      obtain ⟨home, files⟩ := FileTree.file?_of_write prepared written
      exact ⟨home, fun dry => (by cases real.symm.trans dry), fun _ => files⟩

/-- A job that succeeds is a class that has had its turn. -/
theorem Job.Does.exists_done {before : List UInt8} {made : Transformed}
    (does : job.Does options rules before made session left) :
    ∃ work : Work, work.job = job ∧ work.made = made ∧ work.Done options rules session left := by
  obtain ⟨location, reached, stored⟩ := FileTree.read_eq_ok_iff.mp does.read
  refine ⟨⟨job, location, before, made⟩, rfl, rfl, ⟨reached, stored, does.transformed⟩, ?_,
    does.printed, does.reported⟩
  rw [FileTree.eq_destination_of_locate reached.located] at stored
  exact does.writes.settles stored does.transformed

/-- Results go to the same places as long as the working directory stays. -/
theorem place_of_home {tree after : FileTree} (home : after.home = tree.home) :
    Work.place after = Work.place tree :=
  funext fun work => congrFun (FileTree.destination_of_home home) work.job.target

/-- Classes that had their turns, one after the other. -/
abbrev Turns (options : Options) (rules : RuleSet) : List Work → Session → Session → Prop :=
  Chain (Work.Done options rules)

/-- Jobs that all succeed have had their turns. -/
theorem exists_turns_of_foldlM {jobs : List Job}
    (ran : (jobs.foldlM (runJob options rules) tally :
      RunM (StateM Session) Tally).run.run session = (.ok later, left)) :
    ∃ works, works.map Work.job = jobs ∧ Turns options rules works session left ∧
      later = tallyAfter works tally := by
  obtain ⟨works, same, turns, tallied⟩ := exists_chain_of_foldlM Job.Does.exists_done ran
  exact ⟨works, same, turns, tallied.trans (congrArg (tallyAfter · tally) (List.map_id works))⟩

namespace Turns

variable {works earlier behind : List Work} {work : Work} {location : Location}

/-- The working directory stays. -/
theorem home (turns : Turns options rules works session left) :
    left.tree.home = session.tree.home := by
  induction turns with
  | none => rfl
  | next first rest ih => exact ih.trans first.settles.home

/-- A dry run leaves the files. -/
theorem kept (turns : Turns options rules works session left) (dry : options.dryRun = true) :
    left.tree = session.tree := by
  induction turns with
  | none => rfl
  | next first rest ih => exact ih.trans (first.settles.kept dry)

/-- The lines about the classes are printed in order. -/
theorem printed (turns : Turns options rules works session left) :
    left.printed = session.printed ++ String.join (works.map Work.line) := by
  induction turns with
  | none => exact (String.append_empty).symm
  | next first rest ih =>
      rw [ih, first.printed, List.map_cons, String.join_cons, String.append_assoc]

/-- No owners without a class are reported. -/
theorem reported (turns : Turns options rules works session left) :
    unusedReports left = unusedReports session := by
  induction turns with
  | none => rfl
  | next first rest ih => exact ih.trans first.reported

/-- Files that no result goes to keep their bytes. -/
theorem file?_of_notMem (turns : Turns options rules works session left)
    (apart : location ∉ works.map (Work.place session.tree)) :
    left.tree.file? location = session.tree.file? location := by
  induction turns with
  | none => rfl
  | @next first behind session middle left done rest ih =>
      rw [List.map_cons, List.mem_cons, not_or] at apart
      have elsewhere : ¬session.tree.destination first.job.target = location := Ne.symm apart.1
      rw [ih (by rw [place_of_home done.settles.home]; exact apart.2)]
      by_cases dry : options.dryRun = true
      · rw [done.settles.kept dry]
      · rw [done.settles.files (Bool.eq_false_iff.mpr dry), if_neg elsewhere]

/-- The turns before and after a point of a run. -/
theorem exists_middle (turns : Turns options rules (earlier ++ behind) session left) :
    ∃ middle, Turns options rules earlier session middle ∧
      Turns options rules behind middle left := Chain.exists_middle turns

/-- Where results go to different places, each is there in the end. -/
theorem file?_place (turns : Turns options rules works session left)
    (real : options.dryRun = false) (apart : (works.map (Work.place session.tree)).Nodup)
    (among : work ∈ works) : left.tree.file? (work.place session.tree) = some work.made.bytes := by
  obtain ⟨earlier, behind, rfl⟩ := List.append_of_mem among
  obtain ⟨middle, before, turn⟩ := turns.exists_middle
  rw [List.map_append, List.nodup_append, List.map_cons, List.nodup_cons] at apart
  cases turn with
  | @next _ _ _ next _ first rest =>
      have untouched : work.place session.tree ∉ behind.map (Work.place next.tree) := by
        rw [place_of_home (first.settles.home.trans before.home)]
        exact apart.2.1.1
      have here : middle.tree.destination work.job.target = work.place session.tree :=
        congrFun (place_of_home before.home) work
      rw [Turns.file?_of_notMem rest untouched, first.settles.files real, if_pos here]

/-- Each class is read when its turn comes. -/
theorem exists_ready (turns : Turns options rules (earlier ++ work :: behind) session left) :
    ∃ middle, Turns options rules earlier session middle ∧ work.Ready rules middle.tree := by
  obtain ⟨middle, before, turn⟩ := turns.exists_middle
  cases turn with
  | next first rest => exact ⟨middle, before, first.ready⟩

/-- Every class was transformed. -/
theorem transformed (turns : Turns options rules works session left) :
    ∀ work ∈ works, (transform rules work.before).1 = .ok work.made := by
  induction turns with
  | none => exact List.forall_mem_nil _
  | next first rest ih => exact List.forall_mem_cons.mpr ⟨first.ready.transformed, ih⟩

end Turns

/-- Each class was found at the destination of its source and transformed. It was read in its turn:
where the result of an earlier class went, that is what was read, and elsewhere it was what the files
held at the start. -/
structure ReadInTurn (rules : RuleSet) (tree : FileTree) (works : List Work) : Prop where
  named : ∀ work ∈ works, work.location = tree.destination work.job.source
  transformed : ∀ work ∈ works, (transform rules work.before).1 = .ok work.made
  fromStart : ∀ earlier work later, works = earlier ++ work :: later →
    work.location ∉ earlier.map (Work.place tree) → tree.file? work.location = some work.before
  fromEarlier : ∀ earlier work later, works = earlier ++ work :: later → ∀ other ∈ earlier,
    other.place tree = work.location → work.before = other.made.bytes

/-- Of results that go to different places, no earlier one goes where a later one does. -/
theorem notMem_places_of_nodup {tree : FileTree} {earlier later : List Work} {work : Work}
    (apart : ((earlier ++ work :: later).map (Work.place tree)).Nodup) :
    work.place tree ∉ earlier.map (Work.place tree) := by
  rw [List.map_append, List.nodup_append] at apart
  intro within
  exact apart.2.2 _ within _ List.mem_cons_self rfl

/-- Classes whose results go to different places were read in their turns. -/
theorem Turns.readInTurn {works : List Work} (turns : Turns options rules works session left)
    (real : options.dryRun = false) (apart : (works.map (Work.place session.tree)).Nodup) :
    ReadInTurn rules session.tree works where
  named work among := by
    obtain ⟨earlier, later, rfl⟩ := List.append_of_mem among
    obtain ⟨middle, before, ready⟩ := turns.exists_ready
    rw [FileTree.eq_destination_of_locate ready.reached.located,
      FileTree.destination_of_home before.home]
  transformed := turns.transformed
  fromStart earlier work later split elsewhere := by
    subst split
    obtain ⟨middle, before, ready⟩ := turns.exists_ready
    rw [← before.file?_of_notMem elsewhere]
    exact ready.stored
  fromEarlier earlier work later split other among same := by
    subst split
    obtain ⟨middle, before, ready⟩ := turns.exists_ready
    rw [List.map_append] at apart
    have written := before.file?_place real (List.nodup_append.mp apart).1 among
    rw [same, ready.stored] at written
    exact Option.some.inj written

/-- Work in place is done in turns. -/
theorem Works.turns {works : List Work} (done : Works rules works session left)
    (real : options.dryRun = false) (same : ∀ work ∈ works, work.job.target = work.job.source) :
    Turns options rules works session left := by
  induction done with
  | none => exact .none
  | @next work behind session middle left ready leaves rest ih =>
      rw [List.forall_mem_cons] at same
      refine .next ⟨ready, ⟨leaves.sameShape.home, fun dry => ?_, fun _ location => ?_⟩,
        leaves.printed, leaves.reported⟩ (ih same.2)
      · cases real.symm.trans dry
      · rw [leaves.files, same.1, ← FileTree.eq_destination_of_locate ready.reached.located]

end ClassAccess.Command
