import ClassAccess.Proofs.Command.Collecting
import ClassAccess.Proofs.Command.Turns
import ClassAccess.Proofs.Rule.Apart

/-!
# Runs in place

A run without an output directory replaces each class by what is made of it and leaves
all other files. The rules and the classes are found again after it, since rule files
are no class files and the walk does not look into files. A second run therefore finds
nothing to change, and misses the classes of the same owners.
-/

namespace ClassAccess.Command

variable {options : Options} {tree : FileTree} {rules : RuleSet} {jobs : List Job}
  {works : List Work} {left : Session}

/-- What a run in place comes to. Every class that is collected holds what is made of it, and no
other file is changed. The lines about the classes are printed in order, and the owners without a
class are reported. -/
structure InPlace (tree : FileTree) (options : Options) (rules : RuleSet) (works : List Work)
    (left : Session) : Prop where
  loaded : RuleSet.ofFilesOnto tree .empty options.rules = .ok rules
  collected : jobsIn tree options = .ok (works.map Work.job)
  ready : ∀ work ∈ works, work.Ready rules tree
  apart : (works.map Work.location).Nodup
  rewritten : ∀ work ∈ works, left.tree.file? work.location = some work.made.bytes
  untouched : ∀ location ∉ works.map Work.location,
    left.tree.file? location = tree.file? location
  sameShape : tree.SameShape left.tree
  printed : left.printed = String.join (works.map Work.line)
  reported : unusedReports left =
    (unusedOwners rules (tallyAfter works ⟨[], 0⟩)).map unusedEntry

/-- A run in place does the work of the jobs that it collects. -/
theorem inPlace_of_works {entries : List Log.Entry} {middle : Session}
    (wellFormed : tree.WellFormed) (noOutput : options.output = none)
    (real : options.dryRun = false)
    (loaded : RuleSet.ofFilesOnto tree .empty options.rules = .ok rules)
    (collected : jobsIn tree options = .ok (works.map Work.job))
    (calm : ∀ entry ∈ entries, entry.level ≠ .warn)
    (done : Works rules works ((SessionOn.start tree).logged entries) middle) :
    InPlace tree options rules works
      (middle.logged (closingEntries rules (works.map Work.job) (tallyAfter works ⟨[], 0⟩))) := by
  have same : ∀ work ∈ works, work.job.target = work.job.source :=
    List.forall_mem_map.mp (target_of_jobsIn noOutput collected)
  have turns := done.turns real same
  have apart := nodup_destinations wellFormed collected
  rw [List.map_map] at apart
  have inTurn : ReadInTurn rules tree works := turns.readInTurn real apart
  have placed : ∀ work ∈ works, work.location = work.place tree := fun work among => by
    rw [inTurn.named work among, Work.place, same work among]
  have places : works.map Work.location = works.map (Work.place tree) :=
    List.map_congr_left placed
  refine ⟨loaded, collected, fun work among => ?_, places ▸ apart, fun work among => ?_,
    fun location elsewhere => turns.file?_of_notMem (places ▸ elsewhere), done.sameShape, ?_, ?_⟩
  · -- No earlier result goes where the class lies, so that it is read as it was at the start.
    obtain ⟨earlier, later, split⟩ := List.append_of_mem among
    refine ⟨done.reached work among, inTurn.fromStart earlier work later split fun within => ?_,
      inTurn.transformed work among⟩
    rw [placed work among] at within
    rw [split] at apart
    exact notMem_places_of_nodup apart within
  · rw [placed work among]
    exact turns.file?_place real apart among
  · rw [SessionOn.printed_logged, turns.printed]
    exact String.empty_append
  · rw [unusedReports_logged, turns.reported, unusedReports_logged,
      filter_isUnusedEntry_of_calm calm, filter_closingEntries]
    rfl

/-- A run in place that succeeds does the work of the jobs that it collects. -/
theorem exists_inPlace_of_run (wellFormed : tree.WellFormed) (noOutput : options.output = none)
    (real : options.dryRun = false)
    (ran : (run options : RunM (StateM Session) Unit).run.run (.start tree) = (.ok (), left)) :
    ∃ rules works, InPlace tree options rules works left := by
  obtain ⟨entries, calm, succeeds⟩ := run_run_eq_ok_iff options (.start tree)
  obtain ⟨rules, jobs, tally, middle, loaded, collected, ranJobs, rfl⟩ := (succeeds left).mp ran
  obtain ⟨works, rfl, done, rfl⟩ :=
    exists_works_of_foldlM wellFormed real (target_of_jobsIn noOutput collected) ranJobs
  exact ⟨rules, works, inPlace_of_works wellFormed noOutput real loaded collected calm done⟩

/-- What is left to be done about a class in a second run. -/
def Work.again (work : Work) : Work :=
  { work with before := work.made.bytes, made := work.made.again }

/-- A second run says that a class is unchanged. -/
theorem Work.line_again (work : Work) :
    work.again.line = " - " ++ work.job.source.text ++ " [unchanged]\n" := by
  change " - " ++ work.job.source.text ++ " [" ++ "unchanged" ++ "]\n" = _
  simp only [String.append_assoc]
  rfl

/-- The same owners are seen in a second run. -/
theorem seenOwners_tallyAfter_again (works : List Work) {tally other : Tally}
    (same : tally.seenOwners = other.seenOwners) :
    (tallyAfter (works.map Work.again) tally).seenOwners = (tallyAfter works other).seenOwners := by
  induction works generalizing tally other with
  | nil => exact same
  | cons work behind ih =>
      refine ih ?_
      change _ :: _ ++ tally.seenOwners = _ :: _ ++ other.seenOwners
      rw [same]
      rfl

/-- The same classes are collected from trees of the same shape. -/
theorem jobsIn_of_sameShape {after : FileTree} (same : tree.SameShape after) :
    jobsIn after options = jobsIn tree options :=
  jobsIn_congr (funext same.isFile) (funext same.walk)

namespace InPlace

/-- Rule files are no classes, so that they are still the same after a run. -/
theorem loaded_again (inPlace : InPlace tree options rules works left) :
    RuleSet.ofFilesOnto left.tree .empty options.rules = .ok rules := by
  rw [← inPlace.loaded]
  refine RuleSet.ofFilesOnto_congr fun path among => ?_
  obtain ⟨bytes, read, isText⟩ := RuleSet.exists_read_of_ofFilesOnto inPlace.loaded among
  obtain ⟨location, reached, stored⟩ := FileTree.read_eq_ok_iff.mp read
  have elsewhere : location ∉ works.map Work.location := by
    intro within
    obtain ⟨work, held, rfl⟩ := List.mem_map.mp within
    have ready := inPlace.ready work held
    obtain ⟨file, -, -, parsed, -⟩ := Transform.transform_eq_ok_iff.mp ready.transformed
    cases stored.symm.trans ready.stored
    exact ClassFile.not_isText_of_parse parsed isText
  rw [read]
  exact FileTree.read_eq_ok_iff.mpr ⟨location, inPlace.sameShape.reachesFile_iff.mpr reached,
    (inPlace.untouched location elsewhere).trans stored⟩

/-- After a run, each class is there to be transformed again. -/
theorem ready_again (inPlace : InPlace tree options rules works left) :
    ∀ work ∈ works.map Work.again, work.Ready rules left.tree := by
  intro work among
  obtain ⟨first, held, rfl⟩ := List.mem_map.mp among
  have ready := inPlace.ready first held
  exact ⟨inPlace.sameShape.reachesFile_iff.mpr ready.reached, inPlace.rewritten first held,
    transform_made ready.transformed⟩

/-- A second run in place does nothing, and reports the same owners. -/
theorem exists_again (inPlace : InPlace tree options rules works left)
    (wellFormed : tree.WellFormed) (noOutput : options.output = none)
    (real : options.dryRun = false) :
    ∃ again, (run options : RunM (StateM Session) Unit).run.run (.start left.tree) =
        (.ok (), again) ∧ again.tree = left.tree ∧
      InPlace left.tree options rules (works.map Work.again) again := by
  have stillWellFormed := inPlace.sameShape.wellFormed wellFormed
  have collected : jobsIn left.tree options = .ok ((works.map Work.again).map Work.job) := by
    rw [jobsIn_of_sameShape inPlace.sameShape, inPlace.collected, List.map_map]
    rfl
  have same := target_of_jobsIn noOutput collected
  obtain ⟨entries, calm, succeeds⟩ := run_run_eq_ok_iff options (.start left.tree)
  have each : ∀ work ∈ works.map Work.again,
      work.Ready rules ((SessionOn.start left.tree).logged entries).tree ∧
        work.made.outcome.isUnchanged = true ∧ work.job.target = work.job.source := by
    refine fun work among => ⟨inPlace.ready_again work among, ?_,
      same _ (List.mem_map_of_mem among)⟩
    obtain ⟨first, -, rfl⟩ := List.mem_map.mp among
    exact first.made.isUnchanged_again
  obtain ⟨middle, ran, kept, done⟩ :=
    run_foldlM_of_isUnchanged ⟨[], 0⟩ each stillWellFormed real
  exact ⟨_, (succeeds _).mpr ⟨rules, _, _, middle, inPlace.loaded_again, collected, ran, rfl⟩,
    kept, inPlace_of_works stillWellFormed noOutput real inPlace.loaded_again collected calm done⟩

end InPlace

/-- When a run in place succeeds, each class holds what is made of it, every other file is unchanged,
and a line about each class is printed. Then the same command succeeds once more, leaves the files,
says of each class that it is unchanged, and reports the same owners without a class. -/
theorem execute_inPlace {arguments : List String} (wellFormed : tree.WellFormed)
    (asked : Request.ofArguments arguments = .ok (.run options))
    (noOutput : options.output = none) (real : options.dryRun = false)
    (ran : (execute arguments : StateM Session Ending).run (.start tree) = (⟨0, []⟩, left)) :
    ∃ rules works, InPlace tree options rules works left ∧
      ∃ again, (execute arguments : StateM Session Ending).run (.start left.tree) =
          (⟨0, []⟩, again) ∧
        again.tree = left.tree ∧
        again.printed = String.join
          (works.map fun work => " - " ++ work.job.source.text ++ " [unchanged]\n") ∧
        unusedReports again = unusedReports left := by
  obtain ⟨rules, works, inPlace⟩ := exists_inPlace_of_run wellFormed noOutput real
    ((run_execute_eq_iff asked).mp ran)
  obtain ⟨again, ranAgain, kept, inPlaceAgain⟩ := inPlace.exists_again wellFormed noOutput real
  refine ⟨rules, works, inPlace, again, (run_execute_eq_iff asked).mpr ranAgain, kept, ?_, ?_⟩
  · rw [inPlaceAgain.printed, List.map_map]
    congr 2
    exact funext Work.line_again
  · rw [inPlaceAgain.reported, inPlace.reported, unusedOwners, unusedOwners,
      seenOwners_tallyAfter_again works rfl]

/-- A rule file for the class of `sample` and for a class that is not there. -/
def sampleText : String := "public A\npublic+f A *\nprivate B"

/-- A directory with the class of `sample`, a rule file and another file. -/
def sampleTree : FileTree where
  home := ["w"]
  nodes := .ofList [
    (["w", "classes"], FileNode.directory),
    (["w", "classes", "A.class"], FileNode.file ClassFile.sampleBytes),
    (["w", "classes", "notes"], FileNode.file [10]),
    (["w", "classes", "rules"], FileNode.file (sampleText.toList.flatMap String.utf8EncodeChar))]

/-- The arguments of a run on this directory. -/
def sampleArguments : List String := ["classes", "--rules=classes/rules"]

/-- What these arguments ask for. -/
def sampleOptions : Options := ⟨[⟨"classes/rules"⟩], none, false, ⟨"classes"⟩⟩

/-- What is left of the first run. -/
def sampleLeft : Session :=
  ((execute sampleArguments : StateM Session Ending).run (.start sampleTree)).2

/-- The first run changes the class, and a second run nothing. -/
theorem execute_inPlace_sample :
    sampleTree.WellFormed ∧ Request.ofArguments sampleArguments = .ok (.run sampleOptions) ∧
      (execute sampleArguments : StateM Session Ending).run (.start sampleTree) =
        (⟨0, []⟩, sampleLeft) ∧
      sampleLeft.tree.file? ["w", "classes", "A.class"] = some Transform.sampleMade.bytes ∧
      sampleLeft.printed = " - classes/A.class [3 changed]\n" ∧
      unusedReports sampleLeft = [unusedEntry "B"] ∧
      ∃ rules works, InPlace sampleTree sampleOptions rules works sampleLeft ∧
        ∃ again, (execute sampleArguments : StateM Session Ending).run (.start sampleLeft.tree) =
            (⟨0, []⟩, again) ∧
          again.tree = sampleLeft.tree ∧
          again.printed = String.join
            (works.map fun work => " - " ++ work.job.source.text ++ " [unchanged]\n") ∧
          unusedReports again = unusedReports sampleLeft := by
  have wellFormed : sampleTree.WellFormed := by decide +kernel
  have asked : Request.ofArguments sampleArguments = .ok (.run sampleOptions) := by decide +kernel
  obtain ⟨ended, changed, printed, reported⟩ :
      ((execute sampleArguments : StateM Session Ending).run (.start sampleTree)).1 = ⟨0, []⟩ ∧
        sampleLeft.tree.file? ["w", "classes", "A.class"] = some Transform.sampleMade.bytes ∧
        sampleLeft.printed = " - classes/A.class [3 changed]\n" ∧
        unusedReports sampleLeft = [unusedEntry "B"] := by decide +kernel
  have ran : (execute sampleArguments : StateM Session Ending).run (.start sampleTree) =
      (⟨0, []⟩, sampleLeft) := Prod.ext ended rfl
  exact ⟨wellFormed, asked, ran, changed, printed, reported,
    execute_inPlace wellFormed asked rfl rfl ran⟩

end ClassAccess.Command
