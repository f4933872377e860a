import ClassAccess.Proofs.Command.Collecting
import ClassAccess.Proofs.Command.Turns

/-!
# Runs with an output directory

A run with an output directory puts the result for each class below it, at the names that
lead to the class, and touches no other file. When one of the two directories lies within
the other, the result for one class may go where a later class is read from. The later
class is then made from that result, and not from what its file held at the start.
-/

namespace ClassAccess.Command

variable {options : Options} {tree : FileTree} {rules : RuleSet} {jobs : List Job}
  {works : List Work} {output : Path} {left : Session}

/-- Where the result for a class goes: from some names below a directory to the same names below
the output directory, and from a file to its name below the output directory. -/
inductive Job.RoutedTo (tree : FileTree) (input output : Path) (job : Job) : Prop where
  | below (names : Location) (directory : tree.isFile input = false)
      (source : tree.destination job.source = tree.destination input ++ names)
      (target : tree.destination job.target = tree.destination output ++ names)
  | alone (name : String) (file : tree.isFile input = true) (named : input.fileName? = some name)
      (source : job.source = input)
      (target : tree.destination job.target = tree.destination output ++ [name])

/-- Results are routed to the output directory. -/
theorem routedTo_of_jobsIn (wellFormed : tree.WellFormed) (sent : options.output = some output)
    (collected : jobsIn tree options = .ok jobs) :
    ∀ job ∈ jobs, job.RoutedTo tree options.input output := by
  intro job among
  cases collected_of_jobsIn collected with
  | alone isFile =>
      cases List.mem_singleton.mp among
      obtain ⟨name, named⟩ := wellFormed.exists_fileName? isFile
      have isName := Path.isEntryName_of_fileName? named
      have target : (fileJob options).target = output.joinAll [name] := by
        rw [fileJob, sent, named]
        rfl
      refine .alone name isFile named rfl ?_
      rw [target, tree.destination_joinAll output (List.forall_mem_singleton.mpr isName)]
  | below notFile rooted =>
      obtain ⟨names, held, rfl⟩ := List.mem_map.mp among
      have named := named_of_classesBelow wellFormed held
      refine .below names notFile (tree.destination_joinAll options.input named) ?_
      rw [walkedJob, sent]
      exact tree.destination_joinAll output named

/-- The output directory is the input, or neither of the two lies within the other. -/
def Separate (tree : FileTree) (input output : Path) : Prop :=
  tree.destination output = tree.destination input ∨
    ¬tree.destination output <+: tree.destination input ∧
      ¬tree.destination input <+: tree.destination output

/-- With such an output directory, no result goes where a later class is read from. -/
theorem ReadInTurn.stored_of_separate {input : Path} (readInTurn : ReadInTurn rules tree works)
    (routed : ∀ work ∈ works, work.job.RoutedTo tree input output)
    (apart : (works.map (Work.place tree)).Nodup) (separate : Separate tree input output) :
    ∀ work ∈ works, tree.file? work.location = some work.before := by
  intro work among
  obtain ⟨earlier, later, split⟩ := List.append_of_mem among
  refine readInTurn.fromStart earlier work later split fun within => ?_
  obtain ⟨other, before, same⟩ := List.mem_map.mp within
  have differ : other.place tree ≠ work.place tree := fun alike =>
    notMem_places_of_nodup (split ▸ apart) (alike ▸ List.mem_map_of_mem before)
  rw [readInTurn.named work among] at same
  cases routed work among with
  | below names directory source target =>
      cases routed other (split ▸ List.mem_append_left _ before) with
      | below others _ _ otherTarget =>
          rw [Work.place, otherTarget, source] at same
          rcases separate with here | ⟨notAbove, notBelow⟩
          · rw [here] at same
            cases List.append_cancel_left same
            exact differ (otherTarget.trans target.symm)
          · rcases List.prefix_or_prefix_of_prefix (List.prefix_append _ others)
              ⟨names, same.symm⟩ with above | below
            · exact notAbove above
            · exact notBelow below
      | alone name file => cases file.symm.trans directory
  | alone name file named source target =>
      cases routed other (split ▸ List.mem_append_left _ before) with
      | below names directory => cases file.symm.trans directory
      | alone otherName _ otherNamed _ otherTarget =>
          cases named.symm.trans otherNamed
          exact differ (otherTarget.trans target.symm)

/-- What a run with an output directory comes to. Each class was read in its turn, and what was made
of it is where its result is routed to. No other file is changed. If the two directories do not
overlap, each class was read as it was at the start. -/
structure Delivered (tree : FileTree) (options : Options) (output : Path) (rules : RuleSet)
    (works : List Work) (left : Session) : Prop where
  loaded : RuleSet.ofFilesOnto tree .empty options.rules = .ok rules
  collected : jobsIn tree options = .ok (works.map Work.job)
  routed : ∀ work ∈ works, work.job.RoutedTo tree options.input output
  readInTurn : ReadInTurn rules tree works
  apart : (works.map (Work.place tree)).Nodup
  delivered : ∀ work ∈ works, left.tree.file? (work.place tree) = some work.made.bytes
  untouched : ∀ location ∉ works.map (Work.place tree),
    left.tree.file? location = tree.file? location
  fromStart : Separate tree options.input output →
    ∀ work ∈ works, tree.file? work.location = some work.before

/-- A run with an output directory that succeeds puts what is made of each class there, and leaves
all other files. A class is made from what its file holds when its turn comes: the result for an
earlier class that went there, if there is one, or else what it held at the start. An earlier result
can only be there when one of the two directories lies within the other. -/
theorem execute_output {arguments : List String} (wellFormed : tree.WellFormed)
    (asked : Request.ofArguments arguments = .ok (.run options))
    (sent : options.output = some output) (real : options.dryRun = false)
    (ran : (execute arguments : StateM Session Ending).run (.start tree) = (⟨0, []⟩, left)) :
    ∃ rules works, Delivered tree options output rules works left := by
  obtain ⟨entries, -, succeeds⟩ := run_run_eq_ok_iff options (.start tree)
  obtain ⟨rules, jobs, tally, middle, loaded, collected, ranJobs, rfl⟩ :=
    (succeeds left).mp ((run_execute_eq_iff asked).mp ran)
  obtain ⟨works, rfl, turns, -⟩ := exists_turns_of_foldlM ranJobs
  have apart := nodup_destinations wellFormed collected
  rw [List.map_map] at apart
  have routed := routedTo_of_jobsIn wellFormed sent collected
  rw [List.forall_mem_map] at routed
  have readInTurn : ReadInTurn rules tree works := turns.readInTurn real apart
  exact ⟨rules, works, loaded, collected, routed, readInTurn, apart,
    fun work => turns.file?_place real apart, fun location => turns.file?_of_notMem,
    readInTurn.stored_of_separate routed apart⟩

/-- The bytes of a class without members, with a name of one letter. -/
def tinyBytes (letter access : UInt8) : List UInt8 :=
  [202, 254, 186, 190, 0, 0, 0, 52, 0, 3, 1, 0, 1, letter, 7, 0, 1, 0, access, 0, 2, 0, 0, 0, 0,
    0, 0, 0, 0, 0, 0]

/-- A directory with a class, and below it an output directory with another class under the same
name. -/
def overlapTree : FileTree where
  home := ["w"]
  nodes := .ofList [
    (["w", "in"], FileNode.directory),
    (["w", "in", "A.class"], FileNode.file (tinyBytes 65 32)),
    (["w", "in", "out"], FileNode.directory),
    (["w", "in", "out", "A.class"], FileNode.file (tinyBytes 66 32)),
    (["w", "rules"], FileNode.file ("public A".toList.flatMap String.utf8EncodeChar))]

/-- The arguments of a run whose output directory lies in its input directory. -/
def overlapArguments : List String := ["in", "--rules=rules", "--output=in/out"]

/-- What these arguments ask for. -/
def overlapOptions : Options := ⟨[⟨"rules"⟩], some ⟨"in/out"⟩, false, ⟨"in"⟩⟩

/-- What is left of the run. -/
def overlapLeft : Session :=
  ((execute overlapArguments : StateM Session Ending).run (.start overlapTree)).2

/-- The run succeeds, and both results are made of the first class. -/
theorem ran_overlap :
    overlapTree.WellFormed ∧ Request.ofArguments overlapArguments = .ok (.run overlapOptions) ∧
      (execute overlapArguments : StateM Session Ending).run (.start overlapTree) =
        (⟨0, []⟩, overlapLeft) ∧
      overlapLeft.tree.file? ["w", "in", "out", "A.class"] = some (tinyBytes 65 33) ∧
      overlapLeft.tree.file? ["w", "in", "out", "out", "A.class"] = some (tinyBytes 65 33) := by
  obtain ⟨ended, first, second⟩ :
      ((execute overlapArguments : StateM Session Ending).run (.start overlapTree)).1 = ⟨0, []⟩ ∧
        overlapLeft.tree.file? ["w", "in", "out", "A.class"] = some (tinyBytes 65 33) ∧
        overlapLeft.tree.file? ["w", "in", "out", "out", "A.class"] = some (tinyBytes 65 33) := by
    decide +kernel
  exact ⟨by decide +kernel, by decide +kernel, Prod.ext ended rfl, first, second⟩

/-- The result for the first class goes where the second one is read from. -/
theorem execute_output_overlap :
    overlapTree.WellFormed ∧ Request.ofArguments overlapArguments = .ok (.run overlapOptions) ∧
      overlapOptions.output = some ⟨"in/out"⟩ ∧ overlapOptions.dryRun = false ∧
      (execute overlapArguments : StateM Session Ending).run (.start overlapTree) =
        (⟨0, []⟩, overlapLeft) ∧
      overlapLeft.tree.file? ["w", "in", "out", "A.class"] = some (tinyBytes 65 33) ∧
      overlapLeft.tree.file? ["w", "in", "out", "out", "A.class"] = some (tinyBytes 65 33) ∧
      ∃ rules works, Delivered overlapTree overlapOptions ⟨"in/out"⟩ rules works overlapLeft := by
  obtain ⟨wellFormed, asked, ran, first, second⟩ := ran_overlap
  exact ⟨wellFormed, asked, rfl, rfl, ran, first, second,
    execute_output wellFormed asked rfl rfl ran⟩

/-- Not every result is made of what the file of its class held at the start. -/
theorem not_made_from_start :
    ¬∀ (tree : FileTree) (arguments : List String) (options : Options) (output : Path)
        (rules : RuleSet) (jobs : List Job) (left : Session), tree.WellFormed →
      Request.ofArguments arguments = .ok (.run options) → options.output = some output →
      options.dryRun = false →
      (execute arguments : StateM Session Ending).run (.start tree) = (⟨0, []⟩, left) →
      RuleSet.ofFilesOnto tree .empty options.rules = .ok rules →
      jobsIn tree options = .ok jobs →
      ∀ job ∈ jobs, ∀ bytes made, tree.read job.source = .ok bytes →
        (transform rules bytes).1 = .ok made →
        left.tree.file? (tree.destination job.target) = some made.bytes := by
  intro fromStart
  obtain ⟨wellFormed, asked, ran, -, second⟩ := ran_overlap
  have alone : ((RuleSet.ofFilesOnto overlapTree .empty overlapOptions.rules).map fun rules =>
      (transform rules (tinyBytes 66 32)).1) =
        .ok (.ok ⟨tinyBytes 66 32, ⟨"B", 0, [], []⟩⟩) := by decide +kernel
  obtain ⟨rules, loaded, transformed⟩ := map_eq_ok_iff.mp alone
  have collected : jobsIn overlapTree overlapOptions =
      .ok [⟨⟨"in/A.class"⟩, ⟨"in/out/A.class"⟩⟩, ⟨⟨"in/out/A.class"⟩, ⟨"in/out/out/A.class"⟩⟩] := by
    decide +kernel
  have read : overlapTree.read ⟨"in/out/A.class"⟩ = .ok (tinyBytes 66 32) := by decide +kernel
  have place : overlapTree.destination ⟨"in/out/out/A.class"⟩ =
      ["w", "in", "out", "out", "A.class"] := by decide +kernel
  have stored := fromStart overlapTree overlapArguments overlapOptions ⟨"in/out"⟩ rules _
    overlapLeft wellFormed asked rfl rfl ran loaded collected
    ⟨⟨"in/out/A.class"⟩, ⟨"in/out/out/A.class"⟩⟩ (by simp) _ _ read transformed
  rw [place, second] at stored
  cases stored

end ClassAccess.Command
