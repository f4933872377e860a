import ClassAccess.Proofs.Command.InPlace
import ClassAccess.Proofs.Rule.Overriding
import ClassAccess.Proofs.Text.Order
import ClassAccess.Proofs.Transform.FollowsRules
import ClassAccess.Proofs.Transform.Independence
import Mathlib.Data.List.Sort

/-!
# Owners without a class

A run ends with a report about each owner of directives for which it found no class.
A class is found in two ways: its own class file is among those that were transformed,
or one of them has an entry for it as a nested class and the rules have a directive
for the class itself. `Unused` says that neither was the case, and
`execute_reportsUnused` that a run that succeeds reports exactly these owners, each
once and in the order of their bytes.

`Unused` asks which rules and classes there are and not in which order they come.
Hence the reports of two runs are the same when they load the same rule files and
find the same classes, each in any order, and owners may be gone through in any order.
-/

namespace ClassAccess

open ClassFile Transform Text

/-- Whether an owner has a directive for the class itself. -/
def RuleSet.HasClassDirective (rules : RuleSet) (owner : String) : Prop :=
  ∃ directive ∈ rules.directivesFor owner, directive.target = .classItself

/-- A directive applies to a nested class exactly when there is one for the class itself. -/
theorem RuleSet.isSome_find?_class_iff {rules : RuleSet} {owner name : String} :
    (rules.find? owner ⟨.classItself, name, none⟩).isSome = true ↔
      rules.HasClassDirective owner := by
  rw [Option.isSome_iff_ne_none, Ne, find?_eq_lastPrecise?, lastPrecise?_eq_none_iff,
    ← filter_selects, List.filter_eq_nil_iff]
  simp only [selects_class_iff, not_forall, not_not, exists_prop, HasClassDirective]

/-- Some bytes are the class file of a class with this name. -/
def IsClassOf (bytes : List UInt8) (name : String) : Prop :=
  ∃ file, parse bytes = .ok file ∧ file.name = .ok name

/-- Some bytes are a class file with an entry for a nested class with this name. -/
def HasEntryFor (bytes : List UInt8) (name : String) : Prop :=
  ∃ file, parse bytes = .ok file ∧
    ∃ entry ∈ file.nestedEntries, file.constants.className entry.self = .ok name

/-- A transformation sees the class itself, and the nested classes that have a directive. -/
theorem Transform.seen_iff {rules : RuleSet} {bytes : List UInt8} {made : Transformed}
    (succeeded : (transform rules bytes).1 = .ok made) (owner : String) :
    owner ∈ made.outcome.owner :: made.outcome.nested ↔
      IsClassOf bytes owner ∨ rules.HasClassDirective owner ∧ HasEntryFor bytes owner := by
  obtain ⟨file, name, calls, parsed, named, resolved, -, outcome⟩ :=
    transform_eq_ok_iff.mp succeeded
  obtain ⟨names, ofEntries, reported⟩ := nested_of_calls rules resolved
  have header : made.outcome.owner = name := by rw [outcome]; rfl
  have nested : made.outcome.nested =
      names.filter fun name => (rules.find? name ⟨.classItself, name, none⟩).isSome := by
    rw [outcome, nested_outcomeFor, reported]
  have ofFile : IsClassOf bytes owner ↔ owner = name := by
    simp only [IsClassOf, parsed, Except.ok.injEq, exists_eq_left', named, eq_comm]
  have ofEntry : HasEntryFor bytes owner ↔ owner ∈ names := by
    simp only [HasEntryFor, parsed, Except.ok.injEq, exists_eq_left', mem_of_mapM_eq_ok ofEntries]
  rw [List.mem_cons, header, nested, List.mem_filter, RuleSet.isSome_find?_class_iff, ofFile, ofEntry,
    and_comm (a := owner ∈ names)]

namespace Command

variable {options : Options} {tree : FileTree} {rules : RuleSet} {works : List Work}
  {tally : Tally} {session left : Session} {owner : String}

/-- An owner of directives for which there is no class: none of the class files is that of the class,
and none has an entry for it, if the rules have a directive for the class itself. -/
structure Unused (rules : RuleSet) (classes : List (List UInt8)) (owner : String) : Prop where
  owned : owner ∈ rules.owners
  unnamed : ∀ bytes ∈ classes, ¬ IsClassOf bytes owner
  unmatched : ¬ (rules.HasClassDirective owner ∧ ∃ bytes ∈ classes, HasEntryFor bytes owner)

/-- A tally remembers what was seen in any of the classes. -/
theorem mem_seenOwners_tallyAfter : owner ∈ (tallyAfter works tally).seenOwners ↔
    owner ∈ tally.seenOwners ∨
      ∃ work ∈ works, owner ∈ work.made.outcome.owner :: work.made.outcome.nested := by
  induction works generalizing tally with
  | nil => simp [tallyAfter]
  | cons work behind ih =>
      change owner ∈ (tallyAfter behind (tally.add work.made.outcome)).seenOwners ↔ _
      rw [ih, Tally.add, List.mem_append, List.exists_mem_cons_iff]
      tauto

/-- Behind classes that were transformed, the owners that remain are those without a class. -/
theorem mem_unusedOwners_iff
    (transformed : ∀ work ∈ works, (transform rules work.before).1 = .ok work.made) :
    owner ∈ unusedOwners rules (tallyAfter works ⟨[], 0⟩) ↔
      Unused rules (works.map Work.before) owner := by
  have seen : owner ∈ (tallyAfter works ⟨[], 0⟩).seenOwners ↔ ∃ work ∈ works,
      IsClassOf work.before owner ∨
        rules.HasClassDirective owner ∧ HasEntryFor work.before owner := by
    rw [mem_seenOwners_tallyAfter]
    simp only [List.not_mem_nil, false_or]
    refine exists_congr fun work => and_congr_right fun among => ?_
    exact seen_iff (transformed work among) owner
  rw [unusedOwners, List.mem_filter, Bool.not_eq_true', List.contains_eq_mem, decide_eq_false_iff_not,
    seen]
  constructor
  · rintro ⟨owned, unseen⟩
    refine ⟨owned, List.forall_mem_map.mpr fun work among named => ?_, ?_⟩
    · exact unseen ⟨work, among, .inl named⟩
    · rintro ⟨directed, bytes, processed, entry⟩
      obtain ⟨work, among, rfl⟩ := List.mem_map.mp processed
      exact unseen ⟨work, among, .inr ⟨directed, entry⟩⟩
  · rintro ⟨owned, unnamed, unmatched⟩
    refine ⟨owned, ?_⟩
    rintro ⟨work, among, named | ⟨directed, entry⟩⟩
    · exact unnamed _ (List.mem_map_of_mem among) named
    · exact unmatched ⟨directed, _, List.mem_map_of_mem among, entry⟩

/-- The owners that remain are in ascending order. -/
theorem pairwise_unusedOwners (rules : RuleSet) (tally : Tally) :
    (unusedOwners rules tally).Pairwise (· < ·) := by
  refine List.Pairwise.filter _ ?_
  exact (Std.ExtTreeMap.ordered_keys (t := rules.groups)).imp fun {first second} before =>
    compareOfLessAndEq_eq_lt.mp before

/-- Owners that are gone through in any order, and then sorted by their bytes, remain the same. -/
theorem sorted_eq_unusedOwners {iteration sorted : List String} (everyOwner : iteration.Perm rules.owners)
    (remaining : sorted.Perm (iteration.filter fun owner => !tally.seenOwners.contains owner))
    (ascending : sorted.Pairwise fun first second => toUtf8 first ≤ toUtf8 second) :
    sorted = unusedOwners rules tally := by
  have same : sorted.Perm (unusedOwners rules tally) := remaining.trans (everyOwner.filter _)
  refine same.eq_of_pairwise ?_ ascending ?_
  · intro first second _ _ before after
    exact toUtf8_injective (List.le_antisymm before after)
  · exact (pairwise_unusedOwners rules tally).imp fun {first second} before =>
      List.le_of_lt (toUtf8_lt before)

/-- A run of a loop over some classes, in the order in which they are given, with the rules of some
files, and with what is reported behind it. -/
structure Finished (options : Options) (tree : FileTree) (rules : RuleSet) (works : List Work)
    (left : Session) : Prop where
  loaded : RuleSet.ofFilesOnto tree .empty options.rules = .ok rules
  looped : ∃ opened middle, opened.tree = tree ∧ unusedReports opened = [] ∧
    Turns options rules works opened middle ∧
    left = middle.logged (closingEntries rules (works.map Work.job) (tallyAfter works ⟨[], 0⟩))

/-- A run that succeeds is one over the classes that it collects, in their order. -/
theorem exists_finished_of_run
    (ran : (run options : RunM (StateM Session) Unit).run.run (.start tree) = (.ok (), left)) :
    ∃ rules works, jobsIn tree options = .ok (works.map Work.job) ∧
      Finished options tree rules works left := by
  obtain ⟨entries, calm, succeeds⟩ := run_run_eq_ok_iff options (.start tree)
  obtain ⟨rules, jobs, tally, middle, loaded, collected, looped, rfl⟩ := (succeeds left).mp ran
  obtain ⟨works, rfl, turns, rfl⟩ := exists_turns_of_foldlM looped
  refine ⟨rules, works, collected, loaded, _, middle, rfl, ?_, turns, rfl⟩
  rw [unusedReports_logged, filter_isUnusedEntry_of_calm calm]
  rfl

/-- What a run reports behind its loop is about the owners that remain. -/
theorem Finished.reported (finished : Finished options tree rules works left) :
    unusedReports left = (unusedOwners rules (tallyAfter works ⟨[], 0⟩)).map unusedEntry := by
  obtain ⟨opened, middle, -, calm, turns, rfl⟩ := finished.looped
  rw [unusedReports_logged, turns.reported, calm, filter_closingEntries, List.nil_append]

/-- The classes of a run were transformed. -/
theorem Finished.transformed (finished : Finished options tree rules works left) :
    ∀ work ∈ works, (transform rules work.before).1 = .ok work.made := by
  obtain ⟨opened, middle, -, -, turns, -⟩ := finished.looped
  exact turns.transformed

/-- Owners without a class stay so when the rules hold the same directives and the classes are the
same. -/
theorem Unused.of_same {other : RuleSet} {classes others : List (List UInt8)}
    (sameRules : ∀ owner directive, directive ∈ rules.directivesFor owner ↔
      directive ∈ other.directivesFor owner)
    (sameClasses : ∀ bytes, bytes ∈ classes ↔ bytes ∈ others) (unused : Unused rules classes owner) :
    Unused other others owner where
  owned := by
    have owned := unused.owned
    rw [RuleSet.mem_owners_iff] at owned ⊢
    obtain ⟨directive, held⟩ := List.exists_mem_of_ne_nil _ owned
    exact List.ne_nil_of_mem ((sameRules owner directive).mp held)
  unnamed bytes among := unused.unnamed bytes ((sameClasses bytes).mpr among)
  unmatched := by
    rintro ⟨⟨directive, held, target⟩, bytes, among, entry⟩
    exact unused.unmatched ⟨⟨directive, (sameRules owner directive).mpr held, target⟩, bytes,
      (sameClasses bytes).mpr among, entry⟩

/-- Runs with the same rule files and the same classes leave the same owners, whatever the order of
either. -/
theorem Finished.unused_iff {again : Options} {rulesAgain : RuleSet} {worksAgain : List Work}
    {leftAgain : Session} (finished : Finished options tree rules works left)
    (finishedAgain : Finished again tree rulesAgain worksAgain leftAgain)
    (sameFiles : again.rules.Perm options.rules)
    (sameClasses : (worksAgain.map Work.before).Perm (works.map Work.before)) :
    Unused rulesAgain (worksAgain.map Work.before) owner ↔
      Unused rules (works.map Work.before) owner := by
  have sameRules : ∀ owner directive, directive ∈ rulesAgain.directivesFor owner ↔
      directive ∈ rules.directivesFor owner := by
    intro owner directive
    rw [RuleSet.mem_directivesFor_of_loaded finishedAgain.loaded,
      RuleSet.mem_directivesFor_of_loaded finished.loaded]
    simp only [sameFiles.mem_iff]
  constructor
  · exact Unused.of_same sameRules fun bytes => sameClasses.mem_iff
  · exact Unused.of_same (fun owner directive => (sameRules owner directive).symm)
      fun bytes => sameClasses.mem_iff.symm

/-- A run reports the owners without a class, each once and in the order of their bytes. It reports
them no matter in which order the owners are gone through, and so does every other run that loads the
same rule files and finds the same classes. -/
structure ReportsUnused (options : Options) (tree : FileTree) (rules : RuleSet) (works : List Work)
    (left : Session) : Prop where
  reported : ∃ owners : List String, unusedReports left = owners.map unusedEntry ∧
    owners.Pairwise (fun first second => toUtf8 first < toUtf8 second) ∧
    ∀ owner, owner ∈ owners ↔ Unused rules (works.map Work.before) owner
  anyIteration : ∀ iteration sorted : List String, iteration.Perm rules.owners →
    sorted.Perm (iteration.filter fun owner =>
      !(tallyAfter works ⟨[], 0⟩).seenOwners.contains owner) →
    sorted.Pairwise (fun first second => toUtf8 first ≤ toUtf8 second) →
    unusedReports left = sorted.map unusedEntry
  anyOrder : ∀ (again : Options) (rulesAgain : RuleSet) (worksAgain : List Work)
    (leftAgain : Session), Finished again tree rulesAgain worksAgain leftAgain →
    again.rules.Perm options.rules →
    (worksAgain.map Work.before).Perm (works.map Work.before) →
    unusedReports leftAgain = unusedReports left

/-- Every run over some classes reports the owners without one. -/
theorem Finished.reportsUnused (finished : Finished options tree rules works left) :
    ReportsUnused options tree rules works left where
  reported := ⟨unusedOwners rules (tallyAfter works ⟨[], 0⟩), finished.reported,
    (pairwise_unusedOwners _ _).imp toUtf8_lt, fun _ => mem_unusedOwners_iff finished.transformed⟩
  anyIteration iteration sorted everyOwner remaining ascending := by
    rw [finished.reported, sorted_eq_unusedOwners everyOwner remaining ascending]
  anyOrder again rulesAgain worksAgain leftAgain finishedAgain sameFiles sameClasses := by
    rw [finished.reported, finishedAgain.reported]
    refine congrArg _ ((pairwise_unusedOwners _ _).eq_of_mem_iff (pairwise_unusedOwners _ _) ?_)
    intro owner
    rw [mem_unusedOwners_iff finished.transformed, mem_unusedOwners_iff finishedAgain.transformed]
    exact finished.unused_iff finishedAgain sameFiles sameClasses

/-- A command that asks for a run and ends well has reported the owners without a class. -/
theorem execute_reportsUnused {arguments : List String}
    (asked : Request.ofArguments arguments = .ok (.run options))
    (ran : (execute arguments : StateM Session Ending).run (.start tree) = (⟨0, []⟩, left)) :
    ∃ rules works, jobsIn tree options = .ok (works.map Work.job) ∧
      Finished options tree rules works left ∧ ReportsUnused options tree rules works left := by
  obtain ⟨rules, works, collected, finished⟩ :=
    exists_finished_of_run ((run_execute_eq_iff asked).mp ran)
  exact ⟨rules, works, collected, finished, finished.reportsUnused⟩

/-- The run on the sample directory finds the class `A` and reports the owner `B`. -/
theorem execute_reportsUnused_sample :
    Request.ofArguments sampleArguments = .ok (.run sampleOptions) ∧
      (execute sampleArguments : StateM Session Ending).run (.start sampleTree) =
        (⟨0, []⟩, sampleLeft) ∧
      unusedReports sampleLeft = [unusedEntry "B"] ∧
      ∃ rules works, jobsIn sampleTree sampleOptions = .ok (works.map Work.job) ∧
        Finished sampleOptions sampleTree rules works sampleLeft ∧
        ReportsUnused sampleOptions sampleTree rules works sampleLeft := by
  have asked : Request.ofArguments sampleArguments = .ok (.run sampleOptions) := by decide +kernel
  obtain ⟨ended, reported⟩ :
      ((execute sampleArguments : StateM Session Ending).run (.start sampleTree)).1 = ⟨0, []⟩ ∧
        unusedReports sampleLeft = [unusedEntry "B"] := by decide +kernel
  have ran : (execute sampleArguments : StateM Session Ending).run (.start sampleTree) =
      (⟨0, []⟩, sampleLeft) := Prod.ext ended rfl
  exact ⟨asked, ran, reported, execute_reportsUnused asked ran⟩

end Command

end ClassAccess
