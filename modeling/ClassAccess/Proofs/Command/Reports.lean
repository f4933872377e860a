import ClassAccess.Command.Run
import ClassAccess.Proofs.Files.Session
import ClassAccess.Proofs.Transform.Log

/-!
# Reports about owners without a class

What a run reports at its end about owners for which it found no class, and how these
reports are told from everything else in a log.
-/

namespace ClassAccess.Command

/-- What the report about an owner without a class starts with. -/
def unusedText : String := "No class found for directives on '"

/-- The report about an owner without a class. -/
def unusedEntry (owner : String) : Log.Entry := ⟨.warn, unusedText ++ owner ++ "'"⟩

/-- The entries at the end of a run. -/
def closingEntries (rules : RuleSet) (jobs : List Job) (tally : Tally) : List Log.Entry :=
  (unusedOwners rules tally).map unusedEntry ++
    [⟨.info, "Changed " ++ toString tally.changedClasses ++ " of " ++ toString jobs.length ++
      " classes"⟩]

/-- Whether an entry of a log is a report about an owner without a class. -/
def isUnusedEntry (entry : Log.Entry) : Bool :=
  entry.level == .warn && unusedText.toList.isPrefixOf entry.text.toList

variable {σ : Type}

/-- The reports of a session about owners without a class. -/
def unusedReports (session : SessionOn σ) : List Log.Entry :=
  session.log.toList.filter isUnusedEntry

variable {session : SessionOn σ} {entries : List Log.Entry} {entry : Log.Entry}

/-- Reports are told from other entries. -/
theorem isUnusedEntry_unusedEntry (owner : String) : isUnusedEntry (unusedEntry owner) = true := by
  simp [isUnusedEntry, unusedEntry, List.append_assoc]

/-- Notices of transformations are no reports. -/
theorem isUnusedEntry_of_isNotice (notice : Transform.IsNotice entry) :
    isUnusedEntry entry = false := by
  rcases notice with debugging | quoted
  · rw [isUnusedEntry, debugging]
    rfl
  · obtain ⟨rest, text⟩ := List.head?_eq_some_iff.mp quoted
    rw [isUnusedEntry, text]
    exact Bool.and_false _

/-- Entries other than warnings are no reports. -/
theorem filter_isUnusedEntry_of_calm (calm : ∀ entry ∈ entries, entry.level ≠ .warn) :
    entries.filter isUnusedEntry = [] := by
  refine List.filter_eq_nil_iff.mpr fun entry among reported => calm entry among ?_
  exact beq_iff_eq.mp (Bool.and_eq_true_iff.mp reported).1

/-- The reports at the end of a run are about the unused owners. -/
theorem filter_closingEntries (rules : RuleSet) (jobs : List Job) (tally : Tally) :
    (closingEntries rules jobs tally).filter isUnusedEntry =
      (unusedOwners rules tally).map unusedEntry := by
  rw [closingEntries, List.filter_append, List.filter_eq_self.mpr]
  · exact List.append_nil _
  · intro entry among
    obtain ⟨owner, -, rfl⟩ := List.mem_map.mp among
    exact isUnusedEntry_unusedEntry owner

@[simp] theorem unusedReports_logged : unusedReports (session.logged entries) =
    unusedReports session ++ entries.filter isUnusedEntry := by
  rw [unusedReports, SessionOn.toList_log_logged, List.filter_append, unusedReports]

@[simp] theorem unusedReports_shown {text : String} :
    unusedReports (session.shown text) = unusedReports session := rfl

end ClassAccess.Command
