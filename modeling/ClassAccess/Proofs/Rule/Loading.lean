import ClassAccess.Proofs.Files.Session
import ClassAccess.Rule.Load

/-!
# Loading rule files on a session

The rule set that is loaded depends on the files alone, and loading changes none of
them.
-/

namespace ClassAccess.RuleSet

variable {σ : Type} [FileSystem σ]

/-- What a rule file comes to. -/
def ofFile (tree : σ) (path : Path) : Except LoadError RuleSet :=
  match FileSystem.read tree path with
  | .error fault => .error (.file fault)
  | .ok bytes => (ofBytes path.text bytes).mapError .text

/-- What several rule files come to, merged onto a rule set one after the other. -/
def ofFilesOnto (tree : σ) (rules : RuleSet) (paths : List Path) :
    Except LoadError RuleSet :=
  paths.foldlM (fun rules path => (ofFile tree path).map rules.merge) rules

variable {rules : RuleSet} {paths : List Path}

/-- A rule file is loaded from the files of the session, without warnings. -/
theorem run_loadFile (path : Path) (session : SessionOn σ) :
    ∃ entries : List Log.Entry, (∀ entry ∈ entries, entry.level ≠ .warn) ∧
      (loadFile path : ExceptT LoadError (StateM (SessionOn σ)) RuleSet).run.run session =
        (ofFile session.tree path, session.logged entries) := by
  rw [loadFile, run_lift_bind, SessionOn.run_readFile, ofFile]
  dsimp only
  cases FileSystem.read session.tree path with
  | error fault => exact ⟨[], List.forall_mem_nil _, by rw [SessionOn.logged_nil]; rfl⟩
  | ok bytes =>
      dsimp only
      cases ofBytes path.text bytes with
      | error error => exact ⟨[], List.forall_mem_nil _, by rw [SessionOn.logged_nil]; rfl⟩
      | ok rules => exact ⟨[⟨.debug, loadedMessage rules path⟩], by simp, rfl⟩

/-- Rule files are loaded from the files of the session, without warnings. -/
theorem run_loadFiles (paths : List Path) (session : SessionOn σ) :
    ∃ entries : List Log.Entry, (∀ entry ∈ entries, entry.level ≠ .warn) ∧
      (loadFiles paths : ExceptT LoadError (StateM (SessionOn σ)) RuleSet).run.run session =
        (ofFilesOnto session.tree empty paths, session.logged entries) := by
  rw [loadFiles]
  generalize empty = rules
  induction paths generalizing rules session with
  | nil => exact ⟨[], List.forall_mem_nil _, by rw [SessionOn.logged_nil]; rfl⟩
  | cons path later ih =>
      obtain ⟨entries, calm, ran⟩ := run_loadFile path session
      rw [List.foldlM_cons, run_bind, run_bind, ran, ofFilesOnto, List.foldlM_cons]
      cases ofFile session.tree path with
      | error error => exact ⟨entries, calm, rfl⟩
      | ok more =>
          obtain ⟨others, calmLater, ranLater⟩ := ih (session.logged entries) (rules.merge more)
          refine ⟨entries ++ others, List.forall_mem_append.mpr ⟨calm, calmLater⟩, ?_⟩
          rw [← SessionOn.logged_logged]
          exact ranLater

end ClassAccess.RuleSet
