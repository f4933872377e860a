import ClassAccess.Files.Host
import ClassAccess.Proofs.Fallible

/-!
# Steps on sessions

What the single operations of a host come to when a step that may fail is carried out
on a session. Only writing files and making directories change the files; showing
something adds to the end of what was shown.
-/

namespace ClassAccess

variable {σ : Type}

namespace SessionOn

/-- A session with more entries in its log. -/
def logged (session : SessionOn σ) (entries : List Log.Entry) : SessionOn σ :=
  { session with log := session.log ++ entries }

/-- A session that has printed more. -/
def shown (session : SessionOn σ) (text : String) : SessionOn σ :=
  { session with printed := session.printed ++ text }

variable {session : SessionOn σ} {entries : List Log.Entry}

@[simp] theorem tree_logged : (session.logged entries).tree = session.tree := rfl

@[simp] theorem printed_logged : (session.logged entries).printed = session.printed := rfl

@[simp] theorem toList_log_logged :
    (session.logged entries).log.toList = session.log.toList ++ entries := by
  simp [logged]

@[simp] theorem tree_shown {text : String} : (session.shown text).tree = session.tree := rfl

@[simp] theorem log_shown {text : String} : (session.shown text).log = session.log := rfl

@[simp] theorem printed_shown {text : String} :
    (session.shown text).printed = session.printed ++ text := rfl

/-- Entries that follow one another are shown together. -/
theorem logged_logged {more : List Log.Entry} :
    (session.logged entries).logged more = session.logged (entries ++ more) := by
  have log : session.log ++ entries ++ more = session.log ++ (entries ++ more) := by
    simp [← Array.toList_inj]
  simp only [logged, log]

/-- Without entries nothing is shown. -/
theorem logged_nil : session.logged [] = session := by
  simp [logged]

/-- An operation goes on from what the one before it gives. -/
theorem run_bind {α β : Type} (first : StateM (SessionOn σ) α) (next : α → StateM (SessionOn σ) β)
    (session : SessionOn σ) :
    (first >>= next).run session = (next (first.run session).1).run (first.run session).2 := rfl

/-- An operation that changes the files does so unless it fails. -/
theorem run_change (operation : σ → Except FileFault σ) (session : SessionOn σ) :
    (change operation).run session =
      match operation session.tree with
      | .error fault => (.error fault, session)
      | .ok tree => (.ok (), { session with tree }) := by
  rw [change, StateT.run_bind, StateT.run_get, pure_bind]
  cases operation session.tree <;> rfl

variable [FileSystem σ]

/-- Whether a path leads to a regular file is asked of the files. -/
theorem run_isFile (path : Path) (session : SessionOn σ) :
    (Host.isFile path : StateM (SessionOn σ) Bool).run session =
      (FileSystem.isFile session.tree path, session) := rfl

/-- Whether a path leads to a directory is asked of the files. -/
theorem run_isDirectory (path : Path) (session : SessionOn σ) :
    (Host.isDirectory path : StateM (SessionOn σ) Bool).run session =
      (FileSystem.isDirectory session.tree path, session) := rfl

/-- A walk goes through the files. -/
theorem run_walk (path : Path) (session : SessionOn σ) :
    (Host.walk path : StateM (SessionOn σ) (Except WalkFault (List Location))).run session =
      (FileSystem.walk session.tree path, session) := rfl

/-- The bytes of a file are those among the files. -/
theorem run_readFile (path : Path) (session : SessionOn σ) :
    (Host.readFile path : StateM (SessionOn σ) (Except FileFault (List UInt8))).run session =
      (FileSystem.read session.tree path, session) := rfl

/-- A directory is made among the files unless that fails. -/
theorem run_createDirectory (path : Path) (session : SessionOn σ) :
    (Host.createDirectory path : StateM (SessionOn σ) (Except FileFault Unit)).run session =
      match FileSystem.createDirectory session.tree path with
      | .error fault => (.error fault, session)
      | .ok tree => (.ok (), { session with tree }) := run_change _ session

/-- A file is written among the files unless that fails. -/
theorem run_writeFile (path : Path) (bytes : List UInt8) (session : SessionOn σ) :
    (Host.writeFile path bytes : StateM (SessionOn σ) (Except FileFault Unit)).run session =
      match FileSystem.write session.tree path bytes with
      | .error fault => (.error fault, session)
      | .ok tree => (.ok (), { session with tree }) := run_change _ session

end SessionOn

variable {ε α β : Type}

/-- An operation that cannot fail is carried out, and the step goes on with what it gives. -/
theorem run_lift_bind (operation : StateM (SessionOn σ) α)
    (next : α → ExceptT ε (StateM (SessionOn σ)) β) (session : SessionOn σ) :
    (ExceptT.lift operation >>= next).run.run session =
      (next (operation.run session).1).run.run (operation.run session).2 := rfl

variable [FileSystem σ]

/-- Reporting something of each item of a list shows the entries in order. -/
theorem run_report {γ : Type} (entry : γ → Log.Entry) (items : List γ)
    (session : SessionOn σ) :
    (forIn items PUnit.unit fun item _ => do
      ExceptT.lift (Host.report (entry item))
      pure (ForInStep.yield PUnit.unit) : ExceptT ε (StateM (SessionOn σ)) PUnit).run.run session =
        (.ok ⟨⟩, session.logged (items.map entry)) := by
  induction items generalizing session with
  | nil =>
      rw [List.map_nil, SessionOn.logged_nil]
      rfl
  | cons item later ih =>
      have tail := ih (session.logged [entry item])
      rw [SessionOn.logged_logged, List.singleton_append, ← List.map_cons] at tail
      rw [← tail, List.forIn_cons]
      rfl

end ClassAccess
