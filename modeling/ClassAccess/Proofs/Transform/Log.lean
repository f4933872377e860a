import ClassAccess.Proofs.Transform.Decisions

/-!
# What a transformation logs

A transformation logs changes and warnings. The warnings start with the directive that
they are about, and everything else is for debugging.
-/

namespace ClassAccess

open ClassFile

namespace Transform

variable {context : Context} {entry : Log.Entry}

/-- An entry for debugging, or a warning that starts with a quotation mark. -/
def IsNotice (entry : Log.Entry) : Prop :=
  entry.level = .debug ∨ entry.text.toList.head? = some '\''

/-- A warning quotes the directive first. -/
theorem head?_of_warningFor {subject : Subject} {warning : String}
    (warned : warningFor context subject = some warning) : warning.toList.head? = some '\'' := by
  obtain ⟨directive, -, about⟩ := Option.bind_eq_some_iff.mp warned
  have ofHeader : (headerWarning directive).toList.head? = some '\'' := by
    simp [headerWarning]
  have ofMember : (interfaceWarning context.owner directive).toList.head? = some '\'' := by
    simp [interfaceWarning]
  cases subject with
  | header name =>
      rw [warningAbout, Option.ite_none_right_eq_some] at about
      exact Option.some.inj about.2 ▸ ofHeader
  | field name descriptor =>
      rw [warningAbout, Option.ite_none_right_eq_some] at about
      exact Option.some.inj about.2 ▸ ofMember
  | method name descriptor =>
      rw [warningAbout, Option.ite_none_right_eq_some] at about
      exact Option.some.inj about.2 ▸ ofMember
  | nested name => cases about

/-- What a call adds to the log is a notice. -/
theorem isNotice_of_mem_advance {progress : Progress} {call : Call}
    (among : entry ∈ (advance context progress call).log) :
    IsNotice entry ∨ entry ∈ progress.log := by
  rcases List.mem_append.mp among with changed | earlier
  · obtain ⟨message, -, rfl⟩ := Option.map_eq_some_iff.mp (Option.mem_toList.mp changed)
    exact .inl (.inl rfl)
  · rcases List.mem_append.mp earlier with warned | before
    · obtain ⟨warning, due, rfl⟩ := Option.map_eq_some_iff.mp (Option.mem_toList.mp warned)
      exact .inl (.inr (head?_of_warningFor due))
    · exact .inr before

/-- What a walk logs are notices. -/
theorem isNotice_of_mem_foldl_advance {calls : List Call} {progress : Progress}
    (among : entry ∈ (calls.foldl (advance context) progress).log) :
    IsNotice entry ∨ entry ∈ progress.log := by
  induction calls generalizing progress with
  | nil => exact .inr among
  | cons call later ih =>
      rcases ih among with notice | earlier
      · exact .inl notice
      · exact isNotice_of_mem_advance earlier

/-- What a finished walk logs are notices. -/
theorem isNotice_of_mem_logOf {calls : List Call}
    (among : entry ∈ logOf context (calls.foldl (advance context) .start)) : IsNotice entry := by
  rcases List.mem_append.mp among with walked | total
  · rcases isNotice_of_mem_foldl_advance (List.mem_reverse.mp walked) with notice | before
    · exact notice
    · cases before
  · split at total
    · cases total
    · exact .inl (List.mem_singleton.mp total ▸ rfl)

end Transform

open Transform

/-- What a transformation that succeeds logs is the log of the walk of its calls. -/
theorem log_transform_of_calls {rules : RuleSet} {bytes : List UInt8} {file : ClassFile}
    {owner : String} {calls : PerPlace Call} (parsed : parse bytes = .ok file)
    (named : file.name = .ok owner) (resolved : file.calls = .ok calls) :
    (transform rules bytes).2 = logOf (contextOf rules owner file)
      (calls.toList.foldl (advance (contextOf rules owner file)) .start) := by
  have started := start_eq_ok_iff.mpr ⟨parsed, owner, named, Eq.refl (contextOf rules owner file)⟩
  rw [transform, started]
  simp only [run_accept_visitor resolved]

/-- What a transformation that succeeds logs are notices. -/
theorem isNotice_of_mem_transform {rules : RuleSet} {bytes : List UInt8} {made : Transformed}
    {entry : Log.Entry} (succeeded : (transform rules bytes).1 = .ok made)
    (among : entry ∈ (transform rules bytes).2) : IsNotice entry := by
  obtain ⟨file, owner, calls, parsed, named, resolved, -⟩ := transform_eq_ok_iff.mp succeeded
  rw [log_transform_of_calls parsed named resolved] at among
  exact isNotice_of_mem_logOf among

end ClassAccess
