import ClassAccess.Proofs.Transform.Log

/-!
# What a transformation reports

A transformation warns about directives that a virtual machine may reject, and
logs each warning and each changed word where it comes to it. `Warns` and
`Changes` say when something is reported about one access word. `Reported` puts
this together for a walk: its warnings, the number of changed words and its log
are three views of the same places, in their order.

A transformation that fails has no outcome, and its log is not described here.
-/

namespace ClassAccess

open ClassFile

namespace Transform

/-- When a warning is due, and how it reads: for a header whose class directive is for nested
classes only, and for a member of an interface whose directive is not public. -/
inductive Warns (rules : RuleSet) (owner : String) (file : ClassFile) :
    Subject → String → Prop where
  | header {name : String} {directive : Directive}
      (found : rules.find? name ⟨.classItself, name, none⟩ = some directive)
      (forNested : directive.access = .protectedAccess ∨ directive.access = .privateAccess) :
      Warns rules owner file (.header name) (headerWarning directive)
  | field {name descriptor : String} {directive : Directive} (ofInterface : file.isInterface = true)
      (found : rules.find? owner ⟨.field, name, none⟩ = some directive)
      (nonPublic : directive.access ≠ .publicAccess) :
      Warns rules owner file (.field name descriptor) (interfaceWarning owner directive)
  | method {name descriptor : String} {directive : Directive}
      (ofInterface : file.isInterface = true)
      (found : rules.find? owner ⟨.method, name, some descriptor⟩ = some directive)
      (nonPublic : directive.access ≠ .publicAccess) :
      Warns rules owner file (.method name descriptor) (interfaceWarning owner directive)

/-- When a change is reported, and how it reads: for a word that its directive makes another. -/
inductive Changes (rules : RuleSet) (owner : String) (call : Call) : String → Prop where
  | change {directive : Directive}
      (found : directiveFor rules owner call.subject = some directive)
      (differs : directive.rewrite call.word ≠ call.word) :
      Changes rules owner call
        (changeMessage owner directive call.word (directive.rewrite call.word))

/-- The warnings of a walk over some calls, the number of words that it changes, and its log. The
warning about a place is logged before the change. -/
inductive Reported (rules : RuleSet) (owner : String) (file : ClassFile) :
    List Call → List String → Nat → List Log.Entry → Prop where
  | nothing : Reported rules owner file [] [] 0 []
  | call {call : Call} {warning change : Option String} {calls : List Call}
      {warnings : List String} {changes : Nat} {log : List Log.Entry}
      (warned : ∀ text, warning = some text ↔ Warns rules owner file call.subject text)
      (changed : ∀ text, change = some text ↔ Changes rules owner call text)
      (later : Reported rules owner file calls warnings changes log) :
      Reported rules owner file (call :: calls) (warning.toList ++ warnings)
        (change.toList.length + changes)
        ((warning.map (Log.Entry.mk .warn)).toList ++
          ((change.map (Log.Entry.mk .debug)).toList ++ log))

/-- The reports of a transformation. What is logged during the walk comes first, and then the total
if there is a change. -/
structure Diagnosed (rules : RuleSet) (bytes : List UInt8) (made : Transformed)
    (log : List Log.Entry) (owner : String) (file : ClassFile) (calls : PerPlace Call)
    (walked : List Log.Entry) : Prop where
  parsed : parse bytes = .ok file
  named : file.name = .ok owner
  inOrder : file.calls = .ok calls
  reported :
    Reported rules owner file calls.toList made.outcome.warnings made.outcome.changed walked
  warningsLogged : (walked.filter (·.level = .warn)).map (·.text) = made.outcome.warnings
  changesLogged : walked.countP (·.level = .debug) = made.outcome.changed
  closed : log = walked ++ if made.outcome.changed = 0 then []
    else [⟨.debug, totalMessage owner made.outcome.changed⟩]

section Reports

variable {rules : RuleSet} {owner : String} {file : ClassFile} {calls : List Call}
  {warnings : List String} {changes : Nat} {log : List Log.Entry}

/-- The warning that is given at a place is the one that is due. -/
theorem warningFor_eq_some_iff {subject : Subject} {text : String} :
    warningFor (contextOf rules owner file) subject = some text ↔
      Warns rules owner file subject text := by
  rw [warningFor, Option.bind_eq_some_iff]
  constructor
  · rintro ⟨directive, found, about⟩
    cases subject with
    | header name =>
        obtain ⟨forNested, same⟩ := Option.ite_none_right_eq_some.mp about
        cases same
        exact .header found (by simpa [isForNestedOnly] using forNested)
    | field name descriptor =>
        obtain ⟨deserved, same⟩ := Option.ite_none_right_eq_some.mp about
        cases same
        simp only [Bool.and_eq_true, decide_eq_true_eq] at deserved
        exact .field deserved.1 found deserved.2
    | method name descriptor =>
        obtain ⟨deserved, same⟩ := Option.ite_none_right_eq_some.mp about
        cases same
        simp only [Bool.and_eq_true, decide_eq_true_eq] at deserved
        exact .method deserved.1 found deserved.2
    | nested name => cases about
  · intro warns
    cases warns with
    | @header name directive found forNested =>
        refine ⟨directive, found, if_pos ?_⟩
        simpa [isForNestedOnly] using forNested
    | @field name descriptor directive ofInterface found nonPublic =>
        refine ⟨directive, found, if_pos ?_⟩
        simpa using ⟨ofInterface, nonPublic⟩
    | @method name descriptor directive ofInterface found nonPublic =>
        refine ⟨directive, found, if_pos ?_⟩
        simpa using ⟨ofInterface, nonPublic⟩

/-- The change that is reported at a place is the one that is made there. -/
theorem changeBy_eq_some_iff {call : Call} {text : String} :
    changeBy owner (directiveFor rules owner call.subject) call.word = some text ↔
      Changes rules owner call text := by
  constructor
  · intro reported
    cases found : directiveFor rules owner call.subject with
    | none =>
        rw [found] at reported
        cases reported
    | some directive =>
        rw [found] at reported
        obtain ⟨differs, same⟩ := Option.ite_none_left_eq_some.mp reported
        cases same
        exact .change found differs
  · rintro ⟨found, differs⟩
    rw [found]
    exact if_neg differs

/-- A word is counted when its change is reported. -/
theorem length_changeBy (directive : Option Directive) (word : UInt16) :
    (changeBy owner directive word).toList.length =
      if ruled directive word = word then 0 else 1 := by
  cases directive with
  | none => simp [changeBy, ruled]
  | some directive =>
      by_cases same : directive.rewrite word = word <;> simp [changeBy, ruled, same]

/-- What a walk adds to its progress is what is reported about its calls. -/
theorem exists_reported (rules : RuleSet) (owner : String) (file : ClassFile) (calls : List Call)
    (progress : Progress) :
    ∃ warnings changes log, Reported rules owner file calls warnings changes log ∧
      (calls.foldl (advance (contextOf rules owner file)) progress).warnings =
        warnings.reverse ++ progress.warnings ∧
      (calls.foldl (advance (contextOf rules owner file)) progress).changed =
        progress.changed + changes ∧
      (calls.foldl (advance (contextOf rules owner file)) progress).log =
        log.reverse ++ progress.log := by
  induction calls generalizing progress with
  | nil => exact ⟨[], 0, [], .nothing, rfl, rfl, rfl⟩
  | cons call later ih =>
      obtain ⟨warnings, changes, log, reported, ofWarnings, ofChanges, ofLog⟩ :=
        ih (advance (contextOf rules owner file) progress call)
      -- A progress has its lists with the last first, and so the new part in front.
      refine ⟨_, _, _, .call (fun _ => warningFor_eq_some_iff) (fun _ => changeBy_eq_some_iff)
        reported, ?_, ?_, ?_⟩
      · rw [List.foldl_cons, ofWarnings]
        change _ ++ ((warningFor (contextOf rules owner file) call.subject).toList ++ _) = _
        cases warningFor (contextOf rules owner file) call.subject <;> simp
      · rw [List.foldl_cons, ofChanges, length_changeBy, ← Nat.add_assoc]
        rfl
      · rw [List.foldl_cons, ofLog]
        change _ ++
          (((changeBy owner (directiveFor rules owner call.subject) call.word).map _).toList ++
          (((warningFor (contextOf rules owner file) call.subject).map _).toList ++ _)) = _
        cases warningFor (contextOf rules owner file) call.subject <;>
          cases changeBy owner (directiveFor rules owner call.subject) call.word <;> simp

/-- The warnings of a walk are what it logs as warnings, in order. -/
theorem Reported.warnings_eq (reported : Reported rules owner file calls warnings changes log) :
    (log.filter (·.level = .warn)).map (·.text) = warnings := by
  induction reported with
  | nothing => rfl
  | @call _ warning change _ _ _ _ _ _ _ ih =>
      cases warning <;> cases change <;> simp [ih]

/-- Each changed word is logged once for debugging. -/
theorem Reported.changes_eq (reported : Reported rules owner file calls warnings changes log) :
    log.countP (·.level = .debug) = changes := by
  induction reported with
  | nothing => rfl
  | @call _ warning change _ _ _ _ _ _ _ ih =>
      cases warning <;> cases change <;> simp [ih, Nat.add_comm]

end Reports

end Transform

open Transform

/-- A transformation that succeeds warns where a warning is due, and logs its warnings and changes
place by place, with a total at the end if there is any change. -/
theorem transform_diagnosed {rules : RuleSet} {bytes : List UInt8} {made : Transformed}
    (succeeded : (transform rules bytes).1 = .ok made) :
    ∃ owner file calls walked,
      Diagnosed rules bytes made (transform rules bytes).2 owner file calls walked := by
  obtain ⟨file, owner, calls, parsed, named, resolved, -, outcome⟩ :=
    transform_eq_ok_iff.mp succeeded
  obtain ⟨warnings, changes, walked, reported, ofWarnings, ofChanges, ofLog⟩ :=
    exists_reported rules owner file calls.toList .start
  replace ofChanges := ofChanges.trans (Nat.zero_add changes)
  have sameWarnings : made.outcome.warnings = warnings := by
    rw [outcome]
    change (calls.toList.foldl _ Progress.start).warnings.reverse = warnings
    rw [ofWarnings, List.reverse_append, List.reverse_reverse]
    rfl
  have sameChanges : made.outcome.changed = changes := by
    rw [outcome]
    exact ofChanges
  refine ⟨owner, file, calls, walked, ?_⟩
  exact {
    parsed := parsed
    named := named
    inOrder := resolved
    reported := by rwa [sameWarnings, sameChanges]
    warningsLogged := by rw [sameWarnings, reported.warnings_eq]
    changesLogged := by rw [sameChanges, reported.changes_eq]
    closed := by
      rw [log_transform_of_calls parsed named resolved, logOf, ofChanges, ofLog, sameChanges,
        List.reverse_append, List.reverse_reverse]
      rfl }

namespace Transform

/-- The class file `sample`, marked as an interface. -/
def interfaceSample : ClassFile := { sample with access := 0x8220 }

/-- Rules that make the class of `sample` and its fields private, as the fields are already. -/
def interfaceRules : RuleSet :=
  .ofList [⟨.privateAccess, [], ⟨"A", fault?_sampleName⟩, .classItself⟩,
    ⟨.privateAccess, [], ⟨"A", fault?_sampleName⟩, .field .every⟩]

/-- What these rules make of the interface: only the word of the header changes. -/
def interfaceMade : Transformed where
  bytes := toBytes { sample with access := 0x8222 }
  outcome := {
    owner := "A"
    changed := 1
    nested := ["A"]
    warnings := [
      "'private A': class headers can only be public or package-private, private is only " ++
        "meaningful on the InnerClasses entry of a nested class",
      "'private A *' makes a member of interface A private, which the JVM will reject"] }

end Transform

/-- A field of an interface is warned about although its word stays, and the nested class is not. -/
theorem transform_diagnosed_interface :
    (transform interfaceRules interfaceSample.toBytes).1 = .ok interfaceMade ∧
      ((transform interfaceRules interfaceSample.toBytes).2.map (·.level) =
        [.warn, .debug, .warn, .debug]) ∧
      ∃ owner file calls walked, Diagnosed interfaceRules interfaceSample.toBytes interfaceMade
        (transform interfaceRules interfaceSample.toBytes).2 owner file calls walked := by
  have succeeded : (transform interfaceRules interfaceSample.toBytes).1 = .ok interfaceMade := by
    decide +kernel
  exact ⟨succeeded, by decide +kernel, transform_diagnosed succeeded⟩

end ClassAccess
