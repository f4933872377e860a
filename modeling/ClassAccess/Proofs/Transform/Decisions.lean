import ClassAccess.Proofs.Rule.Rewriting
import ClassAccess.Proofs.Walk.Accept
import ClassAccess.Proofs.Walk.Rewritten
import ClassAccess.Transform

/-!
# What a transformation decides

The word that rules make of an access word depends on the rules and on what the
word belongs to, never on what was decided before. `run_answer` says this of a
single call, and also what the call adds to the progress. `transform_eq_ok_iff`
says it of a whole transformation: it is the walk of `calls` with every word
decided on its own.
-/

namespace ClassAccess

open ClassFile

namespace Transform

/-- The directive that rules have for what an access word belongs to. Members follow the rules
for their owner, the header and nested classes those for the class of that name. -/
def directiveFor (rules : RuleSet) (owner : String) : Subject → Option Directive
  | .header name => rules.find? name ⟨.classItself, name, none⟩
  | .field name _ => rules.find? owner ⟨.field, name, none⟩
  | .method name descriptor => rules.find? owner ⟨.method, name, some descriptor⟩
  | .nested name => rules.find? name ⟨.classItself, name, none⟩

/-- The word that a directive makes of an access word, which stays as it is without one. -/
def ruled (directive : Option Directive) (word : UInt16) : UInt16 :=
  match directive with
  | some directive => directive.rewrite word
  | none => word

/-- The word that is decided on for a call. -/
def decided (rules : RuleSet) (owner : String) (call : Call) : UInt16 :=
  ruled (directiveFor rules owner call.subject) call.word

/-- A decided word has the bits that directives cannot change. -/
theorem decided_and_not_reach (rules : RuleSet) (owner : String) (call : Call) :
    decided rules owner call &&& ~~~Directive.reach = call.word &&& ~~~Directive.reach := by
  rw [decided]
  cases directiveFor rules owner call.subject with
  | none => rfl
  | some directive => exact directive.rewrite_and_not_reach call.word

/-- The warning about a directive, depending on what it is applied to. -/
def warningAbout (context : Context) (subject : Subject) (directive : Directive) : Option String :=
  match subject with
  | .header _ =>
      if isForNestedOnly directive.access then some (headerWarning directive) else none
  | .field _ _ | .method _ _ =>
      if context.ofInterface && directive.access ≠ .publicAccess then
        some (interfaceWarning context.owner directive)
      else none
  | .nested _ => none

/-- The warning that a call causes. -/
def warningFor (context : Context) (subject : Subject) : Option String :=
  (directiveFor context.rules context.owner subject).bind (warningAbout context subject)

/-- The nested class that a call reports. -/
def nestedFor (rules : RuleSet) : Subject → Option String
  | .nested name =>
      if (rules.find? name ⟨.classItself, name, none⟩).isSome then some name else none
  | _ => none

/-- The message about the change that a directive makes to an access word, if it makes one. -/
def changeBy (owner : String) (directive : Option Directive) (word : UInt16) : Option String :=
  match directive with
  | some directive =>
      if directive.rewrite word = word then none
      else some (changeMessage owner directive word (directive.rewrite word))
  | none => none

/-- The progress after a directive was applied to an access word. -/
def advanceBy (context : Context) (directive : Option Directive) (word : UInt16)
    (progress : Progress) : Progress :=
  { progress with
    changed := progress.changed + if ruled directive word = word then 0 else 1
    log := ((changeBy context.owner directive word).map (Log.Entry.mk .debug)).toList
      ++ progress.log }

/-- The progress after a warning, if there is one. -/
def advanceWarning (warning : Option String) (progress : Progress) : Progress :=
  { progress with
    warnings := warning.toList ++ progress.warnings
    log := (warning.map (Log.Entry.mk .warn)).toList ++ progress.log }

/-- The progress after a call. -/
def advance (context : Context) (progress : Progress) (call : Call) : Progress :=
  let warned := advanceWarning (warningFor context call.subject) progress
  let reported :=
    { warned with nested := (nestedFor context.rules call.subject).toList ++ warned.nested }
  advanceBy context (directiveFor context.rules context.owner call.subject) call.word reported

/-- Applying a directive counts and reports a change, if there is one. -/
theorem run_apply (context : Context) (directive : Option Directive) (word : UInt16)
    (progress : Progress) :
    (apply context directive word).run progress =
      (ruled directive word, advanceBy context directive word progress) := by
  cases directive with
  | none =>
      simp [apply, ruled, advanceBy, changeBy]
      rfl
  | some directive =>
      by_cases same : directive.rewrite word = word
      · simp [apply, ruled, advanceBy, changeBy, same]
        rfl
      · simp [apply, ruled, advanceBy, changeBy, same, note]
        rfl

/-- Warning about a directive before it is applied does not change what it makes. -/
theorem run_warn_apply (context : Context) (directive : Option Directive)
    (deserved : Directive → Bool) (text : Directive → String) (word : UInt16)
    (progress : Progress) :
    StateT.run (m := Id) (do
        match directive with
        | some directive => if deserved directive then warn (text directive)
        | none => pure ()
        apply context directive word) progress =
      (ruled directive word, advanceBy context directive word
        (advanceWarning (directive.bind fun directive =>
          if deserved directive then some (text directive) else none) progress)) := by
  cases directive with
  | none => exact run_apply context none word progress
  | some directive =>
      cases due : deserved directive with
      | true =>
          simp only [Option.bind_some, due, if_true]
          exact run_apply context (some directive) word _
      | false =>
          simp only [Option.bind_some, due]
          exact run_apply context (some directive) word progress

/-- A visitor that applies rules answers a call with the word that is decided on. -/
theorem run_answer (context : Context) (call : Call) (progress : Progress) :
    ((visitor context).answer call).run progress =
      (decided context.rules context.owner call, advance context progress call) := by
  obtain ⟨subject, word⟩ := call
  cases subject with
  | header name =>
      exact run_warn_apply context (classDirective context.rules name)
        (fun directive => isForNestedOnly directive.access) headerWarning word progress
  | field name descriptor =>
      exact run_warn_apply context (context.rules.find? context.owner ⟨.field, name, none⟩)
        (fun directive => context.ofInterface && directive.access ≠ .publicAccess)
        (interfaceWarning context.owner) word progress
  | method name descriptor =>
      exact run_warn_apply context
        (context.rules.find? context.owner ⟨.method, name, some descriptor⟩)
        (fun directive => context.ofInterface && directive.access ≠ .publicAccess)
        (interfaceWarning context.owner) word progress
  | nested name =>
      change (visitNested context word name).run progress = _
      have sought : context.rules.find? name ⟨.classItself, name, none⟩ =
          classDirective context.rules name := rfl
      simp only [decided, advance, directiveFor, nestedFor, warningFor, visitNested, sought]
      cases classDirective context.rules name with
      | none => exact run_apply context none word progress
      | some directive =>
          exact run_apply context (some directive) word
            { progress with nested := name :: progress.nested }

/-- The context of a class file under some rules. -/
def contextOf (rules : RuleSet) (owner : String) (file : ClassFile) : Context where
  rules := rules
  owner := owner
  ofInterface := file.isInterface

/-- A walk counts the words that are decided to be others. -/
theorem changed_foldl_advance (context : Context) (calls : List Call) (progress : Progress) :
    (calls.foldl (advance context) progress).changed = progress.changed +
      calls.countP fun call => decided context.rules context.owner call ≠ call.word := by
  induction calls generalizing progress with
  | nil => rfl
  | cons call calls ih =>
      have counted : (advance context progress call).changed = progress.changed +
          if decided context.rules context.owner call = call.word then 0 else 1 := rfl
      rw [List.foldl_cons, ih, counted, List.countP_cons]
      by_cases same : decided context.rules context.owner call = call.word
      · simp [same]
      · simp [same]
        omega

/-- What each call of a walk adds in front of a list is gathered there, the last one first. -/
theorem gathered_foldl_advance (context : Context) (gathered : Progress → List String)
    {added : Call → Option String}
    (adds : ∀ progress call,
      gathered (advance context progress call) = (added call).toList ++ gathered progress)
    (calls : List Call) (progress : Progress) :
    gathered (calls.foldl (advance context) progress) =
      (calls.filterMap added).reverse ++ gathered progress := by
  induction calls generalizing progress with
  | nil => rfl
  | cons call calls ih =>
      rw [List.foldl_cons, ih, adds, List.filterMap_cons]
      cases added call with
      | none => rfl
      | some text => simp

/-- The outcome of a walk, in terms of its calls. -/
def outcomeFor (rules : RuleSet) (owner : String) (file : ClassFile) (calls : List Call) :
    Outcome :=
  outcomeOf (contextOf rules owner file) (calls.foldl (advance (contextOf rules owner file)) .start)

section Outcome

variable (rules : RuleSet) (owner : String) (file : ClassFile) (calls : List Call)

/-- The outcome counts the words that are decided to be others. -/
theorem changed_outcomeFor : (outcomeFor rules owner file calls).changed =
    calls.countP fun call => decided rules owner call ≠ call.word :=
  (changed_foldl_advance (contextOf rules owner file) calls .start).trans (Nat.zero_add _)

/-- The outcome reports nested classes in order. -/
theorem nested_outcomeFor : (outcomeFor rules owner file calls).nested =
    calls.filterMap fun call => nestedFor rules call.subject := by
  have reported := gathered_foldl_advance (contextOf rules owner file) Progress.nested
    (fun _ _ => rfl) calls .start
  change (calls.foldl (advance (contextOf rules owner file)) .start).nested.reverse = _
  rw [reported, List.reverse_append, List.reverse_reverse]
  rfl

/-- The outcome lists the warnings in order. -/
theorem warnings_outcomeFor : (outcomeFor rules owner file calls).warnings =
    calls.filterMap fun call => warningFor (contextOf rules owner file) call.subject := by
  have warned := gathered_foldl_advance (contextOf rules owner file) Progress.warnings
    (fun _ _ => rfl) calls .start
  change (calls.foldl (advance (contextOf rules owner file)) .start).warnings.reverse = _
  rw [warned, List.reverse_append, List.reverse_reverse]
  rfl

/-- The outcome is determined by what the calls are for and by the words decided on. -/
theorem outcomeFor_eq : outcomeFor rules owner file calls = {
    owner
    changed := calls.countP fun call => decided rules owner call ≠ call.word
    nested := calls.filterMap fun call => nestedFor rules call.subject
    warnings := calls.filterMap fun call =>
      warningFor (contextOf rules owner file) call.subject } := by
  rw [← changed_outcomeFor rules owner file, ← nested_outcomeFor rules owner file,
    ← warnings_outcomeFor]
  rfl

end Outcome

/-- A walk with the rules of a context decides every word on its own. -/
theorem run_accept_visitor {file : ClassFile} {calls : PerPlace Call}
    (resolved : file.calls = .ok calls) (context : Context) :
    (file.accept (visitor context)).run .start =
      (.ok (file.withAccess (calls.map (decided context.rules context.owner))),
        calls.toList.foldl (advance context) .start) := by
  have answered := PerPlace.run_mapM (run_answer context) calls Progress.start
  change (file.accept (visitor context)).run.run Progress.start = _
  rw [run_accept_of_calls resolved, answered]
  rfl

/-- When no word is decided to be another one, the class file stays as it is. -/
theorem withAccess_decided_of_unchanged {file : ClassFile} {calls : PerPlace Call}
    (resolved : file.calls = .ok calls) {rules : RuleSet} {owner : String}
    (unchanged : (calls.toList.countP fun call => decided rules owner call ≠ call.word) = 0) :
    file.withAccess (calls.map (decided rules owner)) = file := by
  have same : ∀ call ∈ calls.toList, decided rules owner call = call.word := by
    intro call member
    have kept := List.countP_eq_zero.mp unchanged call member
    simpa using kept
  rw [PerPlace.map_congr same, withAccess_words resolved]

/-- A transformation starts with a class file that parses and whose own name resolves. -/
theorem start_eq_ok_iff {rules : RuleSet} {bytes : List UInt8} {file : ClassFile}
    {context : Context} :
    start rules bytes = .ok (file, context) ↔ parse bytes = .ok file ∧
      ∃ owner, file.name = .ok owner ∧ context = contextOf rules owner file := by
  simp only [start, bind_eq_ok_iff]
  constructor
  · rintro ⟨_, parsed, owner, named, same⟩
    cases same
    exact ⟨parsed, owner, named, rfl⟩
  · rintro ⟨parsed, owner, named, rfl⟩
    exact ⟨file, parsed, owner, named, rfl⟩

/-- When all names of a parsed class file resolve, each of its words is decided on, whether or
not any of them changes. -/
theorem transform_of_calls {rules : RuleSet} {bytes : List UInt8} {file : ClassFile}
    {owner : String} {calls : PerPlace Call} (parsed : parse bytes = .ok file)
    (named : file.name = .ok owner) (resolved : file.calls = .ok calls) :
    (transform rules bytes).1 = .ok {
      bytes := (file.withAccess (calls.map (decided rules owner))).toBytes
      outcome := outcomeFor rules owner file calls.toList } := by
  have started := start_eq_ok_iff.mpr ⟨parsed, owner, named, Eq.refl (contextOf rules owner file)⟩
  have walked := run_accept_visitor resolved (contextOf rules owner file)
  rw [transform, started]
  simp only [walked]
  -- Without changes the output is the input, which is what would be written.
  split
  · next unchanged =>
      have zero : (outcomeFor rules owner file calls.toList).changed = 0 :=
        beq_iff_eq.mp unchanged
      rw [changed_outcomeFor] at zero
      rw [withAccess_decided_of_unchanged resolved zero, (parse_eq_ok_iff.mp parsed).2]
      rfl
  · rfl

/-- A transformation fails when a name does not resolve. -/
theorem transform_of_fault {rules : RuleSet} {bytes : List UInt8} {file : ClassFile}
    {context : Context} {fault : Fault} (started : start rules bytes = .ok (file, context))
    (stopped : file.calls = .error fault) : (transform rules bytes).1 = .error ⟨fault⟩ := by
  have failed : ((file.accept (visitor context)).run.run Progress.start).1 = .error fault :=
    run_accept_of_fault stopped Progress.start
  change ((file.accept (visitor context)).run Progress.start).1 = .error fault at failed
  rw [transform, started]
  cases walked : (file.accept (visitor context)).run .start with
  | mk result progress =>
      rw [walked] at failed
      cases failed
      simp only [walked]

/-- A transformation fails when it cannot start. -/
theorem transform_of_start_fault {rules : RuleSet} {bytes : List UInt8} {fault : Fault}
    (failed : start rules bytes = .error fault) : (transform rules bytes).1 = .error ⟨fault⟩ := by
  rw [transform, failed]

/-- A transformation of bytes that are no class file fails for the same reason. -/
theorem transform_of_parse_fault {rules : RuleSet} {bytes : List UInt8} {fault : Fault}
    (unread : parse bytes = .error fault) : (transform rules bytes).1 = .error ⟨fault⟩ :=
  transform_of_start_fault (bind_eq_error_iff.mpr (.inl unread))

/-- A transformation fails at the first name that does not resolve, be it that of the class. -/
theorem transform_of_calls_fault {rules : RuleSet} {bytes : List UInt8} {file : ClassFile}
    {fault : Fault} (parsed : parse bytes = .ok file) (stopped : file.calls = .error fault) :
    (transform rules bytes).1 = .error ⟨fault⟩ := by
  rcases bind_eq_error_iff.mp stopped with unnamed | ⟨owner, named, -⟩
  · refine transform_of_start_fault (bind_eq_error_iff.mpr (.inr ⟨file, parsed, ?_⟩))
    exact bind_eq_error_iff.mpr (.inl unnamed)
  · exact transform_of_fault (start_eq_ok_iff.mpr ⟨parsed, owner, named, rfl⟩) stopped

/-- A transformation succeeds exactly when the class file parses and all its names resolve. -/
theorem transform_eq_ok_iff {rules : RuleSet} {bytes : List UInt8} {made : Transformed} :
    (transform rules bytes).1 = .ok made ↔
      ∃ file owner calls, parse bytes = .ok file ∧ file.name = .ok owner ∧
        file.calls = .ok calls ∧
        made.bytes = (file.withAccess (calls.map (decided rules owner))).toBytes ∧
        made.outcome = outcomeFor rules owner file calls.toList := by
  constructor
  · intro succeeded
    cases started : start rules bytes with
    | error fault =>
        rw [transform_of_start_fault started] at succeeded
        cases succeeded
    | ok both =>
        obtain ⟨file, context⟩ := both
        obtain ⟨parsed, owner, named, -⟩ := start_eq_ok_iff.mp started
        cases resolved : file.calls with
        | error fault =>
            rw [transform_of_fault started resolved] at succeeded
            cases succeeded
        | ok calls =>
            rw [transform_of_calls parsed named resolved] at succeeded
            cases succeeded
            exact ⟨file, owner, calls, parsed, named, resolved, rfl, rfl⟩
  · rintro ⟨file, owner, calls, parsed, named, resolved, bytes, outcome⟩
    rw [transform_of_calls parsed named resolved, ← bytes, ← outcome]

/-- The name of the class of `sample` is one that rules can be for. -/
theorem fault?_sampleName : BinaryName.fault? "A".toList = none := by decide

/-- Rules that make the class of `sample` public, and its fields public and final. -/
def sampleRules : RuleSet :=
  .ofList [⟨.publicAccess, [], ⟨"A", by decide⟩, .classItself⟩,
    ⟨.publicAccess, [.add .final], ⟨"A", by decide⟩, .field .every⟩]

/-- What these rules make of `sample`: a word of the header, of a field and of an entry change. -/
def sampleMade : Transformed where
  bytes := toBytes { sample with
    access := 0x8021
    fields := [⟨0x1011, 6, 7, [⟨9, [1, 2, 3]⟩]⟩]
    attributes := [⟨3, [0, 1, 0, 2, 0, 0, 0, 0, 0, 1]⟩] }
  outcome := { owner := "A", changed := 3, nested := ["A"], warnings := [] }

/-- The transformation of `sample` succeeds. -/
theorem transform_sampleBytes : (transform sampleRules sampleBytes).1 = .ok sampleMade := by
  decide +kernel

end Transform

end ClassAccess
