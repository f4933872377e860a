import ClassAccess.Proofs.Transform.Decisions
import ClassAccess.Proofs.Walk.Events

/-!
# The stages of a transformation

A transformation counts on being called in order: first about the header, then
about members and nested classes, and to be told of the end last. Here it asserts
this at each call. No assertion fails, whatever the bytes and the rules are, and
also when the walk stops on the way. So the transformation with assertions is the
one without.
-/

namespace ClassAccess

open ClassFile Transform

namespace Transform

/-- How far a transformation has come. -/
inductive Stage where
  | notStarted
  | members
  | done
deriving DecidableEq, Repr

/-- The stage after an event. There is none if a call comes at another stage than it is asserted to
come at; nothing is asserted about the end. -/
def Stage.after (stage : Stage) : Event → Option Stage
  | .answered ⟨.header _, _⟩ _ => if stage = .notStarted then some .members else none
  | .answered _ _ => if stage = .members then some stage else none
  | .ended => some .done

/-- Follows the stage from event to event. It is lost when an assertion fails. -/
def Stage.follow (stage : Option Stage) (event : Event) : Option Stage :=
  stage.bind (·.after event)

/-- The visitor that applies the rules of a context and asserts the stage at each call. -/
def staged (context : Context) : Visitor (Progress × Option Stage) :=
  (visitor context).observed Stage.follow

end Transform

/-- Applies rules to the bytes of a class as `transform` does, with asserted stages. There is no
result when an assertion fails. -/
def transformStaged (rules : RuleSet) (bytes : List UInt8) :
    Option (Except TransformError Transformed × List Log.Entry) :=
  match Transform.start rules bytes with
  | .error fault => some (.error ⟨fault⟩, [])
  | .ok (file, context) =>
      match (file.accept (Transform.staged context)).run (.start, some .notStarted) with
      | (_, (_, none)) => none
      | (.error fault, (progress, some _)) => some (.error ⟨fault⟩, progress.log.reverse)
      | (.ok visited, (progress, some _)) =>
          let outcome := Transform.outcomeOf context progress
          let output := if outcome.isUnchanged then bytes else visited.toBytes
          some (.ok ⟨output, outcome⟩, Transform.logOf context progress)

namespace Transform

/-- Members and nested classes are asked about at the stage of members. -/
theorem Stage.foldl_follow_of_inner {parts : List Event} (inner : ∀ event ∈ parts, event.IsInner) :
    parts.foldl follow (some .members) = some .members := by
  induction parts with
  | nil => rfl
  | cons event parts ih =>
      rw [List.forall_mem_cons] at inner
      rw [List.foldl_cons]
      cases inner.1 <;> exact ih inner.2

/-- In the course of a walk every call comes at its stage. -/
theorem Stage.exists_of_course {file : ClassFile} {result : Except Fault ClassFile}
    {events : List Event} (course : Course file result events) :
    ∃ stage, events.foldl follow (some .notStarted) = some stage := by
  cases course with
  | unnamed failed => exact ⟨.notStarted, rfl⟩
  | stopped named inner => exact ⟨.members, foldl_follow_of_inner inner⟩
  | finished named inner visited =>
      refine ⟨.done, ?_⟩
      rw [List.foldl_cons, List.foldl_append]
      exact congrArg (List.foldl follow · [.ended]) (foldl_follow_of_inner inner)

/-- Asserting the stages fails nowhere and changes nothing. -/
theorem run_accept_staged (file : ClassFile) (context : Context) :
    ∃ stage, (file.accept (staged context)).run.run (.start, some .notStarted) =
      (((file.accept (visitor context)).run.run .start).1,
        (((file.accept (visitor context)).run.run .start).2, some stage)) := by
  obtain ⟨events, ran, course⟩ :=
    run_accept_observed Stage.follow file (visitor context) .start (some .notStarted)
  obtain ⟨stage, reached⟩ := Stage.exists_of_course course
  rw [reached] at ran
  exact ⟨stage, ran⟩

/-- A transformation with asserted stages is the one without. -/
theorem transformStaged_eq (rules : RuleSet) (bytes : List UInt8) :
    transformStaged rules bytes = some (transform rules bytes) := by
  rw [transformStaged, transform]
  cases started : start rules bytes with
  | error fault => rfl
  | ok both =>
      obtain ⟨file, context⟩ := both
      obtain ⟨stage, ran⟩ := run_accept_staged file context
      change (file.accept (staged context)).run (.start, some .notStarted) =
        (((file.accept (visitor context)).run .start).1,
          (((file.accept (visitor context)).run .start).2, some stage)) at ran
      simp only [ran]
      cases (file.accept (visitor context)).run .start with
      | mk result progress => cases result <;> rfl

end Transform

/-- A walk that succeeds calls its visitor once for each access word, in stored order and at last
for the end, and puts the answers into place; a walk that fails does not come to the end. Words
that are kept leave the bytes as they were, and a transformation is called at its stages only. -/
theorem accept_visitsInOrder :
    (∀ (σ : Type) (file : ClassFile) (visitor : Visitor σ) (state : σ), ∃ events : List Event,
      (file.accept visitor.recorded).run.run (state, []) =
        (((file.accept visitor).run.run state).1,
          (((file.accept visitor).run.run state).2, events)) ∧
      (∀ after, ((file.accept visitor).run.run state).1 = .ok after → Visited file after events) ∧
      ∀ fault, ((file.accept visitor).run.run state).1 = .error fault → .ended ∉ events) ∧
    (∀ (σ : Type) (visitor : Visitor σ), visitor.Keeps → ∀ bytes state written,
      ((visit bytes visitor).run.run state).1 = .ok written → written = bytes) ∧
    ∀ rules bytes, transformStaged rules bytes = some (transform rules bytes) := by
  refine ⟨fun σ file visitor state => ?_, fun σ visitor keeps bytes state written => ?_,
    transformStaged_eq⟩
  · obtain ⟨events, ran, course⟩ := run_accept_observed
      (fun record event => record ++ [event]) file visitor state []
    rw [foldl_record, List.nil_append] at ran
    refine ⟨events, ran, fun after succeeded => ?_, fun fault failed => ?_⟩
    · rw [succeeded] at course
      exact course.visited
    · rw [failed] at course
      exact course.ended_not_mem
  · exact visit_of_keeps keeps

namespace ClassFile

/-- A visitor that answers each call with its number. -/
def numbering : Visitor Nat where
  visitHeader _ _ := modifyGet fun number => (UInt16.ofNat number, number + 1)
  visitField _ _ _ := modifyGet fun number => (UInt16.ofNat number, number + 1)
  visitMethod _ _ _ := modifyGet fun number => (UInt16.ofNat number, number + 1)
  visitNested _ _ := modifyGet fun number => (UInt16.ofNat number, number + 1)

/-- The class file `sample` with numbers from 5 for its access words. -/
def numberedSample : ClassFile :=
  { sample with
    access := 5
    fields := [⟨6, 6, 7, [⟨9, [1, 2, 3]⟩]⟩]
    attributes := [⟨3, [0, 1, 0, 2, 0, 0, 0, 0, 0, 7]⟩] }

/-- The class file `sample` with a field that has no name. -/
def unnamedSample : ClassFile := { sample with fields := [⟨0x1002, 4, 7, []⟩] }

/-- A visitor that answers with the words that it is asked about. -/
def keeping : Visitor Unit where
  visitHeader word _ := pure word
  visitField word _ _ := pure word
  visitMethod word _ _ := pure word

end ClassFile

/-- The access words of `sample` are numbered in stored order. Without the name of its field, its
header is asked about and nothing else, and a visitor that keeps all words keeps its bytes. -/
theorem accept_visitsInOrder_sample :
    (sample.accept numbering).run.run 5 = (.ok numberedSample, 8) ∧
      (∃ events, (sample.accept numbering.recorded).run.run (5, []) =
        (.ok numberedSample, (8, events)) ∧ Visited sample numberedSample events) ∧
      (∃ events, (unnamedSample.accept numbering.recorded).run.run (5, []) =
        (.error (.badReference 4 .text), (6, events)) ∧ .ended ∉ events) ∧
      keeping.Keeps ∧ ∃ written, ((visit sampleBytes keeping).run.run ()).1 = .ok written ∧
        written = sampleBytes := by
  have resolved : sample.calls = .ok ⟨⟨.header "A", 0x8020⟩, [⟨.field "x" "I", 0x1002⟩], [],
      [[⟨.nested "A", 2⟩]]⟩ := by decide +kernel
  have attributes : sample.attributes.zipWith (attributeWithAccess sample.constants) [[7]] =
      numberedSample.attributes := by decide +kernel
  have numbered : sample.withAccess ⟨5, [6], [], [[7]]⟩ = numberedSample := by
    rw [withAccess, attributes]
    rfl
  have ran : (sample.accept numbering).run.run 5 = (.ok numberedSample, 8) := by
    rw [run_accept_of_calls resolved, ← numbered]
    rfl
  have unresolved : unnamedSample.calls = .error (.badReference 4 .text) := by decide +kernel
  have counted : ((unnamedSample.accept numbering).run.run 5).2 = 6 := by decide +kernel
  have failed : (unnamedSample.accept numbering).run.run 5 =
      (.error (.badReference 4 .text), 6) := Prod.ext (run_accept_of_fault unresolved 5) counted
  have keeps : keeping.Keeps := by
    rintro ⟨subject, word⟩ state
    cases subject <;> rfl
  have visited : ((visit sampleBytes keeping).run.run ()).1 = .ok sampleBytes := by
    decide +kernel
  obtain ⟨events, recorded, inOrder, -⟩ := accept_visitsInOrder.1 Nat sample numbering 5
  obtain ⟨few, recordedFew, -, unended⟩ := accept_visitsInOrder.1 Nat unnamedSample numbering 5
  rw [ran] at recorded inOrder
  rw [failed] at recordedFew unended
  exact ⟨ran, ⟨events, recorded, inOrder _ rfl⟩, ⟨few, recordedFew, unended _ rfl⟩, keeps, _,
    visited, accept_visitsInOrder.2.1 Unit keeping keeps sampleBytes () _ visited⟩

end ClassAccess
