import ClassAccess.Proofs.Walk.Accept
import ClassAccess.Proofs.Walk.Rewritten

/-!
# The events of a walk

A visitor is asked about one access word at a time and may answer as it likes,
depending on all that it was asked before. An observer that stands between a walk
and its visitor sees each question with its answer, and the end; it disturbs
neither the visitor nor the walk. `Course` says which events there are: for a walk
that succeeds those of the whole class file in stored order, and for one that
fails some of them from the front, without the end.

How a walk that fails left the class file is not described, only what its visitor
was asked.
-/

namespace ClassAccess

namespace ClassFile

/-- What happens between a walk and its visitor. -/
inductive Event where
  /-- The visitor was called and answered with a word. -/
  | answered (call : Call) (word : UInt16)
  /-- The visitor was told that the walk is over. -/
  | ended
deriving DecidableEq, Repr

/-- Events in the parts of a class file: neither the header nor the end. -/
inductive Event.IsInner : Event → Prop where
  | field (name descriptor : String) (before after : UInt16) :
      IsInner (.answered ⟨.field name descriptor, before⟩ after)
  | method (name descriptor : String) (before after : UInt16) :
      IsInner (.answered ⟨.method name descriptor, before⟩ after)
  | nested (name : String) (before after : UInt16) :
      IsInner (.answered ⟨.nested name, before⟩ after)

variable {σ τ α β : Type}

/-- Answers a call, and lets an observer see the call and the answer. -/
def observing (observe : τ → Event → τ) (call : Call) (answer : StateM σ UInt16) :
    StateM (σ × τ) UInt16 := fun (state, seen) =>
  ((answer.run state).1, ((answer.run state).2,
    observe seen (.answered call (answer.run state).1)))

/-- A visitor that does what another one does, with an observer. -/
def Visitor.observed (visitor : Visitor σ) (observe : τ → Event → τ) : Visitor (σ × τ) where
  visitHeader word name := observing observe ⟨.header name, word⟩ (visitor.visitHeader word name)
  visitField word name descriptor :=
    observing observe ⟨.field name descriptor, word⟩ (visitor.visitField word name descriptor)
  visitMethod word name descriptor :=
    observing observe ⟨.method name descriptor, word⟩ (visitor.visitMethod word name descriptor)
  visitNested word name := observing observe ⟨.nested name, word⟩ (visitor.visitNested word name)
  visitEnd := fun (state, seen) => ((), ((visitor.visitEnd.run state).2, observe seen .ended))

/-- A visitor that does what another one does and keeps a record of the events. -/
def Visitor.recorded (visitor : Visitor σ) : Visitor (σ × List Event) :=
  visitor.observed fun record event => record ++ [event]

/-- Values that are visited one after the other, each with its own events. -/
inductive InTurn (visited : α → α → List Event → Prop) : List α → List α → List Event → Prop where
  | nil : InTurn visited [] [] []
  | cons {before after : α} {events : List Event} {befores afters : List α} {later : List Event}
      (first : visited before after events) (others : InTurn visited befores afters later) :
      InTurn visited (before :: befores) (after :: afters) (events ++ later)

/-- A member gets the word that was answered to the one call for it. -/
def MemberVisited (pool : Pool) (subject : String → String → Subject) (before after : Member)
    (events : List Event) : Prop :=
  ∃ name descriptor word, pool.text before.name = .ok name ∧
    pool.text before.descriptor = .ok descriptor ∧ after = before.withAccess word ∧
    events = [.answered ⟨subject name descriptor, before.access⟩ word]

/-- An entry of a nested class gets the word that was answered to the one call for it. -/
def NestedVisited (pool : Pool) (before after : NestedClass) (events : List Event) : Prop :=
  ∃ name word, pool.className before.self = .ok name ∧ after = before.withAccess word ∧
    events = [.answered ⟨.nested name, before.access⟩ word]

/-- The entries of an attribute of nested classes get their words, and its length stays. Other
attributes stay as they are, without a call. -/
inductive AttributeVisited (pool : Pool) : Attribute → Attribute → List Event → Prop where
  | nested {before after : Attribute} {entries visited : List NestedClass} {events : List Event}
      (named : pool.text before.name = .ok NestedClass.attributeName)
      (sameName : after.name = before.name)
      (sameLength : after.info.length = before.info.length)
      (held : NestedClass.ofInfo before.info = .ok entries)
      (holds : NestedClass.ofInfo after.info = .ok visited)
      (each : InTurn (NestedVisited pool) entries visited events) :
      AttributeVisited pool before after events
  | other {block : Attribute} {name : String} (named : pool.text block.name = .ok name)
      (differs : name ≠ NestedClass.attributeName) : AttributeVisited pool block block []

/-- The parts of a class file behind its header get the words that were answered. -/
structure PartsVisited (before after : ClassFile) (events : List Event) : Prop where
  version : after.version = before.version
  constants : after.constants = before.constants
  thisClass : after.thisClass = before.thisClass
  superClass : after.superClass = before.superClass
  interfaces : after.interfaces = before.interfaces
  calls : ∃ ofFields ofMethods ofNested,
    InTurn (MemberVisited before.constants .field) before.fields after.fields ofFields ∧
    InTurn (MemberVisited before.constants .method) before.methods after.methods ofMethods ∧
    InTurn (AttributeVisited before.constants) before.attributes after.attributes ofNested ∧
    events = ofFields ++ (ofMethods ++ ofNested)

/-- A class file is visited once from the header to the end, and gets the words that were
answered. -/
def Visited (before after : ClassFile) (events : List Event) : Prop :=
  ∃ name parts, before.name = .ok name ∧ PartsVisited before after parts ∧
    events = .answered ⟨.header name, before.access⟩ after.access :: (parts ++ [.ended])

/-- The events of a walk with some result. -/
inductive Course (file : ClassFile) : Except Fault ClassFile → List Event → Prop where
  /-- Without a name there is nothing to ask. -/
  | unnamed {fault : Fault} (failed : file.name = .error fault) : Course file (.error fault) []
  /-- A walk that stops behind the header does not come to the end. -/
  | stopped {name : String} {word : UInt16} {parts : List Event} {fault : Fault}
      (named : file.name = .ok name) (inner : ∀ event ∈ parts, event.IsInner) :
      Course file (.error fault) (.answered ⟨.header name, file.access⟩ word :: parts)
  /-- A walk that is not stopped visits everything. -/
  | finished {name : String} {after : ClassFile} {parts : List Event}
      (named : file.name = .ok name) (inner : ∀ event ∈ parts, event.IsInner)
      (visited : PartsVisited file after parts) :
      Course file (.ok after)
        (.answered ⟨.header name, file.access⟩ after.access :: (parts ++ [.ended]))

/-- An observed walk is the walk itself, with an observer that sees some inner events. When the
walk succeeds, they belong to its result. -/
def ObservedAs (observe : τ → Event → τ) (made : α → List Event → Prop)
    (observed : Walk (σ × τ) α) (walk : Walk σ α) : Prop :=
  ∀ (state : σ) (seen : τ), ∃ events : List Event,
    observed.run.run (state, seen) =
      ((walk.run.run state).1, ((walk.run.run state).2, events.foldl observe seen)) ∧
    (∀ event ∈ events, event.IsInner) ∧
    ∀ value, (walk.run.run state).1 = .ok value → made value events

namespace ObservedAs

variable {observe : τ → Event → τ}

/-- A walk that does nothing has no events. -/
theorem pure {value : α} {made : α → List Event → Prop} (silent : made value []) :
    ObservedAs (σ := σ) observe made (pure value) (pure value) := by
  intro state seen
  refine ⟨[], rfl, by simp, fun result same => ?_⟩
  cases same
  exact silent

/-- Resolving a name is not an event. -/
theorem resolve {value : Except Fault β} {made : α → List Event → Prop}
    {observed : β → Walk (σ × τ) α} {next : β → Walk σ α}
    (goesOn : ∀ result, value = .ok result →
      ObservedAs observe made (observed result) (next result)) :
    ObservedAs observe made (Walk.resolve value >>= observed) (Walk.resolve value >>= next) := by
  intro state seen
  cases value with
  | error fault =>
      refine ⟨[], rfl, by simp, fun result same => ?_⟩
      cases same
  | ok result => exact goesOn result rfl state seen

/-- The events of two steps come one after the other. -/
theorem bind {first : β → List Event → Prop} {made : α → List Event → Prop}
    {observed : Walk (σ × τ) β} {walk : Walk σ β}
    {observedNext : β → Walk (σ × τ) α} {next : β → Walk σ α}
    (ofFirst : ObservedAs observe first observed walk)
    (ofNext : ∀ value, ObservedAs observe
      (fun result later => ∀ events, first value events → made result (events ++ later))
      (observedNext value) (next value)) :
    ObservedAs observe made (observed >>= observedNext) (walk >>= next) := by
  intro state seen
  obtain ⟨events, ran, inner, belongs⟩ := ofFirst state seen
  rw [run_bind, run_bind, ran]
  cases plain : walk.run.run state with
  | mk result middle =>
      rw [plain] at belongs
      cases result with
      | error fault =>
          refine ⟨events, rfl, inner, fun result same => ?_⟩
          cases same
      | ok value =>
          obtain ⟨later, ranNext, innerNext, belongsNext⟩ :=
            ofNext value middle (events.foldl observe seen)
          refine ⟨events ++ later, ?_, ?_, fun result same => ?_⟩
          · rw [List.foldl_append]
            exact ranNext
          · intro event held
            exact (List.mem_append.mp held).elim (inner event) (innerNext event)
          · exact belongsNext result same events (belongs value rfl)

/-- The events of values that are walked over in turn come in their order. -/
theorem mapM {visited : α → α → List Event → Prop} {observed : α → Walk (σ × τ) α}
    {step : α → Walk σ α}
    (each : ∀ value, ObservedAs observe (visited value) (observed value) (step value))
    (values : List α) :
    ObservedAs observe (InTurn visited values) (values.mapM observed) (values.mapM step) := by
  induction values with
  | nil => exact pure .nil
  | cons value values ih =>
      rw [List.mapM_cons, List.mapM_cons]
      refine (each value).bind fun after => ih.bind fun afters => pure ?_
      intro later others events first
      rw [List.append_nil]
      exact .cons first others

/-- A call is one event. -/
theorem call {call : Call} {answer : StateM σ UInt16}
    (inner : ∀ word, Event.IsInner (.answered call word)) :
    ObservedAs observe (fun word events => events = [.answered call word])
      (liftM (observing observe call answer) : Walk (σ × τ) UInt16)
      (liftM answer : Walk σ UInt16) := by
  intro state seen
  refine ⟨[.answered call (answer.run state).1], rfl, ?_, fun word same => ?_⟩
  · intro event held
    rw [List.mem_singleton.mp held]
    exact inner _
  · cases same
    rfl

end ObservedAs

section Parts

variable (observe : τ → Event → τ)

/-- A member is asked about once. -/
theorem observedAs_walkMember (pool : Pool) {subject : String → String → Subject}
    (visit : UInt16 → String → String → StateM σ UInt16)
    (inner : ∀ name descriptor before after,
      Event.IsInner (.answered ⟨subject name descriptor, before⟩ after)) (member : Member) :
    ObservedAs observe (MemberVisited pool subject member)
      (walkMember pool (fun word name descriptor =>
        observing observe ⟨subject name descriptor, word⟩ (visit word name descriptor)) member)
      (walkMember pool visit member) := by
  refine .resolve fun name named => .resolve fun descriptor described => ?_
  refine (ObservedAs.call (inner name descriptor member.access)).bind fun word => .pure ?_
  rintro events rfl
  exact ⟨name, descriptor, word, named, described, rfl, rfl⟩

/-- An entry of a nested class is asked about once. -/
theorem observedAs_walkNested (pool : Pool) (visitor : Visitor σ) (entry : NestedClass) :
    ObservedAs observe (NestedVisited pool entry)
      (walkNested pool (visitor.observed observe) entry) (walkNested pool visitor entry) := by
  refine .resolve fun name named => ?_
  refine (ObservedAs.call (.nested name entry.access)).bind fun word => .pure ?_
  rintro events rfl
  exact ⟨name, word, named, rfl, rfl⟩

/-- Values that are visited in turn stay as many. -/
theorem InTurn.length_eq {visited : α → α → List Event → Prop} {befores afters : List α}
    {events : List Event} (inTurn : InTurn visited befores afters events) :
    afters.length = befores.length := by
  induction inTurn with
  | nil => rfl
  | cons _ _ ih => rw [List.length_cons, List.length_cons, ih]

/-- The entries of an attribute are asked about in turn, whether or not it is written anew. -/
theorem observedAs_walkAttribute (pool : Pool) (visitor : Visitor σ) (block : Attribute) :
    ObservedAs observe (AttributeVisited pool block)
      (walkAttribute pool (visitor.observed observe) block) (walkAttribute pool visitor block) := by
  refine .resolve fun name named => ?_
  split
  · next differs => exact .pure (.other named differs)
  next holds =>
  rw [not_not] at holds
  subst holds
  refine .resolve fun entries held => ?_
  refine (ObservedAs.mapM (observedAs_walkNested observe pool visitor) entries).bind
    fun visited => ?_
  obtain ⟨few, stored⟩ := NestedClass.ofInfo_eq_ok_iff.mp held
  split
  · next unchanged =>
      refine .pure fun events each => ?_
      rw [List.append_nil]
      subst unchanged
      exact .nested named rfl rfl held held each
  · refine .pure fun events each => ?_
    rw [List.append_nil]
    have same := each.length_eq
    have length : (NestedClass.toInfo visited).length = block.info.length := by
      rw [stored, NestedClass.length_toInfo, NestedClass.length_toInfo, same]
    exact .nested named rfl length held
      (NestedClass.ofInfo_eq_ok_iff.mpr ⟨same ▸ few, rfl⟩) each

/-- Walks the parts of a class file behind its header, which gets a word. -/
def walkParts (file : ClassFile) (visitor : Visitor σ) (access : UInt16) : Walk σ ClassFile := do
  let fields ← file.fields.mapM (walkMember file.constants visitor.visitField)
  let methods ← file.methods.mapM (walkMember file.constants visitor.visitMethod)
  let attributes ← file.attributes.mapM (walkAttribute file.constants visitor)
  return { file with access, fields, methods, attributes }

/-- A walk asks about the header, then about the parts behind it, and comes to the end. -/
theorem accept_eq (file : ClassFile) (visitor : Visitor σ) :
    file.accept visitor = do
      let name ← Walk.resolve file.name
      let access ← visitor.visitHeader file.access name
      let visited ← file.walkParts visitor access
      visitor.visitEnd
      return visited := by
  simp only [accept, walkParts, bind_assoc, pure_bind]

/-- The parts of a class file are asked about in stored order. -/
theorem observedAs_walkParts (file : ClassFile) (visitor : Visitor σ) (access : UInt16) :
    ObservedAs observe
      (fun after events => PartsVisited file after events ∧ after.access = access)
      (file.walkParts (visitor.observed observe) access) (file.walkParts visitor access) := by
  have ofField := observedAs_walkMember observe file.constants visitor.visitField .field
  have ofMethod := observedAs_walkMember observe file.constants visitor.visitMethod .method
  have ofAttribute := observedAs_walkAttribute observe file.constants visitor
  refine (ObservedAs.mapM ofField file.fields).bind fun fields => ?_
  refine (ObservedAs.mapM ofMethod file.methods).bind fun methods => ?_
  refine (ObservedAs.mapM ofAttribute file.attributes).bind fun attributes => ?_
  refine .pure fun ofNested nested ofMethods inMethods ofFields inFields => ⟨?_, rfl⟩
  exact {
    version := rfl
    constants := rfl
    thisClass := rfl
    superClass := rfl
    interfaces := rfl
    calls := ⟨ofFields, ofMethods, ofNested, inFields, inMethods, nested,
      by rw [List.append_nil]⟩ }

end Parts

/-- An observer sees the course of a walk, and disturbs neither the visitor nor the walk. -/
theorem run_accept_observed (observe : τ → Event → τ) (file : ClassFile) (visitor : Visitor σ)
    (state : σ) (seen : τ) : ∃ events : List Event,
      (file.accept (visitor.observed observe)).run.run (state, seen) =
        (((file.accept visitor).run.run state).1,
          (((file.accept visitor).run.run state).2, events.foldl observe seen)) ∧
      Course file ((file.accept visitor).run.run state).1 events := by
  rw [accept_eq, accept_eq]
  cases named : file.name with
  | error fault => exact ⟨[], rfl, .unnamed named⟩
  | ok name =>
      rw [Walk.run_bind_of_ok (Walk.run_resolve _ _), Walk.run_bind_of_ok (Walk.run_resolve _ _),
        Walk.run_bind_of_ok (Walk.run_lift _ _), Walk.run_bind_of_ok (Walk.run_lift _ _)]
      have header : ((visitor.observed observe).visitHeader file.access name).run (state, seen) =
          (((visitor.visitHeader file.access name).run state).1,
            (((visitor.visitHeader file.access name).run state).2,
              observe seen (.answered ⟨.header name, file.access⟩
                ((visitor.visitHeader file.access name).run state).1))) := rfl
      rw [header]
      cases answered : (visitor.visitHeader file.access name).run state with
      | mk word later =>
          obtain ⟨parts, ran, inner, belongs⟩ :=
            observedAs_walkParts observe file visitor word later
              (observe seen (.answered ⟨.header name, file.access⟩ word))
          rw [run_bind, run_bind, ran]
          cases plain : (file.walkParts visitor word).run.run later with
          | mk result last =>
              rw [plain] at belongs
              cases result with
              | error fault => exact ⟨_, rfl, .stopped named inner⟩
              | ok after =>
                  obtain ⟨visited, rfl⟩ := belongs after rfl
                  refine ⟨_, ?_, Course.finished named inner visited⟩
                  rw [List.foldl_cons, List.foldl_append]
                  rfl

/-- A record has all events in order. -/
theorem foldl_record (events record : List Event) :
    events.foldl (fun record event => record ++ [event]) record = record ++ events := by
  induction events generalizing record with
  | nil => rw [List.foldl_nil, List.append_nil]
  | cons event events ih => rw [List.foldl_cons, ih, List.append_assoc, List.singleton_append]

/-- The events of a walk that succeeds are those of a class file that was visited. -/
theorem Course.visited {file after : ClassFile} {events : List Event}
    (course : Course file (.ok after) events) : Visited file after events := by
  cases course with
  | finished named inner visited => exact ⟨_, _, named, visited, rfl⟩

/-- A walk that fails does not come to the end. -/
theorem Course.ended_not_mem {file : ClassFile} {fault : Fault} {events : List Event}
    (course : Course file (.error fault) events) : .ended ∉ events := by
  cases course with
  | unnamed failed => exact List.not_mem_nil
  | stopped named inner =>
      intro ended
      rcases List.mem_cons.mp ended with impossible | among
      · cases impossible
      · cases inner _ among

/-- A visitor answers each call with the word that the call is about. -/
def Visitor.Keeps (visitor : Visitor σ) : Prop :=
  ∀ call state, ((visitor.answer call).run state).1 = call.word

/-- A class file is the same after a walk with a visitor that keeps its words. -/
theorem accept_of_keeps {file after : ClassFile} {visitor : Visitor σ} {state : σ}
    (keeps : visitor.Keeps) (succeeded : ((file.accept visitor).run.run state).1 = .ok after) :
    after = file := by
  cases resolved : file.calls with
  | error fault =>
      rw [run_accept_of_fault resolved] at succeeded
      cases succeeded
  | ok calls =>
      have acts : ∀ call state, (visitor.answer call).run state =
          (call.word, ((visitor.answer call).run state).2) :=
        fun call state => Prod.ext (keeps call state) rfl
      have answered := PerPlace.run_mapM acts calls state
      rw [run_accept_of_calls resolved, answered, withAccess_words resolved] at succeeded
      cases succeeded
      rfl

/-- Visiting bytes with a visitor that keeps their words gives the bytes back. -/
theorem visit_of_keeps {bytes written : List UInt8} {visitor : Visitor σ} {state : σ}
    (keeps : visitor.Keeps) (succeeded : ((visit bytes visitor).run.run state).1 = .ok written) :
    written = bytes := by
  rw [visit, run_bind, Walk.run_resolve] at succeeded
  cases parsed : parse bytes with
  | error fault =>
      rw [parsed] at succeeded
      cases succeeded
  | ok file =>
      simp only [parsed, run_bind] at succeeded
      cases walked : (file.accept visitor).run.run state with
      | mk result later =>
          rw [walked] at succeeded
          cases result with
          | error fault => cases succeeded
          | ok after =>
              cases succeeded
              have same := accept_of_keeps keeps (congrArg Prod.fst walked)
              rw [same]
              exact (parse_eq_ok_iff.mp parsed).2.symm

end ClassFile

end ClassAccess
