import ClassAccess.Proofs.Fallible
import ClassAccess.Proofs.Storage
import ClassAccess.Proofs.Walk.Calls

/-!
# How a walk depends on its visitor

A walk that resolves all its names makes the calls of `calls`, in order, and puts
the answers into their places. A walk that cannot resolve a name ends with the
fault of `calls`, whatever the visitor answered before.
-/

namespace ClassAccess

namespace ClassFile

variable {σ α β γ ω : Type}

/-- A walk whose first step succeeds goes on with its second step. -/
theorem Walk.run_bind_of_ok {first : Walk σ α} {next : α → Walk σ β} {state later : σ} {value : α}
    (succeeded : first.run.run state = (.ok value, later)) :
    (first >>= next).run.run state = (next value).run.run later := by
  rw [run_bind, succeeded]

/-- A walk whose first step fails ends with the fault of that step. -/
theorem Walk.run_bind_of_error {first : Walk σ α} {next : α → Walk σ β} {state : σ} {fault : Fault}
    (failed : (first.run.run state).1 = .error fault) :
    ((first >>= next).run.run state).1 = .error fault := by
  rw [run_bind]
  cases ran : first.run.run state with
  | mk result later =>
      rw [ran] at failed
      cases failed
      rfl

/-- A step with a plan makes the call that was planned for its value, and puts the answer into
the value. Where no call can be planned it fails for the same reason. -/
structure Planned (step : α → Walk σ β) (plan : α → Except Fault γ) (visit : γ → StateM σ ω)
    (put : α → ω → β) : Prop where
  run_of_ok : ∀ {value call}, plan value = .ok call → ∀ state,
    (step value).run.run state =
      (.ok (put value ((visit call).run state).1), ((visit call).run state).2)
  run_of_error : ∀ {value fault}, plan value = .error fault → ∀ state,
    ((step value).run.run state).1 = .error fault

/-- Steps with plans that are taken one after the other have a plan together. -/
theorem Planned.mapM {step : α → Walk σ β} {plan : α → Except Fault γ}
    {visit : γ → StateM σ ω} {put : α → ω → β} (planned : Planned step plan visit put) :
    Planned (List.mapM step) (List.mapM plan) (List.mapM visit) (List.zipWith put) where
  run_of_ok := by
    intro values calls resolved state
    induction values generalizing calls state with
    | nil =>
        cases resolved
        rfl
    | cons value values ih =>
        rw [List.mapM_cons] at resolved
        obtain ⟨call, head, resolved⟩ := bind_eq_ok_iff.mp resolved
        obtain ⟨later, tail, resolved⟩ := bind_eq_ok_iff.mp resolved
        cases resolved
        rw [List.mapM_cons, List.mapM_cons, Walk.run_bind_of_ok (planned.run_of_ok head state),
          Walk.run_bind_of_ok (ih tail _)]
        rfl
  run_of_error := by
    intro values fault stopped state
    induction values generalizing state with
    | nil => cases stopped
    | cons value values ih =>
        rw [List.mapM_cons] at stopped
        rw [List.mapM_cons]
        rcases bind_eq_error_iff.mp stopped with head | ⟨call, head, stopped⟩
        · exact Walk.run_bind_of_error (planned.run_of_error head state)
        · rw [Walk.run_bind_of_ok (planned.run_of_ok head state)]
          rcases bind_eq_error_iff.mp stopped with tail | ⟨later, -, impossible⟩
          · exact Walk.run_bind_of_error (ih tail _)
          · cases impossible

/-- Resolving a value leaves the state as it is. -/
theorem Walk.run_resolve (value : Except Fault α) (state : σ) :
    (Walk.resolve value : Walk σ α).run.run state = (value, state) := rfl

/-- What the visitor does never fails. -/
theorem Walk.run_lift (action : StateM σ α) (state : σ) :
    (liftM action : Walk σ α).run.run state =
      (.ok (action.run state).1, (action.run state).2) := rfl

/-- The members of one kind are visited as planned. -/
theorem planned_walkMember {pool : Pool} {visitor : Visitor σ}
    {subject : String → String → Subject} {visit : UInt16 → String → String → StateM σ UInt16}
    (same : ∀ word name descriptor,
      visitor.answer ⟨subject name descriptor, word⟩ = visit word name descriptor) :
    Planned (walkMember pool visit) (memberCall pool subject) visitor.answer Member.withAccess where
  run_of_ok := by
    intro member call resolved state
    obtain ⟨name, descriptor, named, described, rfl⟩ := memberCall_eq_ok_iff.mp resolved
    rw [walkMember, named, described, same]
    rfl
  run_of_error := by
    intro member fault stopped state
    rcases bind_eq_error_iff.mp stopped with unnamed | ⟨name, named, stopped⟩
    · rw [walkMember, unnamed]
      rfl
    · rcases bind_eq_error_iff.mp stopped with undescribed | ⟨descriptor, -, impossible⟩
      · rw [walkMember, named, undescribed]
        rfl
      · cases impossible

/-- The entries of nested classes are visited as planned. -/
theorem planned_walkNested (pool : Pool) (visitor : Visitor σ) :
    Planned (walkNested pool visitor) (nestedCall pool) visitor.answer NestedClass.withAccess where
  run_of_ok := by
    intro entry call resolved state
    obtain ⟨name, named, rfl⟩ := nestedCall_eq_ok_iff.mp resolved
    rw [walkNested, named]
    rfl
  run_of_error := by
    intro entry fault stopped state
    rcases bind_eq_error_iff.mp stopped with unnamed | ⟨name, -, impossible⟩
    · rw [walkNested, unnamed]
      rfl
    · cases impossible

/-- Fields are visited as planned. -/
theorem planned_fields (pool : Pool) (visitor : Visitor σ) :
    Planned (walkMember pool visitor.visitField) (memberCall pool .field) visitor.answer
      Member.withAccess :=
  planned_walkMember fun _ _ _ => rfl

/-- Methods are visited as planned. -/
theorem planned_methods (pool : Pool) (visitor : Visitor σ) :
    Planned (walkMember pool visitor.visitMethod) (memberCall pool .method) visitor.answer
      Member.withAccess :=
  planned_walkMember fun _ _ _ => rfl

/-- Attributes are visited as planned: writing unchanged entries anew would change nothing. -/
theorem planned_walkAttribute (pool : Pool) (visitor : Visitor σ) :
    Planned (walkAttribute pool visitor) (attributeCalls pool) (List.mapM visitor.answer)
      (attributeWithAccess pool) where
  run_of_ok := by
    intro block calls resolved state
    rcases attributeCalls_cases resolved with
      ⟨entries, named, held, kept, resolved⟩ | ⟨name, named, differs, kept, rfl⟩
    · have stored := (NestedClass.ofInfo_eq_ok_iff.mp held).2
      have entriesRun := (planned_walkNested pool visitor).mapM.run_of_ok resolved state
      rw [walkAttribute, named, attributeWithAccess_of_entries kept,
        Walk.run_bind_of_ok (Walk.run_resolve _ _), if_neg (not_not_intro rfl), held,
        Walk.run_bind_of_ok (Walk.run_resolve _ _), Walk.run_bind_of_ok entriesRun]
      split
      · next unchanged =>
          rw [unchanged, ← stored]
          rfl
      · rfl
    · rw [walkAttribute, named, attributeWithAccess_of_none kept,
        Walk.run_bind_of_ok (Walk.run_resolve _ _), if_pos differs]
      rfl
  run_of_error := by
    intro block fault stopped state
    rw [walkAttribute]
    rcases bind_eq_error_iff.mp stopped with unnamed | ⟨name, named, stopped⟩
    · rw [unnamed]
      rfl
    · by_cases holds : name = NestedClass.attributeName
      · rw [if_neg (not_not_intro holds)] at stopped
        rw [named, Walk.run_bind_of_ok (Walk.run_resolve _ _), if_neg (not_not_intro holds)]
        rcases bind_eq_error_iff.mp stopped with malformed | ⟨entries, held, stopped⟩
        · rw [malformed]
          rfl
        · rw [held, Walk.run_bind_of_ok (Walk.run_resolve _ _)]
          exact Walk.run_bind_of_error
            ((planned_walkNested pool visitor).mapM.run_of_error stopped state)
      · rw [if_pos holds] at stopped
        cases stopped

/-- A walk that resolves its names makes the planned calls and puts the answers into place. -/
theorem run_accept_of_calls {file : ClassFile} {visitor : Visitor σ} {calls : PerPlace Call}
    (resolved : file.calls = .ok calls) (state : σ) :
    (file.accept visitor).run.run state =
      (.ok (file.withAccess ((calls.mapM visitor.answer).run state).1),
        (visitor.visitEnd.run ((calls.mapM visitor.answer).run state).2).2) := by
  obtain ⟨name, named, resolved⟩ := bind_eq_ok_iff.mp resolved
  obtain ⟨fields, ofFields, resolved⟩ := bind_eq_ok_iff.mp resolved
  obtain ⟨methods, ofMethods, resolved⟩ := bind_eq_ok_iff.mp resolved
  obtain ⟨nested, ofNested, resolved⟩ := bind_eq_ok_iff.mp resolved
  cases resolved
  have fieldsRun := (planned_fields file.constants visitor).mapM.run_of_ok ofFields
  have methodsRun := (planned_methods file.constants visitor).mapM.run_of_ok ofMethods
  have attributesRun := (planned_walkAttribute file.constants visitor).mapM.run_of_ok ofNested
  rw [accept, named, Walk.run_bind_of_ok (Walk.run_resolve _ _),
    Walk.run_bind_of_ok (Walk.run_lift _ _), Walk.run_bind_of_ok (fieldsRun _),
    Walk.run_bind_of_ok (methodsRun _), Walk.run_bind_of_ok (attributesRun _),
    Walk.run_bind_of_ok (Walk.run_lift _ _)]
  rfl

/-- A walk that cannot resolve a name ends with the fault of the first such name. -/
theorem run_accept_of_fault {file : ClassFile} {visitor : Visitor σ} {fault : Fault}
    (stopped : file.calls = .error fault) (state : σ) :
    ((file.accept visitor).run.run state).1 = .error fault := by
  rw [accept]
  rcases bind_eq_error_iff.mp stopped with unnamed | ⟨name, named, stopped⟩
  · rw [unnamed]
    rfl
  rw [named, Walk.run_bind_of_ok (Walk.run_resolve _ _), Walk.run_bind_of_ok (Walk.run_lift _ _)]
  rcases bind_eq_error_iff.mp stopped with inFields | ⟨fields, ofFields, stopped⟩
  · exact Walk.run_bind_of_error ((planned_fields _ _).mapM.run_of_error inFields _)
  rw [Walk.run_bind_of_ok ((planned_fields _ _).mapM.run_of_ok ofFields _)]
  rcases bind_eq_error_iff.mp stopped with inMethods | ⟨methods, ofMethods, stopped⟩
  · exact Walk.run_bind_of_error ((planned_methods _ _).mapM.run_of_error inMethods _)
  rw [Walk.run_bind_of_ok ((planned_methods _ _).mapM.run_of_ok ofMethods _)]
  rcases bind_eq_error_iff.mp stopped with inAttributes | ⟨nested, -, impossible⟩
  · exact Walk.run_bind_of_error ((planned_walkAttribute _ _).mapM.run_of_error inAttributes _)
  · cases impossible

end ClassFile

end ClassAccess
