import ClassAccess.Proofs.Transform.Decisions

/-!
# Shortcuts of a transformation

Two shortcuts save work on classes with few changes. A walk keeps the bytes of an
attribute none of whose access words changed, and a transformation returns its
input when no access word changed at all. Here stand the walk and the
transformation without them, which write everything anew. They give the same
bytes, or stop at the same fault; this rests on class files and attributes being
written back as they were read.

The outcome and the log of a transformation are not compared.
-/

namespace ClassAccess

open ClassFile

namespace ClassFile

variable {σ α : Type}

/-- Visits the entries of an attribute, if it holds nested classes, and writes its bytes anew. -/
def walkAttributeAnew (pool : Pool) (visitor : Visitor σ) (block : Attribute) :
    Walk σ Attribute := do
  let name ← Walk.resolve (pool.text block.name)
  if name ≠ NestedClass.attributeName then return block
  let entries ← Walk.resolve (NestedClass.ofInfo block.info)
  let visited ← entries.mapM (walkNested pool visitor)
  return { block with info := NestedClass.toInfo visited }

/-- Walks a class and writes the bytes of all attributes of nested classes anew. -/
def acceptAnew (file : ClassFile) (visitor : Visitor σ) : Walk σ ClassFile := do
  let pool := file.constants
  let name ← Walk.resolve file.name
  let access ← visitor.visitHeader file.access name
  let fields ← file.fields.mapM (walkMember pool visitor.visitField)
  let methods ← file.methods.mapM (walkMember pool visitor.visitMethod)
  let attributes ← file.attributes.mapM (walkAttributeAnew pool visitor)
  visitor.visitEnd
  return { file with access, fields, methods, attributes }

/-- A walk goes on with a value that was resolved. -/
theorem Walk.resolve_ok_bind (value : α) {β : Type} (next : α → Walk σ β) :
    (Walk.resolve (.ok value) >>= next) = next value := rfl

/-- Entries that did not change are written as they were read. -/
theorem walkAttributeAnew_eq (pool : Pool) (visitor : Visitor σ) :
    walkAttributeAnew pool visitor = walkAttribute pool visitor := by
  funext block
  rw [walkAttributeAnew, walkAttribute]
  refine bind_congr fun name => ?_
  split
  · rfl
  cases held : NestedClass.ofInfo block.info with
  | error fault => rfl
  | ok entries =>
      have stored := (NestedClass.ofInfo_eq_ok_iff.mp held).2
      rw [Walk.resolve_ok_bind, Walk.resolve_ok_bind]
      refine bind_congr fun visited => ?_
      split
      · next unchanged => rw [unchanged, ← stored]
      · rfl

/-- A walk that writes all attributes of nested classes anew is no other walk. -/
theorem acceptAnew_eq (file : ClassFile) (visitor : Visitor σ) :
    file.acceptAnew visitor = file.accept visitor := by
  rw [acceptAnew, accept, walkAttributeAnew_eq]

end ClassFile

namespace Transform

/-- Applies rules to the bytes of a class with some walk, and writes the class anew. -/
def anew (walk : ClassFile → Visitor Progress → Walk Progress ClassFile) (rules : RuleSet)
    (bytes : List UInt8) : Except Fault (List UInt8) := do
  let file ← parse bytes
  let owner ← file.name
  let context := { rules, owner, ofInterface := file.isInterface }
  let visited ← ((walk file (visitor context)).run.run .start).1
  return visited.toBytes

/-- Without its shortcut, a transformation writes a class file with the decided words. -/
theorem anew_of_calls {rules : RuleSet} {bytes : List UInt8} {file : ClassFile} {owner : String}
    {calls : PerPlace Call} (parsed : parse bytes = .ok file) (named : file.name = .ok owner)
    (resolved : file.calls = .ok calls) :
    anew accept rules bytes = .ok (file.withAccess (calls.map (decided rules owner))).toBytes := by
  have walked := run_accept_visitor resolved (contextOf rules owner file)
  refine bind_eq_ok_iff.mpr ⟨file, parsed, bind_eq_ok_iff.mpr ⟨owner, named, ?_⟩⟩
  exact bind_eq_ok_iff.mpr ⟨_, congrArg Prod.fst walked, rfl⟩

/-- Without its shortcut, a transformation fails at the same name that does not resolve. -/
theorem anew_of_calls_fault {rules : RuleSet} {bytes : List UInt8} {file : ClassFile}
    {fault : Fault} (parsed : parse bytes = .ok file) (stopped : file.calls = .error fault) :
    anew accept rules bytes = .error fault := by
  refine bind_eq_error_iff.mpr (.inr ⟨file, parsed, bind_eq_error_iff.mpr ?_⟩)
  rcases bind_eq_error_iff.mp stopped with unnamed | ⟨owner, named, -⟩
  · exact .inl unnamed
  · have failed : ((file.accept (visitor (contextOf rules owner file))).run.run Progress.start).1 =
        .error fault := run_accept_of_fault stopped _
    exact .inr ⟨owner, named, bind_eq_error_iff.mpr (.inl failed)⟩

end Transform

open Transform

/-- Neither shortcut can be seen in the bytes of a transformation or in its fault. -/
theorem transform_bytes_eq_anew (rules : RuleSet) (bytes : List UInt8) :
    (transform rules bytes).1.map Transformed.bytes =
        (anew accept rules bytes).mapError TransformError.mk ∧
      (transform rules bytes).1.map Transformed.bytes =
        (anew acceptAnew rules bytes).mapError TransformError.mk := by
  have sameWalk : acceptAnew (σ := Progress) = accept := by
    funext file visitor
    exact acceptAnew_eq file visitor
  rw [sameWalk, and_self]
  cases parsed : parse bytes with
  | error fault =>
      have unread : anew accept rules bytes = .error fault := bind_eq_error_iff.mpr (.inl parsed)
      rw [transform_of_parse_fault parsed, unread]
      rfl
  | ok file =>
      cases resolved : file.calls with
      | error fault =>
          rw [transform_of_calls_fault parsed resolved, anew_of_calls_fault parsed resolved]
          rfl
      | ok calls =>
          obtain ⟨⟨owner, named, -⟩, -⟩ := calls_eq_ok_iff.mp resolved
          rw [transform_of_calls parsed named resolved, anew_of_calls parsed named resolved]
          rfl

end ClassAccess
