import ClassAccess.ClassFile.Walk
import ClassAccess.Proofs.Fallible

/-!
# The calls of a walk

Which access words a class file has, and what their names resolve to, does not
depend on the visitor that walks it. `calls` resolves all names in the order of a
walk, without a visitor, and stops at the first fault. `withAccess` puts other
words into the places of a class file.

The values that belong to the places of a class file are kept by place, as
`PerPlace`, so that they can be put back; `PerPlace.toList` gives them in the
order of a walk.
-/

namespace ClassAccess

namespace ClassFile

/-- What an access word belongs to, with its resolved names. -/
inductive Subject where
  | header (name : String)
  | field (name descriptor : String)
  | method (name descriptor : String)
  | nested (name : String)
deriving DecidableEq, Repr

/-- An access word and what it belongs to, as a visitor is told. -/
structure Call where
  subject : Subject
  word : UInt16
deriving DecidableEq, Repr

/-- What a visitor does when it is called. -/
def Visitor.answer {σ : Type} (visitor : Visitor σ) (call : Call) : StateM σ UInt16 :=
  match call.subject with
  | .header name => visitor.visitHeader call.word name
  | .field name descriptor => visitor.visitField call.word name descriptor
  | .method name descriptor => visitor.visitMethod call.word name descriptor
  | .nested name => visitor.visitNested call.word name

/-- One value for each access word of a class file. Those of nested classes are kept by
attribute. -/
structure PerPlace (α : Type) where
  header : α
  fields : List α
  methods : List α
  nested : List (List α)
deriving DecidableEq, Repr

namespace PerPlace

variable {α β : Type}

/-- The values in the order of a walk. -/
def toList (values : PerPlace α) : List α :=
  values.header :: (values.fields ++ values.methods ++ values.nested.flatten)

/-- Applies a function to each value. -/
def map (apply : α → β) (values : PerPlace α) : PerPlace β where
  header := apply values.header
  fields := values.fields.map apply
  methods := values.methods.map apply
  nested := values.nested.map (List.map apply)

/-- Replaces each value by the result of an action, in the order of a walk. -/
def mapM {m : Type → Type} [Monad m] (action : α → m β) (values : PerPlace α) :
    m (PerPlace β) := do
  let header ← action values.header
  let fields ← values.fields.mapM action
  let methods ← values.methods.mapM action
  let nested ← values.nested.mapM (List.mapM action)
  return { header, fields, methods, nested }

/-- Replaced values stand in the same order. -/
theorem toList_map (apply : α → β) (values : PerPlace α) :
    (values.map apply).toList = values.toList.map apply := by
  simp only [toList, map, List.map_cons, List.map_append, List.map_flatten]

/-- Functions that agree on the values replace them alike. -/
theorem map_congr {values : PerPlace α} {left right : α → β}
    (same : ∀ value ∈ values.toList, left value = right value) :
    values.map left = values.map right := by
  obtain ⟨header, fields, methods, nested⟩ := values
  simp only [toList, List.mem_cons, List.mem_append, List.mem_flatten] at same
  have ofFields : fields.map left = fields.map right :=
    List.map_congr_left fun value member => same value (.inr (.inl (.inl member)))
  have ofMethods : methods.map left = methods.map right :=
    List.map_congr_left fun value member => same value (.inr (.inl (.inr member)))
  have ofNested : nested.map (List.map left) = nested.map (List.map right) :=
    List.map_congr_left fun values held => List.map_congr_left fun value member =>
      same value (.inr (.inr ⟨values, held, member⟩))
  rw [map, map, same header (.inl rfl), ofFields, ofMethods, ofNested]

/-- An action on a list whose results do not depend on the state gives them in order, and passes
the state through the values. -/
theorem run_list_mapM {σ : Type} {action : α → StateM σ β} {result : α → β} {advance : σ → α → σ}
    (acts : ∀ value state, (action value).run state = (result value, advance state value))
    (values : List α) (state : σ) :
    (values.mapM action).run state = (values.map result, values.foldl advance state) := by
  induction values generalizing state with
  | nil => rfl
  | cons value values ih =>
      rw [List.mapM_cons, StateT.run_bind, acts]
      change ((values.mapM action >>= fun later => pure (result value :: later)).run _) = _
      rw [StateT.run_bind, ih]
      rfl

/-- An action whose results do not depend on the state replaces each value by its result, and
passes the state through the values in the order of a walk. -/
theorem run_mapM {σ : Type} {action : α → StateM σ β} {result : α → β} {advance : σ → α → σ}
    (acts : ∀ value state, (action value).run state = (result value, advance state value))
    (values : PerPlace α) (state : σ) :
    (values.mapM action).run state = (values.map result, values.toList.foldl advance state) := by
  have lists := run_list_mapM acts
  have nested := run_list_mapM lists
  simp only [mapM, StateT.run_bind, acts, lists, nested]
  change (values.map result, _) = _
  have inOrder : values.toList.foldl advance state =
      values.nested.foldl (List.foldl advance)
        (values.methods.foldl advance
          (values.fields.foldl advance (advance state values.header))) := by
    rw [toList, List.foldl_cons, List.foldl_append, List.foldl_append, List.foldl_flatten]
  rw [inOrder]

end PerPlace

/-- The call for a field or a method. -/
def memberCall (pool : Pool) (subject : String → String → Subject) (member : Member) :
    Except Fault Call := do
  let name ← pool.text member.name
  let descriptor ← pool.text member.descriptor
  return ⟨subject name descriptor, member.access⟩

/-- The call for an entry of a nested class. -/
def nestedCall (pool : Pool) (entry : NestedClass) : Except Fault Call := do
  let name ← pool.className entry.self
  return ⟨.nested name, entry.access⟩

/-- The call for a member is made of its resolved names and its word. -/
theorem memberCall_eq_ok_iff {pool : Pool} {subject : String → String → Subject}
    {member : Member} {call : Call} :
    memberCall pool subject member = .ok call ↔
      ∃ name descriptor, pool.text member.name = .ok name ∧
        pool.text member.descriptor = .ok descriptor ∧
        call = ⟨subject name descriptor, member.access⟩ := by
  simp only [memberCall, bind_eq_ok_iff]
  constructor
  · rintro ⟨name, named, descriptor, described, same⟩
    cases same
    exact ⟨name, descriptor, named, described, rfl⟩
  · rintro ⟨name, descriptor, named, described, rfl⟩
    exact ⟨name, named, descriptor, described, rfl⟩

/-- The call for an entry is made of the name of its class and its word. -/
theorem nestedCall_eq_ok_iff {pool : Pool} {entry : NestedClass} {call : Call} :
    nestedCall pool entry = .ok call ↔
      ∃ name, pool.className entry.self = .ok name ∧ call = ⟨.nested name, entry.access⟩ := by
  simp only [nestedCall, bind_eq_ok_iff]
  constructor
  · rintro ⟨name, named, same⟩
    cases same
    exact ⟨name, named, rfl⟩
  · rintro ⟨name, named, rfl⟩
    exact ⟨name, named, rfl⟩

/-- The calls for the entries of an attribute, of which only one of nested classes has any. -/
def attributeCalls (pool : Pool) (block : Attribute) : Except Fault (List Call) := do
  let name ← pool.text block.name
  if name ≠ NestedClass.attributeName then return []
  let entries ← NestedClass.ofInfo block.info
  entries.mapM (nestedCall pool)

/-- The calls for a class file, or the first fault on the way. -/
def calls (file : ClassFile) : Except Fault (PerPlace Call) := do
  let name ← file.name
  let fields ← file.fields.mapM (memberCall file.constants .field)
  let methods ← file.methods.mapM (memberCall file.constants .method)
  let nested ← file.attributes.mapM (attributeCalls file.constants)
  return { header := ⟨.header name, file.access⟩, fields, methods, nested }

/-- Calls are planned for each part of a class file on its own, in stored order. -/
theorem calls_eq_ok_iff {file : ClassFile} {calls : PerPlace Call} :
    file.calls = .ok calls ↔
      (∃ name, file.name = .ok name ∧ calls.header = ⟨.header name, file.access⟩) ∧
      List.Forall₂ (fun member call => memberCall file.constants .field member = .ok call)
        file.fields calls.fields ∧
      List.Forall₂ (fun member call => memberCall file.constants .method member = .ok call)
        file.methods calls.methods ∧
      List.Forall₂ (fun block calls => attributeCalls file.constants block = .ok calls)
        file.attributes calls.nested := by
  simp only [ClassFile.calls, bind_eq_ok_iff, mapM_eq_ok_iff]
  constructor
  · rintro ⟨name, named, fields, ofFields, methods, ofMethods, nested, ofNested, same⟩
    cases same
    exact ⟨⟨name, named, rfl⟩, ofFields, ofMethods, ofNested⟩
  · rintro ⟨⟨name, named, header⟩, ofFields, ofMethods, ofNested⟩
    refine ⟨name, named, _, ofFields, _, ofMethods, _, ofNested, ?_⟩
    rw [← header]
    rfl

/-- A member with another access word. -/
def Member.withAccess (member : Member) (access : UInt16) : Member := { member with access }

/-- An entry of a nested class with another access word. -/
def NestedClass.withAccess (entry : NestedClass) (access : UInt16) : NestedClass :=
  { entry with access }

/-- The entries of an attribute, if it is one of nested classes. -/
def nestedEntries? (pool : Pool) (block : Attribute) : Option (List NestedClass) :=
  match pool.text block.name with
  | .ok name =>
      if name = NestedClass.attributeName then (NestedClass.ofInfo block.info).toOption else none
  | .error _ => none

/-- An attribute with other access words in its entries. -/
def attributeWithAccess (pool : Pool) (block : Attribute) (words : List UInt16) : Attribute :=
  match nestedEntries? pool block with
  | some entries =>
      { block with info := NestedClass.toInfo (entries.zipWith NestedClass.withAccess words) }
  | none => block

/-- Entries are held by attributes of one name, whose bytes are made up of entries. -/
theorem nestedEntries?_eq_some_iff {pool : Pool} {block : Attribute}
    {entries : List NestedClass} :
    nestedEntries? pool block = some entries ↔
      pool.text block.name = .ok NestedClass.attributeName ∧
        NestedClass.ofInfo block.info = .ok entries := by
  rw [nestedEntries?]
  cases pool.text block.name with
  | error fault => simp
  | ok name =>
      by_cases holds : name = NestedClass.attributeName
      · cases NestedClass.ofInfo block.info with
        | error fault => simp [holds, Except.toOption]
        | ok held => simp [holds, Except.toOption]
      · simp [holds]

/-- Attributes with other names have no entries. -/
theorem nestedEntries?_of_ne {pool : Pool} {block : Attribute} {name : String}
    (named : pool.text block.name = .ok name) (differs : name ≠ NestedClass.attributeName) :
    nestedEntries? pool block = none := by
  rw [nestedEntries?, named]
  exact if_neg differs

/-- The entries of nested classes get the words in order. -/
theorem attributeWithAccess_of_entries {pool : Pool} {block : Attribute}
    {entries : List NestedClass} (held : nestedEntries? pool block = some entries)
    (words : List UInt16) :
    attributeWithAccess pool block words =
      { block with info := NestedClass.toInfo (entries.zipWith NestedClass.withAccess words) } := by
  rw [attributeWithAccess, held]

/-- Other attributes have no access words. -/
theorem attributeWithAccess_of_none {pool : Pool} {block : Attribute}
    (opaqueBlock : nestedEntries? pool block = none) (words : List UInt16) :
    attributeWithAccess pool block words = block := by
  rw [attributeWithAccess, opaqueBlock]

/-- An attribute has calls planned when it is one of nested classes whose names resolve, or has
another name and no calls. -/
theorem attributeCalls_cases {pool : Pool} {block : Attribute} {calls : List Call}
    (resolved : attributeCalls pool block = .ok calls) :
    (∃ entries, pool.text block.name = .ok NestedClass.attributeName ∧
      NestedClass.ofInfo block.info = .ok entries ∧ nestedEntries? pool block = some entries ∧
      entries.mapM (nestedCall pool) = .ok calls) ∨
    (∃ name, pool.text block.name = .ok name ∧ name ≠ NestedClass.attributeName ∧
      nestedEntries? pool block = none ∧ calls = []) := by
  obtain ⟨name, named, resolved⟩ := bind_eq_ok_iff.mp resolved
  by_cases holds : name = NestedClass.attributeName
  · rw [if_neg (not_not_intro holds)] at resolved
    obtain ⟨entries, held, resolved⟩ := bind_eq_ok_iff.mp resolved
    subst holds
    exact .inl ⟨entries, named, held, nestedEntries?_eq_some_iff.mpr ⟨named, held⟩, resolved⟩
  · rw [if_pos holds] at resolved
    cases resolved
    exact .inr ⟨name, named, holds, nestedEntries?_of_ne named holds, rfl⟩

/-- A class file with other access words. -/
def withAccess (file : ClassFile) (words : PerPlace UInt16) : ClassFile where
  version := file.version
  constants := file.constants
  access := words.header
  thisClass := file.thisClass
  superClass := file.superClass
  interfaces := file.interfaces
  fields := file.fields.zipWith Member.withAccess words.fields
  methods := file.methods.zipWith Member.withAccess words.methods
  attributes := file.attributes.zipWith (attributeWithAccess file.constants) words.nested

end ClassFile

end ClassAccess
