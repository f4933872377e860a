import ClassAccess.ClassFile.PoolBuilder
import ClassAccess.Proofs.Fallible
import ClassAccess.Proofs.SlotTable

/-!
# Steps of building a constant pool

What calls of a builder answer and leave, one after the other, whether they fail or
not. `Step` lists what a single call can do. From it follows that a builder only ever
grows: it keeps its constants where they are, and forgets no text and no class.

What stands at the slots that are answered is not described here.
-/

namespace ClassAccess.ClassFile.PoolBuilder

open Text

/-- What a builder can be asked for. -/
inductive Call where
  | push (constant : Constant)
  | text (value : String)
  | className (name : String)
deriving DecidableEq, Repr

/-- The request that a call makes. -/
def Call.request : Call → Request
  | push constant => PoolBuilder.push constant
  | text value => PoolBuilder.text value
  | className name => PoolBuilder.className name

/-- The answer to a call, and the builder that it leaves. -/
def Call.run (call : Call) (builder : PoolBuilder) : Except Overflow UInt16 × PoolBuilder :=
  call.request.run.run builder

/-- The builder that calls leave, each of which may have failed. -/
def after (builder : PoolBuilder) (calls : List Call) : PoolBuilder :=
  calls.foldl (fun builder call => (call.run builder).2) builder

/-- One of the calls of a new builder was answered with a slot. -/
def Answered (calls : List Call) (call : Call) (slot : UInt16) : Prop :=
  ∃ before later, calls = before ++ call :: later ∧ (call.run (empty.after before)).1 = .ok slot

/-- The slot that the next constant takes. -/
def nextSlot (builder : PoolBuilder) : UInt16 := UInt16.ofNat builder.pool.nextSlot

/-- A builder with one more constant. -/
def append (builder : PoolBuilder) (constant : Constant) : PoolBuilder :=
  { builder with pool := builder.pool.push constant }

/-- A builder that remembers the slot of a text. -/
def withText (builder : PoolBuilder) (value : String) (slot : UInt16) : PoolBuilder :=
  { builder with texts := builder.texts.insert value slot }

/-- A builder that remembers the slot of a class, by the slot of its name. -/
def withClass (builder : PoolBuilder) (name slot : UInt16) : PoolBuilder :=
  { builder with classes := builder.classes.insert name slot }

/-- What a call can do: answer from memory, append what is missing, or fail for want of room. The
name of a class is asked for first, and stays even if there is no room for the class. -/
inductive Step : PoolBuilder → Call → Except Overflow UInt16 → PoolBuilder → Prop where
  | pushed {builder : PoolBuilder} {constant : Constant}
      (room : builder.nextSlot.toNat + width constant ≤ maxSlot) :
      Step builder (.push constant) (.ok builder.nextSlot) (builder.append constant)
  | pushFailed {builder : PoolBuilder} {constant : Constant}
      (full : maxSlot < builder.nextSlot.toNat + width constant) :
      Step builder (.push constant) (.error ⟨constant, builder.nextSlot⟩) builder
  | textKnown {builder : PoolBuilder} {value : String} {slot : UInt16}
      (known : builder.texts[value]? = some slot) : Step builder (.text value) (.ok slot) builder
  | textAdded {builder left : PoolBuilder} {value : String} {slot : UInt16}
      (unknown : builder.texts[value]? = none)
      (pushed : Step builder (.push (.text (ModifiedUtf8.encode value))) (.ok slot) left) :
      Step builder (.text value) (.ok slot) (left.withText value slot)
  | textFailed {builder left : PoolBuilder} {value : String} {overflow : Overflow}
      (unknown : builder.texts[value]? = none)
      (failed : Step builder (.push (.text (ModifiedUtf8.encode value))) (.error overflow) left) :
      Step builder (.text value) (.error overflow) left
  | nameFailed {builder left : PoolBuilder} {name : String} {overflow : Overflow}
      (failed : Step builder (.text name) (.error overflow) left) :
      Step builder (.className name) (.error overflow) left
  | classKnown {builder named : PoolBuilder} {name : String} {nameSlot slot : UInt16}
      (ofName : Step builder (.text name) (.ok nameSlot) named)
      (known : named.classes[nameSlot]? = some slot) :
      Step builder (.className name) (.ok slot) named
  | classAdded {builder named left : PoolBuilder} {name : String} {nameSlot slot : UInt16}
      (ofName : Step builder (.text name) (.ok nameSlot) named)
      (unknown : named.classes[nameSlot]? = none)
      (pushed : Step named (.push (.classRef nameSlot)) (.ok slot) left) :
      Step builder (.className name) (.ok slot) (left.withClass nameSlot slot)
  | classFailed {builder named left : PoolBuilder} {name : String} {nameSlot : UInt16}
      {overflow : Overflow} (ofName : Step builder (.text name) (.ok nameSlot) named)
      (unknown : named.classes[nameSlot]? = none)
      (failed : Step named (.push (.classRef nameSlot)) (.error overflow) left) :
      Step builder (.className name) (.error overflow) left

variable {builder left later : PoolBuilder} {call : Call} {answer : Except Overflow UInt16}
  {constant : Constant} {slot : UInt16}

/-- There is no slot further on when it would be beyond the largest one. -/
theorem isNone_checkedAdd_iff {builder : PoolBuilder} {constant : Constant} :
    (checkedAdd (UInt16.ofNat builder.pool.nextSlot) (UInt16.ofNat (width constant))).isNone = true ↔
      maxSlot < builder.nextSlot.toNat + width constant := by
  have amount : (UInt16.ofNat (width constant)).toNat = width constant := by
    cases constant <;> rfl
  rw [checkedAdd, amount, nextSlot]
  split
  · next room =>
      rw [Option.isNone_some]
      exact ⟨fun impossible => absurd impossible Bool.false_ne_true,
        fun full => absurd room (Nat.not_le_of_lt full)⟩
  · next full => exact ⟨fun _ => Nat.lt_of_not_le full, fun _ => rfl⟩

/-- Appending goes by whether there is room. -/
theorem run_push (builder : PoolBuilder) (constant : Constant) :
    (Call.push constant).run builder =
      if maxSlot < builder.nextSlot.toNat + width constant then
        (.error ⟨constant, builder.nextSlot⟩, builder)
      else (.ok builder.nextSlot, builder.append constant) := by
  simp only [Call.run, Call.request]
  rw [push, run_get_bind]
  dsimp only
  by_cases full : maxSlot < builder.nextSlot.toNat + width constant
  · rw [if_pos full, if_pos (isNone_checkedAdd_iff.mpr full)]
    rfl
  · rw [if_neg full, if_neg (mt isNone_checkedAdd_iff.mp full)]
    rfl

/-- A text that is remembered is not appended again. -/
theorem run_text_of_known {value : String} (known : builder.texts[value]? = some slot) :
    (Call.text value).run builder = (.ok slot, builder) := by
  simp only [Call.run, Call.request]
  rw [text, run_get_bind, known]
  rfl

/-- A text that is not remembered is appended, and remembered if there was room. -/
theorem run_text_of_unknown {value : String} (unknown : builder.texts[value]? = none) :
    (Call.text value).run builder =
      match (Call.push (.text (ModifiedUtf8.encode value))).run builder with
      | (.ok slot, left) => (.ok slot, left.withText value slot)
      | (.error overflow, left) => (.error overflow, left) := by
  simp only [Call.run, Call.request]
  rw [text, run_get_bind, unknown]
  dsimp only
  rw [run_bind]
  rcases StateT.run (ExceptT.run (push (.text (ModifiedUtf8.encode value)))) builder with
    ⟨overflow | slot, left⟩ <;> rfl

/-- The name of a class comes before the class. -/
theorem run_className (builder : PoolBuilder) (name : String) :
    (Call.className name).run builder =
      match (Call.text name).run builder with
      | (.ok nameSlot, named) =>
          match named.classes[nameSlot]? with
          | some slot => (.ok slot, named)
          | none =>
              match (Call.push (.classRef nameSlot)).run named with
              | (.ok slot, left) => (.ok slot, left.withClass nameSlot slot)
              | (.error overflow, left) => (.error overflow, left)
      | (.error overflow, left) => (.error overflow, left) := by
  simp only [Call.run, Call.request]
  rw [className, run_bind]
  cases StateT.run (ExceptT.run (text name)) builder with
  | mk result named =>
      cases result with
      | error overflow => rfl
      | ok nameSlot =>
          dsimp only
          rw [run_get_bind]
          cases named.classes[nameSlot]? with
          | some slot => rfl
          | none =>
              dsimp only
              rw [run_bind]
              rcases StateT.run (ExceptT.run (push (.classRef nameSlot))) named with
                ⟨overflow | slot, left⟩ <;> rfl

/-- Appending a constant is a step. -/
theorem step_push (constant : Constant) (builder : PoolBuilder) :
    Step builder (.push constant) ((Call.push constant).run builder).1
      ((Call.push constant).run builder).2 := by
  rw [run_push]
  split
  · next full => exact .pushFailed full
  · next room => exact .pushed (Nat.le_of_not_lt room)

/-- Asking for a text is a step. -/
theorem step_text (value : String) (builder : PoolBuilder) :
    Step builder (.text value) ((Call.text value).run builder).1
      ((Call.text value).run builder).2 := by
  cases known : builder.texts[value]? with
  | some slot =>
      rw [run_text_of_known known]
      exact .textKnown known
  | none =>
      have pushed := step_push (.text (ModifiedUtf8.encode value)) builder
      rw [run_text_of_unknown known]
      cases ran : (Call.push (.text (ModifiedUtf8.encode value))).run builder with
      | mk result left =>
          rw [ran] at pushed
          cases result with
          | ok slot => exact .textAdded known pushed
          | error overflow => exact .textFailed known pushed

/-- Asking for a class is a step. -/
theorem step_className (name : String) (builder : PoolBuilder) :
    Step builder (.className name) ((Call.className name).run builder).1
      ((Call.className name).run builder).2 := by
  have ofName := step_text name builder
  rw [run_className]
  cases ran : (Call.text name).run builder with
  | mk result named =>
      rw [ran] at ofName
      cases result with
      | error overflow => exact .nameFailed ofName
      | ok nameSlot =>
          dsimp only
          cases known : named.classes[nameSlot]? with
          | some slot => exact .classKnown ofName known
          | none =>
              have pushed := step_push (.classRef nameSlot) named
              dsimp only
              cases ran : (Call.push (.classRef nameSlot)).run named with
              | mk result left =>
                  rw [ran] at pushed
                  cases result with
                  | ok slot => exact .classAdded ofName known pushed
                  | error overflow => exact .classFailed ofName known pushed

/-- A call does what it can do. -/
theorem step_run (call : Call) (builder : PoolBuilder) :
    Step builder call (call.run builder).1 (call.run builder).2 := by
  cases call with
  | push constant => exact step_push constant builder
  | text value => exact step_text value builder
  | className name => exact step_className name builder

/-- A step is the only one that its call can take. -/
theorem Step.run_eq (step : Step builder call answer left) : call.run builder = (answer, left) := by
  induction step with
  | pushed room => rw [run_push, if_neg (Nat.not_lt_of_le room)]
  | pushFailed full => rw [run_push, if_pos full]
  | textKnown known => exact run_text_of_known known
  | textAdded unknown pushed ih => rw [run_text_of_unknown unknown, ih]
  | textFailed unknown failed ih => rw [run_text_of_unknown unknown, ih]
  | nameFailed failed ih => rw [run_className, ih]
  | classKnown ofName known ih =>
      rw [run_className, ih]
      dsimp only
      rw [known]
  | classAdded ofName unknown pushed ih ihPushed =>
      rw [run_className, ih]
      dsimp only
      rw [unknown]
      dsimp only
      rw [ihPushed]
  | classFailed ofName unknown failed ih ihFailed =>
      rw [run_className, ih]
      dsimp only
      rw [unknown]
      dsimp only
      rw [ihFailed]

/-- A builder has the constants of another one, and more behind them. What the other one remembers
is still remembered. -/
structure Extends (builder later : PoolBuilder) : Prop where
  pool : ∃ added, later.pool = builder.pool.pushAll added
  texts : ∀ (value : String) (slot : UInt16), builder.texts[value]? = some slot →
    later.texts[value]? = some slot
  classes : ∀ name slot : UInt16, builder.classes[name]? = some slot →
    later.classes[name]? = some slot

/-- A builder extends itself. -/
theorem Extends.refl (builder : PoolBuilder) : Extends builder builder where
  pool := ⟨[], rfl⟩
  texts := fun _ _ known => known
  classes := fun _ _ known => known

/-- What extends an extension extends the first one. -/
theorem Extends.trans (first : Extends builder left) (second : Extends left later) :
    Extends builder later where
  pool := by
    obtain ⟨added, grown⟩ := first.pool
    obtain ⟨more, grownAgain⟩ := second.pool
    refine ⟨added ++ more, ?_⟩
    rw [grownAgain, grown, SlotTable.pushAll, SlotTable.pushAll, SlotTable.pushAll,
      List.foldl_append]
  texts := fun value slot known => second.texts value slot (first.texts value slot known)
  classes := fun name slot known => second.classes name slot (first.classes name slot known)

/-- A builder with one more constant extends the one without. -/
theorem extends_append (builder : PoolBuilder) (constant : Constant) :
    Extends builder (builder.append constant) where
  pool := ⟨[constant], rfl⟩
  texts := fun _ _ known => known
  classes := fun _ _ known => known

/-- Remembering a new text forgets no other. -/
theorem extends_withText {value : String} (unknown : builder.texts[value]? = none)
    (slot : UInt16) : Extends builder (builder.withText value slot) where
  pool := ⟨[], rfl⟩
  texts := by
    intro other otherSlot known
    rw [withText, Std.HashMap.getElem?_insert, if_neg]
    · exact known
    · intro same
      rw [beq_iff_eq.mp same, known] at unknown
      cases unknown
  classes := fun _ _ known => known

/-- Remembering a new class forgets no other. -/
theorem extends_withClass {name : UInt16} (unknown : builder.classes[name]? = none)
    (slot : UInt16) : Extends builder (builder.withClass name slot) where
  pool := ⟨[], rfl⟩
  texts := fun _ _ known => known
  classes := by
    intro other otherSlot known
    rw [withClass, Std.HashMap.getElem?_insert, if_neg]
    · exact known
    · intro same
      rw [beq_iff_eq.mp same, known] at unknown
      cases unknown

/-- A builder is extended by whatever a call leaves. -/
theorem Step.extends (step : Step builder call answer left) : Extends builder left := by
  induction step with
  | pushed room => exact extends_append _ _
  | pushFailed full => exact .refl _
  | textKnown known => exact .refl _
  | @textAdded builder left value slot unknown pushed ih =>
      have still : left.texts[value]? = none := by
        cases pushed with
        | pushed room => exact unknown
      exact ih.trans (extends_withText still slot)
  | textFailed unknown failed ih => exact ih
  | nameFailed failed ih => exact ih
  | classKnown ofName known ih => exact ih
  | @classAdded builder named left name nameSlot slot ofName unknown pushed ih ihPushed =>
      have still : left.classes[nameSlot]? = none := by
        cases pushed with
        | pushed room => exact unknown
      exact (ih.trans ihPushed).trans (extends_withClass still slot)
  | classFailed ofName unknown failed ih ihFailed => exact ih.trans ihFailed

/-- A text that was answered is remembered. -/
theorem Step.texts_eq {value : String} (step : Step builder (.text value) (.ok slot) left) :
    left.texts[value]? = some slot := by
  cases step with
  | textKnown known => exact known
  | textAdded unknown pushed => exact Std.HashMap.getElem?_insert_self

/-- Calls leave what the last of them leaves. -/
theorem after_append (builder : PoolBuilder) (calls more : List Call) :
    builder.after (calls ++ more) = (builder.after calls).after more := List.foldl_append

/-- A builder is extended, whatever it is asked for. -/
theorem extends_after (builder : PoolBuilder) (calls : List Call) :
    Extends builder (builder.after calls) := by
  induction calls generalizing builder with
  | nil => exact .refl builder
  | cons call later ih => exact (step_run call builder).extends.trans (ih _)

end ClassAccess.ClassFile.PoolBuilder
