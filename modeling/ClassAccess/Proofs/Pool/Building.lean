import ClassAccess.Proofs.Pool.Steps
import ClassAccess.Proofs.Text.ModifiedUtf8

/-!
# Building constant pools

A builder stays sound, whatever it is asked for: the texts and classes that it
remembers stand at their slots. As it only ever grows, what it answered once is there
in the end, and is answered again.

How the finished pool is stored is not described here.
-/

namespace ClassAccess.ClassFile.PoolBuilder

open Text

variable {builder left later : PoolBuilder} {call : Call} {answer : Except Overflow UInt16}
  {constant : Constant} {slot : UInt16} {calls : List Call}

/-- What a builder remembers stands at its slot, and no slot is beyond the largest one. -/
structure Sound (builder : PoolBuilder) : Prop where
  built : ∃ constants, builder.pool = SlotTable.ofList 1 constants
  bounded : builder.pool.nextSlot ≤ maxSlot
  texts : ∀ (value : String) (slot : UInt16), builder.texts[value]? = some slot →
    builder.pool.get? slot.toNat = some (.text (ModifiedUtf8.encode value))
  classes : ∀ name slot : UInt16, builder.classes[name]? = some slot →
    builder.pool.get? slot.toNat = some (.classRef name)

/-- The constants of a sound builder are in order. -/
theorem Sound.ordered (sound : Sound builder) : builder.pool.Ordered := by
  obtain ⟨constants, built⟩ := sound.built
  rw [built]
  exact (SlotTable.ordered_startingAt 1).pushAll fun constant _ => constant.width_pos

/-- The slot that the next constant takes is a slot. -/
theorem Sound.toNat_nextSlot (sound : Sound builder) :
    builder.nextSlot.toNat = builder.pool.nextSlot :=
  UInt16.toNat_ofNat_of_lt' (Nat.lt_succ_of_le sound.bounded)

/-- The slots of a sound builder are taken up by the widths of its constants. -/
theorem Sound.nextSlot_eq (sound : Sound builder) :
    builder.pool.nextSlot = 1 + (builder.pool.values.map width).sum := by
  obtain ⟨constants, built⟩ := sound.built
  rw [built, SlotTable.ofList, SlotTable.nextSlot_pushAll, SlotTable.values_pushAll]
  rfl

/-- The count in front of a stored pool is that of its slots. -/
theorem Sound.write_eq (sound : Sound builder) : builder.pool.write =
    bigEndian 2 builder.pool.nextSlot ++ builder.pool.values.flatMap Constant.write := by
  have count : write builder.nextSlot = bigEndian 2 builder.nextSlot.toNat := rfl
  rw [← sound.toNat_nextSlot, ← count]
  rfl

/-- A constant that is appended takes the next slot. -/
theorem Sound.of_run_push (sound : Sound builder)
    (ran : (Call.push constant).run builder = (.ok slot, left)) :
    slot.toNat = builder.pool.nextSlot ∧ left = builder.append constant := by
  rw [run_push] at ran
  split at ran
  · cases ran
  · cases ran
    exact ⟨sound.toNat_nextSlot, rfl⟩

/-- A constant stays where it is when a builder is extended. -/
theorem Sound.get?_of_extends (sound : Sound builder) (grown : Extends builder later) {slot : Nat}
    (found : builder.pool.get? slot = some constant) : later.pool.get? slot = some constant := by
  obtain ⟨added, same⟩ := grown.pool
  rw [same]
  exact sound.ordered.get?_pushAll (fun constant _ => constant.width_pos) found

/-- An appended constant stands at the slot that was the next one. -/
theorem Sound.get?_append (sound : Sound builder) (constant : Constant) :
    (builder.append constant).pool.get? builder.nextSlot.toNat = some constant := by
  rw [sound.toNat_nextSlot]
  exact sound.ordered.get?_push constant.width_pos

/-- A builder stays sound when a constant is appended for which there is room. -/
theorem Sound.append (sound : Sound builder)
    (room : builder.nextSlot.toNat + width constant ≤ maxSlot) : Sound (builder.append constant) := by
  rw [sound.toNat_nextSlot] at room
  have stays {slot : Nat} {other : Constant} (found : builder.pool.get? slot = some other) :
      (builder.append constant).pool.get? slot = some other :=
    sound.get?_of_extends (extends_append builder constant) found
  refine ⟨?_, room, fun value slot known => stays (sound.texts value slot known),
    fun name slot known => stays (sound.classes name slot known)⟩
  obtain ⟨constants, built⟩ := sound.built
  refine ⟨constants ++ [constant], ?_⟩
  rw [PoolBuilder.append, built, SlotTable.ofList, SlotTable.ofList, SlotTable.pushAll,
    SlotTable.pushAll, List.foldl_append]
  rfl

/-- A builder stays sound when it remembers the slot at which a text stands. -/
theorem Sound.withText (sound : Sound builder) {value : String}
    (found : builder.pool.get? slot.toNat = some (.text (ModifiedUtf8.encode value))) :
    Sound (builder.withText value slot) := by
  refine ⟨sound.built, sound.bounded, fun other otherSlot known => ?_, sound.classes⟩
  rw [PoolBuilder.withText, Std.HashMap.getElem?_insert] at known
  split at known
  · next same =>
      cases known
      rw [← beq_iff_eq.mp same]
      exact found
  · exact sound.texts other otherSlot known

/-- A builder stays sound when it remembers the slot at which a class stands. -/
theorem Sound.withClass (sound : Sound builder) {name : UInt16}
    (found : builder.pool.get? slot.toNat = some (.classRef name)) :
    Sound (builder.withClass name slot) := by
  refine ⟨sound.built, sound.bounded, sound.texts, fun other otherSlot known => ?_⟩
  rw [PoolBuilder.withClass, Std.HashMap.getElem?_insert] at known
  split at known
  · next same =>
      cases known
      rw [← beq_iff_eq.mp same]
      exact found
  · exact sound.classes other otherSlot known

/-- A call leaves a sound builder. -/
theorem Step.sound (step : Step builder call answer left) (sound : Sound builder) : Sound left := by
  induction step with
  | pushed room => exact sound.append room
  | pushFailed full => exact sound
  | textKnown known => exact sound
  | textAdded unknown pushed ih =>
      cases pushed with
      | pushed room => exact (ih sound).withText (sound.get?_append _)
  | textFailed unknown failed ih => exact ih sound
  | nameFailed failed ih => exact ih sound
  | classKnown ofName known ih => exact ih sound
  | classAdded ofName unknown pushed ih ihPushed =>
      cases pushed with
      | pushed room => exact (ihPushed (ih sound)).withClass ((ih sound).get?_append _)
  | classFailed ofName unknown failed ih ihFailed => exact ihFailed (ih sound)

/-- A new builder is sound. -/
theorem sound_empty : Sound empty where
  built := ⟨[], rfl⟩
  bounded := by decide
  texts := by simp [empty]
  classes := by simp [empty]

/-- A builder stays sound, whatever it is asked for. -/
theorem Sound.after (sound : Sound builder) (calls : List Call) : Sound (builder.after calls) := by
  induction calls generalizing builder with
  | nil => exact sound
  | cons call later ih => exact ih ((step_run call builder).sound sound)

/-- What a builder knows of a call that it answered: what stands at the slot, and for texts and
classes that they were asked for. -/
inductive Knows (builder : PoolBuilder) : Call → UInt16 → Prop where
  | push {constant : Constant} {slot : UInt16}
      (found : builder.pool.get? slot.toNat = some constant) : Knows builder (.push constant) slot
  | text {value : String} {slot : UInt16} (known : builder.texts[value]? = some slot) :
      Knows builder (.text value) slot
  | className {name : String} {nameSlot slot : UInt16}
      (ofName : builder.texts[name]? = some nameSlot)
      (known : builder.classes[nameSlot]? = some slot) : Knows builder (.className name) slot

/-- What is known stays known. -/
theorem Knows.of_extends (knows : Knows builder call slot) (sound : Sound builder)
    (grown : Extends builder later) : Knows later call slot := by
  cases knows with
  | push found => exact .push (sound.get?_of_extends grown found)
  | text known => exact .text (grown.texts _ _ known)
  | className ofName known => exact .className (grown.texts _ _ ofName) (grown.classes _ _ known)

/-- A builder knows of the call that it just answered. -/
theorem Step.knows (step : Step builder call (.ok slot) left) (sound : Sound builder) :
    Knows left call slot := by
  cases step with
  | pushed room => exact .push (sound.get?_append _)
  | textKnown known => exact .text known
  | textAdded unknown pushed => exact .text Std.HashMap.getElem?_insert_self
  | classKnown ofName known => exact .className ofName.texts_eq known
  | classAdded ofName unknown pushed =>
      refine .className ?_ Std.HashMap.getElem?_insert_self
      exact pushed.extends.texts _ _ ofName.texts_eq

/-- A builder knows of every call that was answered so far. -/
theorem Answered.knows (answered : Answered calls call slot) :
    Knows (empty.after calls) call slot := by
  obtain ⟨before, later, rfl, ok⟩ := answered
  have sound := sound_empty.after before
  have step := step_run call (empty.after before)
  rw [ok] at step
  rw [after_append]
  exact (step.knows sound).of_extends (step.sound sound) (extends_after _ later)

/-- Calls that were answered still are when more calls are made. -/
theorem Answered.append (answered : Answered calls call slot)
    (more : List Call) : Answered (calls ++ more) call slot := by
  obtain ⟨before, later, rfl, ok⟩ := answered
  exact ⟨before, later ++ more, by simp, ok⟩

/-- What stands at the slot with which a call was answered. A class stands for the text at the slot
that it names. -/
inductive Designates (pool : Pool) : Call → UInt16 → Constant → Prop where
  | push {constant : Constant} {slot : UInt16} (found : pool.get? slot.toNat = some constant) :
      Designates pool (.push constant) slot constant
  | text {value : String} {slot : UInt16}
      (found : pool.get? slot.toNat = some (.text (ModifiedUtf8.encode value))) :
      Designates pool (.text value) slot (.text (ModifiedUtf8.encode value))
  | className {name : String} {nameSlot slot : UInt16}
      (found : pool.get? slot.toNat = some (.classRef nameSlot))
      (ofName : pool.get? nameSlot.toNat = some (.text (ModifiedUtf8.encode name))) :
      Designates pool (.className name) slot (.classRef nameSlot)

/-- What a sound builder knows of is what stands at the slot. -/
theorem Knows.exists_designates (knows : Knows builder call slot) (sound : Sound builder) :
    ∃ constant, ∀ later, Extends builder later → Designates later.pool call slot constant := by
  cases knows with
  | push found => exact ⟨_, fun later grown => .push (sound.get?_of_extends grown found)⟩
  | text known =>
      have found := sound.texts _ _ known
      exact ⟨_, fun later grown => .text (sound.get?_of_extends grown found)⟩
  | className ofName known =>
      have found := sound.classes _ _ known
      have name := sound.texts _ _ ofName
      exact ⟨_, fun later grown => .className (sound.get?_of_extends grown found)
        (sound.get?_of_extends grown name)⟩

/-- A builder that knows of a text or a class gives the same slot again, and stays as it is. -/
theorem Knows.run_again (knows : Knows builder call slot)
    (remembered : ∀ constant, call ≠ .push constant) :
    call.run builder = (.ok slot, builder) := by
  cases knows with
  | push found => exact absurd rfl (remembered _)
  | text known => exact run_text_of_known known
  | className ofName known =>
      rw [run_className, run_text_of_known ofName]
      dsimp only
      rw [known]

/-- The text at the slot of a text is the text. -/
theorem Designates.text_eq {pool : Pool} {value : String}
    (designates : Designates pool (.text value) slot constant) : pool.text slot = .ok value := by
  cases designates with
  | text found => simp only [Pool.text, found, ModifiedUtf8.decode_encode]

/-- The name of the class at the slot of a class is the name. -/
theorem Designates.className_eq {pool : Pool} {name : String}
    (designates : Designates pool (.className name) slot constant) :
    pool.className slot = .ok name := by
  cases designates with
  | className found ofName =>
      simp only [Pool.className, found]
      exact (Designates.text ofName).text_eq

/-- What stands at the slot of an answer stays there when more calls are made. -/
theorem Answered.exists_designates (answered : Answered calls call slot) :
    ∃ constant, ∀ later, Designates (empty.after (calls ++ later)).pool call slot constant := by
  obtain ⟨constant, stands⟩ := answered.knows.exists_designates (sound_empty.after calls)
  refine ⟨constant, fun later => ?_⟩
  rw [after_append]
  exact stands _ (extends_after _ later)

/-- A text that was answered is given back. -/
theorem Answered.text_eq {value : String} (answered : Answered calls (.text value) slot) :
    (empty.after calls).pool.text slot = .ok value := by
  obtain ⟨constant, stands⟩ := answered.knows.exists_designates (sound_empty.after calls)
  exact (stands _ (.refl _)).text_eq

/-- The name of a class that was answered is given back. -/
theorem Answered.className_eq {name : String} (answered : Answered calls (.className name) slot) :
    (empty.after calls).pool.className slot = .ok name := by
  obtain ⟨constant, stands⟩ := answered.knows.exists_designates (sound_empty.after calls)
  exact (stands _ (.refl _)).className_eq

/-- A constant that a call is for and that the builder does not have yet. A class is sought once
its name has a slot. -/
inductive Lacks (builder : PoolBuilder) : Call → Constant → Prop where
  | push {constant : Constant} : Lacks builder (.push constant) constant
  | text {value : String} (unknown : builder.texts[value]? = none) :
      Lacks builder (.text value) (.text (ModifiedUtf8.encode value))
  | name {name : String} (unknown : builder.texts[name]? = none) :
      Lacks builder (.className name) (.text (ModifiedUtf8.encode name))
  | className {name : String} {nameSlot : UInt16} (ofName : builder.texts[name]? = some nameSlot)
      (unknown : builder.classes[nameSlot]? = none) :
      Lacks builder (.className name) (.classRef nameSlot)

/-- What it takes for a call to fail: a constant that is lacking has no room. Nothing has changed,
unless it was the name of the class that found room. -/
structure Refused (builder : PoolBuilder) (call : Call) (overflow : Overflow)
    (left : PoolBuilder) : Prop where
  lacking : Lacks left call overflow.constant
  full : maxSlot < left.pool.nextSlot + width overflow.constant
  slot : overflow.slot = left.nextSlot
  unchanged : (∀ name, call ≠ .className name) → left = builder
  ofName : ∀ name, call = .className name → left = ((Call.text name).run builder).2

/-- A call that fails has met a lack of room. -/
theorem Step.refused {overflow : Overflow} (step : Step builder call (.error overflow) left)
    (sound : Sound builder) : Refused builder call overflow left := by
  cases step with
  | pushFailed full =>
      rw [sound.toNat_nextSlot] at full
      exact ⟨.push, full, rfl, fun _ => rfl, by simp⟩
  | textFailed unknown failed =>
      cases failed with
      | pushFailed full =>
          rw [sound.toNat_nextSlot] at full
          exact ⟨.text unknown, full, rfl, fun _ => rfl, by simp⟩
  | @nameFailed builder left name overflow failed =>
      have ofName : left = ((Call.text name).run builder).2 := by rw [failed.run_eq]
      cases failed with
      | textFailed unknown failed =>
          cases failed with
          | pushFailed full =>
              rw [sound.toNat_nextSlot] at full
              refine ⟨.name unknown, full, rfl, fun _ => rfl, fun other same => ?_⟩
              cases same
              exact ofName
  | classFailed named unknown failed =>
      cases failed with
      | pushFailed full =>
          rw [(named.sound sound).toNat_nextSlot] at full
          refine ⟨.className named.texts_eq unknown, full, rfl, fun other => ?_,
            fun other same => ?_⟩
          · exact absurd rfl (other _)
          · cases same
            rw [named.run_eq]

/-- What is so of a new builder that was asked for some things, answered or not: the next free slot
is counted without loss, whatever was answered stays where it is, and is given again and given
back. -/
structure Invariant (calls : List Call) : Prop where
  counted : (empty.after calls).pool.nextSlot =
    1 + ((empty.after calls).pool.values.map width).sum
  bounded : (empty.after calls).pool.nextSlot ≤ maxSlot
  uncut : (empty.after calls).nextSlot.toNat = (empty.after calls).pool.nextSlot
  stored : (empty.after calls).pool.write =
    bigEndian 2 (empty.after calls).pool.nextSlot ++
      (empty.after calls).pool.values.flatMap Constant.write
  pushed : ∀ constant slot left, (Call.push constant).run (empty.after calls) = (.ok slot, left) →
    slot.toNat = (empty.after calls).pool.nextSlot ∧
      left = (empty.after calls).append constant
  refused : ∀ call overflow left, call.run (empty.after calls) = (.error overflow, left) →
    Refused (empty.after calls) call overflow left
  designated : ∀ call slot, Answered calls call slot → ∃ constant, ∀ later,
    Designates (empty.after (calls ++ later)).pool call slot constant
  again : ∀ call slot, Answered calls call slot → (∀ constant, call ≠ .push constant) →
    call.run (empty.after calls) = (.ok slot, empty.after calls)
  textsApart : ∀ value other slot, Answered calls (.text value) slot →
    Answered calls (.text other) slot → value = other
  classesApart : ∀ name other slot, Answered calls (.className name) slot →
    Answered calls (.className other) slot → name = other
  text : ∀ value slot, Answered calls (.text value) slot →
    (empty.after calls).pool.text slot = .ok value
  className : ∀ name slot, Answered calls (.className name) slot →
    (empty.after calls).pool.className slot = .ok name

/-- A builder counts its slots without loss, and stands by all of its answers. -/
theorem invariant_of_calls (calls : List Call) : Invariant calls := by
  have sound : Sound (empty.after calls) := sound_empty.after calls
  refine {
    counted := sound.nextSlot_eq
    bounded := sound.bounded
    uncut := sound.toNat_nextSlot
    stored := sound.write_eq
    pushed := fun constant slot left => sound.of_run_push
    refused := ?_
    designated := fun call slot => Answered.exists_designates
    again := fun call slot answered => answered.knows.run_again
    textsApart := ?_
    classesApart := ?_
    text := fun value slot => Answered.text_eq
    className := fun name slot => Answered.className_eq }
  · intro call overflow left ran
    have step := step_run call (empty.after calls)
    rw [ran] at step
    exact step.refused sound
  · intro value other slot answered otherAnswered
    have same := answered.text_eq
    rw [otherAnswered.text_eq] at same
    cases same
    rfl
  · intro name other slot answered otherAnswered
    have same := answered.className_eq
    rw [otherAnswered.className_eq] at same
    cases same
    rfl

end ClassAccess.ClassFile.PoolBuilder
