import ClassAccess.Proofs.Pool.Building
import ClassAccess.Proofs.Storage
import ClassAccess.Proofs.Text.Forms

/-!
# What survives of a built pool

A builder counts slots but not the bytes of a text, whose stored length has only two
bytes. A pool that was built is read back whole, with all of its texts and classes, as
long as none of the texts takes more than 65535 bytes; a longer text is accepted all the
same, and no pool that is read from the stored bytes gives it back.
-/

namespace ClassAccess.ClassFile.PoolBuilder

open Text

variable {builder left : PoolBuilder} {call : Call} {answer : Except Overflow UInt16}
  {calls : List Call} {bytes : List UInt8} {value : String}

/-- A text that was appended, be it on its own or for the name of a class. -/
def Holds (calls : List Call) (value : String) : Prop :=
  ∃ slot, (empty.after calls).texts[value]? = some slot

/-- The stored length of a text can be told from its two bytes. -/
def Fits (value : String) : Prop := (ModifiedUtf8.encode value).length ≤ 65535

instance (value : String) : Decidable (Fits value) := inferInstanceAs (Decidable (_ ≤ _))

/-- The pool that calls leave is read back from its stored form, to the last byte, and gives every
text and class that was answered. -/
def Recovered (calls : List Call) : Prop :=
  ∃ pool : Pool, Reads Pool.read (empty.after calls).pool.write pool [] ∧
    (∀ value slot, Answered calls (.text value) slot → pool.text slot = .ok value) ∧
    ∀ name slot, Answered calls (.className name) slot → pool.className slot = .ok name

/-- A constant that is appended is added to the others. -/
theorem mem_values_append {constant added : Constant} :
    constant ∈ (builder.append added).pool.values ↔
      constant ∈ builder.pool.values ∨ constant = added := by
  change constant ∈ (builder.pool.push added).values ↔ _
  rw [SlotTable.values_push, List.mem_append, List.mem_singleton]

/-- What a call for a class does to texts is what the call for its name does. -/
theorem Step.exists_named {name : String} (step : Step builder (.className name) answer left) :
    ∃ nameAnswer named, Step builder (.text name) nameAnswer named ∧ left.texts = named.texts ∧
      ∀ bytes, .text bytes ∈ left.pool.values → .text bytes ∈ named.pool.values := by
  cases step with
  | nameFailed failed => exact ⟨_, _, failed, rfl, fun _ => id⟩
  | classKnown ofName known => exact ⟨_, _, ofName, rfl, fun _ => id⟩
  | classAdded ofName unknown pushed =>
      cases pushed with
      | pushed room =>
          exact ⟨_, _, ofName, rfl, fun _ held =>
            (mem_values_append.mp held).resolve_right (by simp)⟩
  | classFailed ofName unknown failed =>
      cases failed with
      | pushFailed full => exact ⟨_, _, ofName, rfl, fun _ => id⟩

/-- A call for a text adds no other text, and remembers no other. -/
theorem Step.of_text {asked : String} (step : Step builder (.text asked) answer left) :
    (∀ bytes, .text bytes ∈ left.pool.values → .text bytes ∈ builder.pool.values ∨
      bytes = ModifiedUtf8.encode asked ∧ ∃ slot, left.texts[asked]? = some slot) ∧
    ∀ value slot, left.texts[value]? = some slot →
      builder.texts[value]? = some slot ∨ value = asked := by
  cases step with
  | textKnown known => exact ⟨fun _ => .inl, fun _ _ => .inl⟩
  | textAdded unknown pushed =>
      cases pushed with
      | pushed room =>
          refine ⟨fun bytes held => ?_, fun value slot known => ?_⟩
          · refine (mem_values_append.mp held).imp_right fun same => ⟨Constant.text.inj same, ?_⟩
            exact ⟨builder.nextSlot, Std.HashMap.getElem?_insert_self⟩
          · rw [withText, Std.HashMap.getElem?_insert] at known
            split at known
            · next same => exact .inr (beq_iff_eq.mp same).symm
            · exact .inl known
  | textFailed unknown failed =>
      cases failed with
      | pushFailed full => exact ⟨fun _ => .inl, fun _ _ => .inl⟩

/-- A call adds no other text than the one that it appends, or that it is asked for. -/
theorem Step.of_mem (step : Step builder call answer left)
    (held : .text bytes ∈ left.pool.values) :
    .text bytes ∈ builder.pool.values ∨ call = .push (.text bytes) ∨
      ∃ value slot, left.texts[value]? = some slot ∧ bytes = ModifiedUtf8.encode value := by
  cases call with
  | push constant =>
      cases step with
      | pushed room =>
          rcases mem_values_append.mp held with earlier | rfl
          · exact .inl earlier
          · exact .inr (.inl rfl)
      | pushFailed full => exact .inl held
  | text asked =>
      rcases step.of_text.1 bytes held with earlier | ⟨same, slot, known⟩
      · exact .inl earlier
      · exact .inr (.inr ⟨asked, slot, known, same⟩)
  | className name =>
      obtain ⟨_, named, ofName, sameTexts, kept⟩ := step.exists_named
      rcases ofName.of_text.1 bytes (kept bytes held) with earlier | ⟨same, slot, known⟩
      · exact .inl earlier
      · exact .inr (.inr ⟨name, slot, sameTexts ▸ known, same⟩)

/-- A call makes a builder remember no other text than the one that it is asked for. -/
theorem Step.of_known {slot : UInt16} (step : Step builder call answer left)
    (known : left.texts[value]? = some slot) :
    (∃ slot, builder.texts[value]? = some slot) ∨ call = .text value ∨
      call = .className value := by
  cases call with
  | push constant => cases step <;> exact .inl ⟨slot, known⟩
  | text asked =>
      rcases step.of_text.2 value slot known with earlier | rfl
      · exact .inl ⟨slot, earlier⟩
      · exact .inr (.inl rfl)
  | className name =>
      obtain ⟨_, named, ofName, sameTexts, -⟩ := step.exists_named
      rw [sameTexts] at known
      rcases ofName.of_text.2 value slot known with earlier | rfl
      · exact .inl ⟨slot, earlier⟩
      · exact .inr (.inr rfl)

/-- The texts of a pool were appended as they are, or else are those that the builder holds. -/
theorem source_of_mem (held : .text bytes ∈ (empty.after calls).pool.values) :
    .push (.text bytes) ∈ calls ∨ ∃ value, Holds calls value ∧ bytes = ModifiedUtf8.encode value := by
  induction calls using List.reverseRecOn with
  | nil => cases held
  | append_singleton before call ih =>
      have step := step_run call (empty.after before)
      have grown := step.extends
      have last : empty.after (before ++ [call]) = (call.run (empty.after before)).2 :=
        after_append ..
      rw [last] at held
      rcases step.of_mem held with earlier | rfl | ⟨value, slot, known, same⟩
      · rcases ih earlier with pushed | ⟨value, ⟨slot, known⟩, same⟩
        · exact .inl (List.mem_append_left _ pushed)
        · refine .inr ⟨value, ⟨slot, ?_⟩, same⟩
          rw [last]
          exact grown.texts _ _ known
      · exact .inl (List.mem_append_right _ List.mem_cons_self)
      · refine .inr ⟨value, ⟨slot, ?_⟩, same⟩
        rwa [last]

/-- A builder holds only what it was asked for. -/
theorem Holds.asked (holds : Holds calls value) :
    Call.text value ∈ calls ∨ Call.className value ∈ calls := by
  obtain ⟨slot, known⟩ := holds
  induction calls using List.reverseRecOn generalizing slot with
  | nil => simp [after, empty] at known
  | append_singleton before call ih =>
      have step := step_run call (empty.after before)
      have last : empty.after (before ++ [call]) = (call.run (empty.after before)).2 :=
        after_append ..
      rw [last] at known
      rcases step.of_known known with ⟨earlier, known⟩ | rfl | rfl
      · exact (ih earlier known).imp (List.mem_append_left _) (List.mem_append_left _)
      · exact .inl (List.mem_append_right _ List.mem_cons_self)
      · exact .inr (List.mem_append_right _ List.mem_cons_self)

/-- A pool that was built can be stored when each of its texts can. -/
theorem storable_after (pushed : ∀ bytes, .push (.text bytes) ∈ calls → bytes.length ≤ 65535)
    (fits : ∀ value, Holds calls value → Fits value) : (empty.after calls).pool.Storable := by
  have sound := sound_empty.after calls
  refine ⟨sound.built, sound.bounded, fun constant held => Constant.storable_iff.mpr ?_⟩
  rintro bytes rfl
  rcases source_of_mem held with among | ⟨value, holds, rfl⟩
  · exact pushed bytes among
  · exact fits value holds

/-- A pool gives the texts that stand at its slots. -/
theorem text_eq_ok_iff {pool : Pool} {slot : UInt16} :
    pool.text slot = .ok value ↔
      ∃ bytes, pool.get? slot.toNat = some (.text bytes) ∧ ModifiedUtf8.decode bytes = some value := by
  unfold Pool.text
  split
  · next bytes found =>
      rw [found]
      split
      · next read => simp [read]
      · next malformed => simp [malformed]
  · next other =>
      simp only [reduceCtorEq, false_iff]
      rintro ⟨bytes, found, -⟩
      exact other bytes found

/-- No text of a pool that was read is too long. -/
theorem fits_of_text {input rest : List UInt8} {pool : Pool} {slot : UInt16}
    (read : Reads Pool.read input pool rest) (given : pool.text slot = .ok value) : Fits value := by
  have storable := (Pool.reads_pool.mp read).1
  obtain ⟨bytes, found, decoded⟩ := text_eq_ok_iff.mp given
  obtain ⟨constants, built⟩ := storable.built
  have ordered : pool.Ordered := by
    rw [built]
    exact (SlotTable.ordered_startingAt 1).pushAll fun constant _ => constant.width_pos
  have held : .text bytes ∈ pool.values :=
    List.mem_map_of_mem (ordered.get?_eq_some_iff.mp found)
  exact (ModifiedUtf8.length_encode_le decoded).trans (storable.constants _ held)

/-- No name of a class of a pool that was read is too long. -/
theorem fits_of_className {input rest : List UInt8} {pool : Pool} {slot : UInt16}
    (read : Reads Pool.read input pool rest) (given : pool.className slot = .ok value) :
    Fits value := by
  unfold Pool.className at given
  split at given
  · exact fits_of_text read given
  · cases given

/-- A pool that was read gives no text and no name of a class that is too long. -/
theorem lost_of_not_fits {input rest : List UInt8} {pool : Pool} (long : ¬Fits value)
    (read : Reads Pool.read input pool rest) (slot : UInt16) :
    pool.text slot ≠ .ok value ∧ pool.className slot ≠ .ok value :=
  ⟨fun given => long (fits_of_text read given), fun given => long (fits_of_className read given)⟩

/-- A pool that was built is recovered when all of its texts fit, whatever was refused on the way.
A text that does not fit is in no pool that is read from any bytes. -/
theorem recovered_of_fits
    (pushed : ∀ bytes, .push (.text bytes) ∈ calls → bytes.length ≤ 65535) :
    ((∀ value, Holds calls value → Fits value) → Recovered calls) ∧
      ∀ value, ¬Fits value → ∀ (input rest : List UInt8) (pool : Pool),
        Reads Pool.read input pool rest →
          ∀ slot, pool.text slot ≠ .ok value ∧ pool.className slot ≠ .ok value := by
  refine ⟨fun fits => ?_, fun value long input rest pool => lost_of_not_fits long⟩
  exact ⟨(empty.after calls).pool,
    Pool.reads_pool.mpr ⟨storable_after pushed fits, (List.append_nil _).symm⟩,
    fun value slot => Answered.text_eq, fun name slot => Answered.className_eq⟩

/-- A pushed text may be malformed. -/
theorem recovered_mixed :
    let calls : List Call := [.className "p/Q", .push (.text [0xED, 0xA0, 0x80]), .push (.long 5)]
    Answered calls (.className "p/Q") 2 ∧ Recovered calls := by
  intro calls
  have pushed : ∀ bytes, .push (.text bytes) ∈ calls → bytes.length ≤ 65535 := by
    intro bytes among
    simp only [calls, List.mem_cons, Call.push.injEq, Constant.text.injEq, reduceCtorEq,
      List.not_mem_nil, or_false, false_or] at among
    rw [among]
    decide
  have fits (value : String) (holds : Holds calls value) : Fits value := by
    have asked := holds.asked
    simp only [calls, List.mem_cons, Call.className.injEq, reduceCtorEq, List.not_mem_nil,
      or_false, false_or] at asked
    rw [asked]
    decide
  have step : Step empty (.className "p/Q") (.ok 2) _ :=
    .classAdded (.textAdded Std.HashMap.getElem?_empty (.pushed (by decide)))
      Std.HashMap.getElem?_empty (.pushed (by decide))
  exact ⟨⟨[], _, rfl, congrArg Prod.fst step.run_eq⟩, (recovered_of_fits pushed).1 fits⟩

/-- A text of one byte more than a stored length counts is written like an empty one, and its
bytes behind that. -/
theorem write_text_of_length (long : bytes.length = 65536) :
    (Constant.text bytes).write = (Constant.text []).write ++ bytes := by
  rw [Constant.write, long]
  rfl

/-- A new builder accepts a text that it cannot store. The stored form reads back as a pool of an
empty text, with all bytes of the text left over. -/
theorem lost_of_length (long : (ModifiedUtf8.encode value).length = 65536) :
    Answered [.text value] (.text value) 1 ∧ ¬Recovered [.text value] ∧
      Reads Pool.read (empty.after [.text value]).pool.write (SlotTable.ofList 1 [.text []])
        (ModifiedUtf8.encode value) := by
  have step : Step empty (.text value) (.ok 1) _ :=
    .textAdded Std.HashMap.getElem?_empty (.pushed (show 1 + 1 ≤ maxSlot by decide))
  have answered : Answered [.text value] (.text value) 1 :=
    ⟨[], [], rfl, congrArg Prod.fst step.run_eq⟩
  refine ⟨answered, ?_, ?_⟩
  · rintro ⟨pool, read, texts, -⟩
    have fits : _ ≤ _ := fits_of_text read (texts _ _ answered)
    omega
  · rw [Pool.reads_pool]
    refine ⟨⟨⟨_, rfl⟩, by decide, by simp [SlotTable.ofList, Constant.Storable]⟩, ?_⟩
    have left : (empty.after [.text value]).pool =
        Pool.empty.push (.text (ModifiedUtf8.encode value)) := by
      rw [after, List.foldl_cons, List.foldl_nil, step.run_eq]
      rfl
    rw [left, Pool.write, SlotTable.values_push, List.flatMap_append, List.flatMap_singleton,
      write_text_of_length long]
    rfl

/-- A letter is stored as one byte. -/
theorem length_encode_replicate (count : Nat) :
    (ModifiedUtf8.encode (String.ofList (List.replicate count 'a'))).length = count := by
  have letter : ModifiedUtf8.encodeChar 'a' = [97] := by decide
  rw [ModifiedUtf8.encode, String.toList_ofList, List.flatMap_replicate, letter,
    List.flatten_replicate_singleton, List.length_replicate]

/-- A text of that many letters is accepted and lost. -/
theorem letters_lost :
    Answered [.text (String.ofList (List.replicate 65536 'a'))]
        (.text (String.ofList (List.replicate 65536 'a'))) 1 ∧
      ¬Recovered [.text (String.ofList (List.replicate 65536 'a'))] := by
  obtain ⟨answered, lost, -⟩ := lost_of_length (length_encode_replicate 65536)
  exact ⟨answered, lost⟩

end ClassAccess.ClassFile.PoolBuilder
