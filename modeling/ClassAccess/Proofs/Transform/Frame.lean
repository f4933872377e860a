import ClassAccess.Proofs.Layout.ClassFile
import ClassAccess.Proofs.Transform.Decisions

/-!
# What a transformation leaves alone

A transformation overwrites access words in place. Its output is as long as its
input and differs from it only at the offsets of access words, and within a word
only in the bits that directives can change. The outcome counts the words that
were overwritten with others, so that nothing else needs to be compared to see
whether the output is the input.
-/

namespace ClassAccess

open ClassFile Transform

/-- What holds of the bytes before and after a transformation, where a class file is stored in
those before. -/
structure ChangesAccessOnly (bytes : List UInt8) (made : Transformed) (file : ClassFile) :
    Prop where
  parsed : parse bytes = .ok file
  slotsHold : file.accessSlots.map (wordAt? bytes) = file.accessWords.map some
  slotsApart : file.accessSlots.Pairwise fun earlier later => earlier + 2 ≤ later
  sameLength : made.bytes.length = bytes.length
  withinSlots : ∀ position : Nat, made.bytes[position]? ≠ bytes[position]? →
    ∃ slot ∈ file.accessSlots, position = slot ∨ position = slot + 1
  withinReach : ∀ slot ∈ file.accessSlots, ∃ before after,
    wordAt? bytes slot = some before ∧ wordAt? made.bytes slot = some after ∧
      after &&& ~~~0x0017 = before &&& ~~~0x0017
  changesCounted : (file.accessSlots.countP fun slot =>
    wordAt? made.bytes slot ≠ wordAt? bytes slot) = made.outcome.changed
  unchanged : made.bytes = bytes ↔ made.outcome.isUnchanged

namespace Transform

/-- What is stored in each slot of a class file, before and after answers are put into it. -/
theorem map_wordAt?_accessSlots {file : ClassFile} {calls : PerPlace Call}
    (resolved : file.calls = .ok calls) (answer : Call → UInt16) :
    file.accessSlots.map (fun slot => (wordAt? file.toBytes slot,
        wordAt? (file.withAccess (calls.map answer)).toBytes slot)) =
      calls.toList.map fun call => (some call.word, some (answer call)) := by
  have alike := (rewritten_withAccess resolved answer).alike_layout
  have before := Layout.map_wordAt?_slots file.layout
  have after := Layout.map_wordAt?_slots (file.withAccess (calls.map answer)).layout
  rw [bytes_layout, words_layout, accessWords_eq resolved, List.map_map] at before
  rw [alike.slots_eq, bytes_layout, words_layout, accessWords_withAccess resolved,
    List.map_map] at after
  rw [← List.zip_map', ← List.zip_map', accessSlots, before, after]
  rfl

/-- The slots that hold other words afterwards are as many as the calls with another answer. -/
theorem countP_accessSlots {file : ClassFile} {calls : PerPlace Call}
    (resolved : file.calls = .ok calls) (answer : Call → UInt16) :
    (file.accessSlots.countP fun slot =>
        wordAt? (file.withAccess (calls.map answer)).toBytes slot ≠ wordAt? file.toBytes slot) =
      calls.toList.countP fun call => answer call ≠ call.word := by
  have pairs := congrArg (List.countP fun both => both.2 ≠ both.1)
    (map_wordAt?_accessSlots resolved answer)
  rw [List.countP_map, List.countP_map] at pairs
  refine pairs.trans (List.countP_congr fun call _ => ?_)
  simp

/-- Each slot belongs to a call, and holds its word before and its answer afterwards. -/
theorem exists_call_of_mem_accessSlots {file : ClassFile} {calls : PerPlace Call}
    (resolved : file.calls = .ok calls) (answer : Call → UInt16) {slot : Nat}
    (found : slot ∈ file.accessSlots) :
    ∃ call, wordAt? file.toBytes slot = some call.word ∧
      wordAt? (file.withAccess (calls.map answer)).toBytes slot = some (answer call) := by
  have paired := List.mem_map_of_mem (f := fun slot => (wordAt? file.toBytes slot,
    wordAt? (file.withAccess (calls.map answer)).toBytes slot)) found
  rw [map_wordAt?_accessSlots resolved answer] at paired
  obtain ⟨call, -, same⟩ := List.mem_map.mp paired
  obtain ⟨before, after⟩ := Prod.mk.inj same
  exact ⟨call, before.symm, after.symm⟩

end Transform

/-- A transformation that succeeds changes nothing but access words, and counts them. -/
theorem transform_changesAccessOnly {rules : RuleSet} {bytes : List UInt8} {made : Transformed}
    (succeeded : (transform rules bytes).1 = .ok made) :
    ∃ file, ChangesAccessOnly bytes made file := by
  obtain ⟨file, owner, calls, parsed, -, resolved, stored, outcome⟩ :=
    transform_eq_ok_iff.mp succeeded
  obtain ⟨-, rfl⟩ := parse_eq_ok_iff.mp parsed
  have alike := (rewritten_withAccess resolved (decided rules owner)).alike_layout
  have counted : (file.accessSlots.countP fun slot =>
      wordAt? made.bytes slot ≠ wordAt? file.toBytes slot) = made.outcome.changed := by
    rw [outcome, changed_outcomeFor, stored]
    exact countP_accessSlots resolved (decided rules owner)
  refine ⟨file, ?_⟩
  exact {
    parsed := parsed
    slotsHold := by
      rw [← bytes_layout, ← words_layout]
      exact Layout.map_wordAt?_slots file.layout
    slotsApart := Layout.slots_pairwise file.layout
    sameLength := by
      rw [stored, ← bytes_layout, ← bytes_layout]
      exact alike.length_bytes
    withinSlots := by
      intro position differs
      rw [stored, ← bytes_layout, ← bytes_layout] at differs
      exact alike.exists_slot differs
    withinReach := by
      intro slot found
      obtain ⟨call, before, after⟩ :=
        exists_call_of_mem_accessSlots resolved (decided rules owner) found
      rw [← stored] at after
      exact ⟨call.word, decided rules owner call, before, after,
        decided_and_not_reach rules owner call⟩
    changesCounted := counted
    unchanged := by
      rw [Outcome.isUnchanged, beq_iff_eq, ← counted]
      constructor
      · intro same
        rw [same]
        simp
      · intro zero
        rw [counted, outcome, changed_outcomeFor] at zero
        rw [stored, withAccess_decided_of_unchanged resolved zero] }

/-- The transformation of `sample` changes nothing but access words. -/
theorem transform_changesAccessOnly_sample :
    (transform sampleRules sampleBytes).1 = .ok sampleMade ∧
      ∃ file, ChangesAccessOnly sampleBytes sampleMade file :=
  ⟨transform_sampleBytes, transform_changesAccessOnly transform_sampleBytes⟩

end ClassAccess
