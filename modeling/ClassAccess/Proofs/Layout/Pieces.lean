import ClassAccess.Proofs.Reading
import Mathlib.Data.List.Forall2

/-!
# Layouts

A layout cuts stored bytes into access words and the bytes between them. The
offsets of the words are computed from the lengths of the pieces in front of
them. Two layouts are alike when they differ in words only; then they have the
same length and the same offsets, and their bytes differ at these offsets only.

Which pieces a class file is made of is not said here.
-/

namespace ClassAccess

namespace ClassFile

/-- The word that is stored at an offset. -/
def wordAt? (bytes : List UInt8) (offset : Nat) : Option UInt16 :=
  match (read : Reader UInt16).run (bytes.drop offset) with
  | .ok (word, _) => some word
  | .error _ => none

/-- A piece of stored bytes: an access word, or bytes without one. -/
inductive Piece where
  | frame (bytes : List UInt8)
  | slot (word : UInt16)
deriving DecidableEq, Repr

namespace Piece

/-- The stored bytes of a piece. -/
def bytes : Piece → List UInt8
  | frame bytes => bytes
  | slot word => write word

/-- The access words of a piece, of which there is one or none. -/
def words : Piece → List UInt16
  | frame _ => []
  | slot word => [word]

/-- The offsets of the access words of a piece. -/
def slots : Piece → List Nat
  | frame _ => []
  | slot _ => [0]

/-- Pieces that are the same, but for the word if they are words. -/
inductive Alike : Piece → Piece → Prop where
  | frame (bytes : List UInt8) : Alike (.frame bytes) (.frame bytes)
  | slot (before after : UInt16) : Alike (.slot before) (.slot after)

/-- A word takes up two bytes. -/
@[simp] theorem length_bytes_slot (word : UInt16) : (slot word).bytes.length = 2 :=
  length_bigEndian 2 word.toNat

/-- Pieces that are alike are equally long. -/
theorem Alike.length_bytes {before after : Piece} (alike : Alike before after) :
    after.bytes.length = before.bytes.length := by
  cases alike with
  | frame bytes => rfl
  | slot before after => rw [length_bytes_slot, length_bytes_slot]

/-- Pieces that are alike have their words at the same offsets. -/
theorem Alike.slots_eq {before after : Piece} (alike : Alike before after) :
    after.slots = before.slots := by
  cases alike <;> rfl

end Piece

/-- Pieces in stored order. -/
abbrev Layout := List Piece

namespace Layout

variable {left right : Layout}

/-- The stored bytes of a layout. -/
def bytes (layout : Layout) : List UInt8 := layout.flatMap Piece.bytes

/-- The access words of a layout, in stored order. -/
def words (layout : Layout) : List UInt16 := layout.flatMap Piece.words

/-- The offsets of the access words of a layout, in stored order. -/
def slots : Layout → List Nat
  | [] => []
  | piece :: rest => piece.slots ++ (slots rest).map (piece.bytes.length + ·)

/-- Layouts that are alike piece by piece. -/
def Alike (left right : Layout) : Prop := List.Forall₂ Piece.Alike left right

/-- The bytes of a layout start with those of its first piece. -/
@[simp] theorem bytes_cons (piece : Piece) (rest : Layout) :
    bytes (piece :: rest) = piece.bytes ++ bytes rest := rfl

/-- The words of a layout start with those of its first piece. -/
@[simp] theorem words_cons (piece : Piece) (rest : Layout) :
    words (piece :: rest) = piece.words ++ words rest := rfl

/-- Behind some bytes, words are found at greater offsets. -/
theorem wordAt?_append (front rest : List UInt8) (offset : Nat) :
    wordAt? (front ++ rest) (front.length + offset) = wordAt? rest offset := by
  rw [wordAt?, wordAt?, List.drop_append, List.drop_eq_nil_of_le (Nat.le_add_right _ _),
    Nat.add_sub_cancel_left, List.nil_append]

/-- A word is found where it is stored. -/
theorem wordAt?_write (word : UInt16) (rest : List UInt8) :
    wordAt? (write word ++ rest) 0 = some word := by
  have taken : Reads (read : Reader UInt16) (write word ++ rest) word rest :=
    reads_read.mpr ⟨trivial, rfl⟩
  have ran : (read : Reader UInt16).run (write word ++ rest) = .ok (word, rest) := taken
  rw [wordAt?, List.drop_zero, ran]

/-- The words of a layout are found at its offsets. -/
theorem map_wordAt?_slots (layout : Layout) :
    layout.slots.map (wordAt? layout.bytes) = layout.words.map some := by
  induction layout with
  | nil => rfl
  | cons piece rest ih =>
      have first : piece.slots.map (wordAt? (piece.bytes ++ bytes rest)) =
          piece.words.map some := by
        cases piece with
        | frame front => rfl
        | slot word => exact congrArg ([·]) (wordAt?_write word (bytes rest))
      have later : ((slots rest).map (piece.bytes.length + ·)).map
          (wordAt? (piece.bytes ++ bytes rest)) = (words rest).map some := by
        rw [List.map_map, ← ih]
        exact List.map_congr_left fun offset _ => wordAt?_append piece.bytes (bytes rest) offset
      rw [slots, bytes_cons, words_cons, List.map_append, List.map_append, first, later]

/-- The offsets ascend, and leave room for a word each. -/
theorem slots_pairwise (layout : Layout) :
    layout.slots.Pairwise fun earlier later => earlier + 2 ≤ later := by
  induction layout with
  | nil => exact .nil
  | cons piece rest ih =>
      have later : ((slots rest).map (piece.bytes.length + ·)).Pairwise
          fun earlier later => earlier + 2 ≤ later := by
        rw [List.pairwise_map]
        exact ih.imp fun apart => by omega
      cases piece with
      | frame front => exact later
      | slot word =>
          refine List.pairwise_cons.mpr ⟨?_, later⟩
          intro offset found
          obtain ⟨relative, -, rfl⟩ := List.mem_map.mp found
          rw [Piece.length_bytes_slot]
          omega

/-- Layouts that are alike are equally long. -/
theorem Alike.length_bytes (alike : Alike left right) :
    right.bytes.length = left.bytes.length := by
  induction alike with
  | nil => rfl
  | cons first _ ih =>
      rw [bytes_cons, bytes_cons, List.length_append, List.length_append, first.length_bytes, ih]

/-- Layouts that are alike have their words at the same offsets. -/
theorem Alike.slots_eq (alike : Alike left right) : right.slots = left.slots := by
  induction alike with
  | nil => rfl
  | cons first _ ih => rw [slots, slots, first.slots_eq, first.length_bytes, ih]

/-- Where the bytes of layouts that are alike differ, there is a word. -/
theorem Alike.exists_slot (alike : Alike left right) {position : Nat}
    (differs : right.bytes[position]? ≠ left.bytes[position]?) :
    ∃ slot ∈ left.slots, position = slot ∨ position = slot + 1 := by
  induction alike generalizing position with
  | nil => exact absurd rfl differs
  | @cons before after rest others first _ ih =>
      rw [bytes_cons, bytes_cons] at differs
      by_cases inFirst : position < before.bytes.length
      · cases first with
        | frame front =>
            rw [List.getElem?_append_left inFirst, List.getElem?_append_left inFirst] at differs
            exact absurd rfl differs
        | slot before after =>
            rw [Piece.length_bytes_slot] at inFirst
            refine ⟨0, List.mem_append_left _ (List.mem_singleton.mpr rfl), ?_⟩
            omega
      · have behind : before.bytes.length ≤ position := Nat.le_of_not_lt inFirst
        rw [List.getElem?_append_right (by rw [first.length_bytes]; exact behind),
          List.getElem?_append_right behind, first.length_bytes] at differs
        obtain ⟨slot, found, covered⟩ := ih differs
        refine ⟨before.bytes.length + slot,
          List.mem_append_right _ (List.mem_map.mpr ⟨slot, found, rfl⟩), ?_⟩
        omega

end Layout

end ClassFile

end ClassAccess
