import ClassAccess.Proofs.Text.Words
import ClassAccess.Text.Lines
import Mathlib.Data.List.Basic
import Mathlib.Data.List.TakeWhile

/-!
# Lines and their ends

What the lines of a byte string are, and what is left of a line without the blanks
at its ends. Both are given as relations first: `AreLines` and `IsTrimmed` say how
the parts make up the whole.
-/

namespace ClassAccess.Text

/-- How bytes are made up of lines. Each line but the last is ended by a line end, and the last
one either is or has bytes. -/
inductive AreLines : List UInt8 → List (List UInt8) → Prop where
  | none : AreLines [] []
  | last {line : List UInt8} (filled : line ≠ []) (unbroken : 10 ∉ line) : AreLines line [line]
  | ended {line rest : List UInt8} {later : List (List UInt8)} (unbroken : 10 ∉ line)
      (behind : AreLines rest later) : AreLines (line ++ 10 :: rest) (line :: later)

/-- Bytes without line end are one line if there are any. -/
theorem rawLines_unbroken {line : List UInt8} (unbroken : 10 ∉ line) :
    rawLines line = if line = [] then [] else [line] := by
  have single : pieces (· == 10) line = [line] :=
    pieces_eq_cons_iff.mpr ⟨by simp, by simpa using unbroken⟩
  rw [rawLines, single]
  simp

/-- A line end ends the first line. -/
theorem rawLines_append_cons {line : List UInt8} (unbroken : 10 ∉ line) (rest : List UInt8) :
    rawLines (line ++ 10 :: rest) = line :: rawLines rest := by
  have single : pieces (· == 10) line = [line] :=
    pieces_eq_cons_iff.mpr ⟨by simp, by simpa using unbroken⟩
  have joint := @pieces_append_cons UInt8 (· == 10) 10 rfl line rest
  obtain ⟨first, later, cut⟩ := List.exists_cons_of_ne_nil (pieces_ne_nil (· == 10) rest)
  rw [single, List.singleton_append] at joint
  rw [rawLines, rawLines, joint, cut, List.getLast?_cons_cons, List.dropLast_cons_cons]
  simp only [apply_ite (line :: ·)]

/-- What bytes are made up of is their lines. -/
theorem AreLines.rawLines_eq {bytes : List UInt8} {found : List (List UInt8)}
    (are : AreLines bytes found) : rawLines bytes = found := by
  induction are with
  | none => rfl
  | last filled unbroken => rw [rawLines_unbroken unbroken, if_neg filled]
  | ended unbroken behind ih => rw [rawLines_append_cons unbroken, ih]

/-- The lines of bytes are those that they are made up of. -/
theorem rawLines_eq_iff {bytes : List UInt8} {found : List (List UInt8)} :
    rawLines bytes = found ↔ AreLines bytes found := by
  refine ⟨fun read => ?_, AreLines.rawLines_eq⟩
  induction found generalizing bytes with
  | nil =>
      by_cases broken : 10 ∈ bytes
      · obtain ⟨line, rest, rfl, unbroken⟩ := List.eq_append_cons_of_mem broken
        rw [rawLines_append_cons unbroken] at read
        cases read
      · rw [rawLines_unbroken broken] at read
        split at read
        · next empty =>
            subst empty
            exact .none
        · cases read
  | cons line later ih =>
      by_cases broken : 10 ∈ bytes
      · obtain ⟨first, rest, rfl, unbroken⟩ := List.eq_append_cons_of_mem broken
        rw [rawLines_append_cons unbroken] at read
        cases read
        exact .ended unbroken (ih rfl)
      · rw [rawLines_unbroken broken] at read
        split at read
        · cases read
        · next filled =>
            cases read
            exact .last filled broken

/-- Bytes have what their lines and line ends have. -/
theorem AreLines.forall_mem {bytes : List UInt8} {lines : List (List UInt8)}
    {holds : UInt8 → Prop} (are : AreLines bytes lines) (lineEnd : holds 10)
    (each : ∀ line ∈ lines, ∀ byte ∈ line, holds byte) : ∀ byte ∈ bytes, holds byte := by
  induction are with
  | none => exact List.forall_mem_nil _
  | last filled unbroken => exact each _ List.mem_cons_self
  | ended unbroken behind ih =>
      rw [List.forall_mem_cons] at each
      rw [List.forall_mem_append, List.forall_mem_cons]
      exact ⟨each.1, lineEnd, ih each.2⟩

/-- What is left of a line without the blanks at its two ends. -/
def IsTrimmed (line text : List Char) : Prop :=
  ∃ front back, line = front ++ text ++ back ∧ (∀ c ∈ front, isBlank c = true) ∧
    (∀ c ∈ back, isBlank c = true) ∧ (∀ c ∈ text.head?, isBlank c = false) ∧
    ∀ c ∈ text.getLast?, isBlank c = false

/-- Trimming takes the blanks from both ends. -/
theorem isTrimmed_trim (line : List Char) : IsTrimmed line (trim line) := by
  obtain ⟨front, rest, rfl, blanks, first⟩ := exists_cut isBlank line
  obtain ⟨taken, dropped⟩ := takeWhile_dropWhile_append _ blanks first
  obtain ⟨back, kept, cut, blanksBehind, last⟩ := exists_cut isBlank rest.reverse
  obtain ⟨takenBehind, droppedBehind⟩ := takeWhile_dropWhile_append _ blanksBehind last
  have whole : rest = kept.reverse ++ back.reverse := by
    rw [← List.reverse_append, ← cut, List.reverse_reverse]
  rw [trim, dropped, cut, droppedBehind]
  refine ⟨front, back.reverse, by rw [whole, List.append_assoc], blanks, ?_, ?_, ?_⟩
  · exact fun c held => blanksBehind c (List.mem_reverse.mp held)
  · intro c held
    refine first c ?_
    rw [whole, List.head?_append, Option.mem_def.mp held]
    rfl
  · rwa [List.getLast?_reverse]

/-- What is left of a line is its trimmed text. -/
theorem IsTrimmed.trim_eq {line text : List Char} (isTrimmed : IsTrimmed line text) :
    trim line = text := by
  obtain ⟨front, back, rfl, blanks, blanksBehind, first, last⟩ := isTrimmed
  cases text with
  | nil =>
      have allBlank : ∀ c ∈ front ++ [] ++ back, isBlank c = true := by
        rw [List.append_nil, List.forall_mem_append]
        exact ⟨blanks, blanksBehind⟩
      rw [trim, List.dropWhile_eq_nil_iff.mpr allBlank]
      rfl
  | cons c text =>
      have blanksReversed : ∀ d ∈ back.reverse, isBlank d = true :=
        fun d held => blanksBehind d (List.mem_reverse.mp held)
      have lastFirst : ∀ d ∈ (c :: text).reverse.head?, isBlank d = false := by
        rwa [List.head?_reverse]
      have firstKept : ∀ d ∈ (c :: text ++ back).head?, isBlank d = false := first
      have fromFront := takeWhile_dropWhile_append isBlank blanks firstKept
      have fromBack := takeWhile_dropWhile_append isBlank blanksReversed lastFirst
      rw [trim, List.append_assoc, fromFront.2, List.reverse_append, fromBack.2,
        List.reverse_reverse]

/-- The trimmed text of a line is what is left of it. -/
theorem trim_eq_iff {line text : List Char} : trim line = text ↔ IsTrimmed line text := by
  constructor
  · rintro rfl
    exact isTrimmed_trim line
  · exact IsTrimmed.trim_eq

/-- Words with a space in front of each but the first do not end in a blank. -/
theorem not_isBlank_getLast_spaced {first : List Char} {later : List (List Char)}
    (each : ∀ word ∈ first :: later, IsWord word) :
    ∀ c ∈ (first ++ later.flatMap (' ' :: ·)).getLast?, isBlank c = false := by
  induction later generalizing first with
  | nil =>
      intro c last
      rw [List.flatMap_nil, List.append_nil] at last
      exact (each first List.mem_cons_self).blankless c (List.mem_of_mem_getLast? last)
  | cons second later ih =>
      rw [List.forall_mem_cons] at each
      have filled : second ++ later.flatMap (' ' :: ·) ≠ [] :=
        List.append_ne_nil_of_left_ne_nil (each.2 second List.mem_cons_self).filled _
      intro c last
      refine ih each.2 c ?_
      rwa [List.flatMap_cons, List.cons_append, List.append_cons,
        List.getLast?_append_of_ne_nil _ filled] at last

/-- Words with a space in front of each but the first have no blanks at the ends. -/
theorem isTrimmed_spaced {first : List Char} {later : List (List Char)}
    (each : ∀ word ∈ first :: later, IsWord word) :
    IsTrimmed (first ++ later.flatMap (' ' :: ·)) (first ++ later.flatMap (' ' :: ·)) := by
  refine ⟨[], [], by simp, by simp, by simp, fun c start => ?_, not_isBlank_getLast_spaced each⟩
  have isWord := each first List.mem_cons_self
  rw [List.head?_append_of_ne_nil _ isWord.filled] at start
  exact isWord.blankless c (List.mem_of_mem_head? start)

end ClassAccess.Text
