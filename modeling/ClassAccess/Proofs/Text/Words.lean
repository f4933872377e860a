import ClassAccess.Text.Blank

/-!
# Pieces and words

A piece has no separators, and pieces together hold all that is no separator.
Cutting a list at a separator cuts each side on its own, so that words with a
blank between them are read back as these words.
-/

namespace ClassAccess.Text

/-- A list is cut where the first element stands that does not pass a test. -/
theorem takeWhile_dropWhile_append {α : Type} (test : α → Bool) {front rest : List α}
    (passes : ∀ a ∈ front, test a = true) (stops : ∀ a ∈ rest.head?, test a = false) :
    (front ++ rest).takeWhile test = front ∧ (front ++ rest).dropWhile test = rest := by
  rw [List.takeWhile_append_of_pos passes, List.dropWhile_append_of_pos passes]
  cases rest with
  | nil => simp
  | cons a rest =>
      have stop := stops a rfl
      simp [stop]

/-- Every list has such a place, if only its end. -/
theorem exists_cut {α : Type} (test : α → Bool) (input : List α) :
    ∃ front rest, input = front ++ rest ∧ (∀ a ∈ front, test a = true) ∧
      ∀ a ∈ rest.head?, test a = false := by
  induction input with
  | nil => exact ⟨[], [], rfl, by simp, by simp⟩
  | cons a later ih =>
      cases passed : test a with
      | false => exact ⟨[], a :: later, rfl, by simp, by simp [passed]⟩
      | true =>
          obtain ⟨front, rest, rfl, passes, stops⟩ := ih
          exact ⟨a :: front, rest, rfl, List.forall_mem_cons.mpr ⟨passed, passes⟩, stops⟩

section Pieces

variable {α : Type} {separator : α → Bool}

/-- Pieces hold everything but the separators, in order. -/
theorem flatten_pieces (separator : α → Bool) (input : List α) :
    (pieces separator input).flatten = input.filter fun a => !separator a := by
  induction input with
  | nil => rfl
  | cons a rest ih =>
      rw [pieces_cons, List.filter_cons, ← ih]
      cases pieces separator rest with
      | nil => by_cases cut : separator a <;> simp [extendPieces, cut]
      | cons piece later => by_cases cut : separator a <;> simp [extendPieces, cut]

/-- What stands in a piece is no separator, and stands in what was cut. -/
theorem of_mem_piece {input piece : List α} {a : α} (cut : piece ∈ pieces separator input)
    (held : a ∈ piece) : a ∈ input ∧ separator a = false := by
  have together : a ∈ (pieces separator input).flatten := List.mem_flatten_of_mem cut held
  rw [flatten_pieces, List.mem_filter] at together
  simpa using together

/-- What is no separator stands in a piece. -/
theorem exists_piece_of_mem (separator : α → Bool) {input : List α} {a : α} (held : a ∈ input)
    (kept : separator a = false) : ∃ piece ∈ pieces separator input, a ∈ piece := by
  have together : a ∈ (pieces separator input).flatten := by
    rw [flatten_pieces, List.mem_filter, kept]
    exact ⟨held, rfl⟩
  exact List.mem_flatten.mp together

/-- A separator ends the pieces of what stands in front of it. -/
theorem pieces_append_cons {mark : α} (cuts : separator mark = true) (front rest : List α) :
    pieces separator (front ++ mark :: rest) =
      pieces separator front ++ pieces separator rest := by
  induction front with
  | nil =>
      rw [List.nil_append, pieces_cons]
      cases held : pieces separator rest with
      | nil => exact absurd held (pieces_ne_nil separator rest)
      | cons piece later => simp [extendPieces, cuts]
  | cons a front ih =>
      rw [List.cons_append, pieces_cons, ih, pieces_cons]
      cases held : pieces separator front with
      | nil => exact absurd held (pieces_ne_nil separator front)
      | cons piece later => by_cases cut : separator a <;> simp [extendPieces, cut]

/-- With the same separator in front of each piece but the first, pieces make up what was cut. -/
theorem eq_append_flatMap_of_pieces [BEq α] [LawfulBEq α] {mark : α} {input first : List α}
    {later : List (List α)} (cut : pieces (· == mark) input = first :: later) :
    input = first ++ later.flatMap (mark :: ·) := by
  induction input generalizing first later with
  | nil =>
      cases cut
      rfl
  | cons a rest ih =>
      rw [pieces_cons] at cut
      cases held : pieces (· == mark) rest with
      | nil => exact absurd held (pieces_ne_nil _ rest)
      | cons piece others =>
          have tail := ih held
          rw [held, extendPieces] at cut
          split at cut
          · next marked =>
              cases cut
              rw [beq_iff_eq.mp marked, tail, List.flatMap_cons, List.nil_append, List.cons_append]
          · cases cut
            rw [tail, List.cons_append]

/-- The pieces of a list are the lists without separator that make it up, with a separator between
one and the next. -/
theorem pieces_eq_cons_iff [BEq α] [LawfulBEq α] {mark : α} {input first : List α}
    {later : List (List α)} :
    pieces (· == mark) input = first :: later ↔
      input = first ++ later.flatMap (mark :: ·) ∧ ∀ piece ∈ first :: later, mark ∉ piece := by
  constructor
  · intro cut
    refine ⟨eq_append_flatMap_of_pieces cut, fun piece one held => ?_⟩
    have impossible := (of_mem_piece (cut ▸ one) held).2
    rw [beq_self_eq_true] at impossible
    cases impossible
  · rintro ⟨rfl, unmarked⟩
    have alone : ∀ piece ∈ first :: later, pieces (· == mark) piece = [piece] := by
      intro piece one
      refine pieces_eq_singleton fun a held => beq_false_of_ne ?_
      rintro rfl
      exact unmarked piece one held
    clear unmarked
    induction later generalizing first with
    | nil => rw [List.flatMap_nil, List.append_nil, alone first List.mem_cons_self]
    | cons second later ih =>
        have joint := @pieces_append_cons α (· == mark) mark (beq_self_eq_true mark)
        rw [List.forall_mem_cons] at alone
        rw [List.flatMap_cons, List.cons_append, joint, alone.1, ih alone.2,
          List.singleton_append]

end Pieces

/-- No character of a text is blank. -/
def Blankless (text : List Char) : Prop := ∀ c ∈ text, isBlank c = false

instance (text : List Char) : Decidable (Blankless text) :=
  List.decidableBAll (fun c => isBlank c = false) text

/-- Two texts without blanks have none together. -/
theorem blankless_append {front rest : List Char} :
    Blankless (front ++ rest) ↔ Blankless front ∧ Blankless rest := List.forall_mem_append

/-- A word has characters, none of which is blank. -/
structure IsWord (text : List Char) : Prop where
  filled : text ≠ []
  blankless : Blankless text

/-- A word and more characters that are not blank are a word. -/
theorem IsWord.append {front rest : List Char} (word : IsWord front) (blankless : Blankless rest) :
    IsWord (front ++ rest) :=
  ⟨List.append_ne_nil_of_left_ne_nil word.filled rest,
    blankless_append.mpr ⟨word.blankless, blankless⟩⟩

/-- The words of a line are words. -/
theorem isWord_of_mem_words {line word : List Char} (read : word ∈ words line) : IsWord word := by
  obtain ⟨cut, filled⟩ := List.mem_filter.mp read
  exact ⟨by simpa using filled, fun c held => (of_mem_piece cut held).2⟩

/-- A text that is a word is its own only word. -/
theorem IsWord.words_eq {word : List Char} (isWord : IsWord word) : words word = [word] := by
  rw [words, pieces_eq_singleton isWord.blankless]
  simp [isWord.filled]

/-- A blank ends the words of what stands in front of it. -/
theorem words_append_blank {mark : Char} (blank : isBlank mark = true) (front rest : List Char) :
    words (front ++ mark :: rest) = words front ++ words rest := by
  rw [words, pieces_append_cons blank, List.filter_append]
  rfl

/-- Words with a space in front of each but the first are read back. -/
theorem words_spaced {first : List Char} {later : List (List Char)}
    (each : ∀ word ∈ first :: later, IsWord word) :
    words (first ++ later.flatMap (' ' :: ·)) = first :: later := by
  induction later generalizing first with
  | nil => rw [List.flatMap_nil, List.append_nil, (each first List.mem_cons_self).words_eq]
  | cons second later ih =>
      rw [List.forall_mem_cons] at each
      rw [List.flatMap_cons, List.cons_append, words_append_blank (by decide), each.1.words_eq,
        ih each.2]
      rfl

/-- The characters of words with a space in front of each but the first are spaces or belong to a
word. -/
theorem mem_spaced {first : List Char} {later : List (List Char)} {c : Char}
    (held : c ∈ first ++ later.flatMap (' ' :: ·)) :
    c = ' ' ∨ ∃ word ∈ first :: later, c ∈ word := by
  rcases List.mem_append.mp held with within | behind
  · exact .inr ⟨first, List.mem_cons_self, within⟩
  · obtain ⟨word, among, within⟩ := List.mem_flatMap.mp behind
    rcases List.mem_cons.mp within with space | within
    · exact .inl space
    · exact .inr ⟨word, List.mem_cons_of_mem _ among, within⟩

/-- How a line is made up of words: blanks may stand anywhere but within a word, and stand between
one word and the next. -/
inductive AreWords : List Char → List (List Char) → Prop where
  | blank {gap : List Char} (blanks : ∀ c ∈ gap, isBlank c = true) : AreWords gap []
  | word {gap word rest : List Char} {later : List (List Char)}
      (blanks : ∀ c ∈ gap, isBlank c = true) (isWord : IsWord word)
      (ends : ∀ c ∈ rest.head?, isBlank c = true) (behind : AreWords rest later) :
      AreWords (gap ++ word ++ rest) (word :: later)

/-- Blanks in front of a line do not change its words. -/
theorem words_blanks_append {gap : List Char} (blanks : ∀ c ∈ gap, isBlank c = true)
    (rest : List Char) : words (gap ++ rest) = words rest := by
  induction gap with
  | nil => rfl
  | cons c gap ih =>
      rw [List.forall_mem_cons] at blanks
      have front := words_append_blank blanks.1 [] (gap ++ rest)
      rw [List.nil_append] at front
      rw [List.cons_append, front, ih blanks.2]
      rfl

/-- The first word of a line ends at the first blank behind it. -/
theorem words_word_append {word rest : List Char} (isWord : IsWord word)
    (ends : ∀ c ∈ rest.head?, isBlank c = true) : words (word ++ rest) = word :: words rest := by
  cases rest with
  | nil =>
      rw [List.append_nil, isWord.words_eq]
      rfl
  | cons c rest =>
      have front := words_append_blank (ends c rfl) [] rest
      rw [List.nil_append] at front
      rw [words_append_blank (ends c rfl), isWord.words_eq, front]
      rfl

/-- What a line is made up of is its words. -/
theorem AreWords.words_eq {line : List Char} {found : List (List Char)}
    (are : AreWords line found) : words line = found := by
  induction are with
  | @blank gap blanks =>
      have alone := words_blanks_append blanks []
      rw [List.append_nil] at alone
      rw [alone]
      rfl
  | word blanks isWord ends behind ih =>
      rw [List.append_assoc, words_blanks_append blanks, words_word_append isWord ends, ih]

/-- A line is blank, or else it has a first word. -/
theorem blank_or_exists_word (line : List Char) :
    (∀ c ∈ line, isBlank c = true) ∨ ∃ gap word rest, line = gap ++ word ++ rest ∧
      (∀ c ∈ gap, isBlank c = true) ∧ IsWord word ∧ ∀ c ∈ rest.head?, isBlank c = true := by
  obtain ⟨gap, tail, rfl, blanks, stops⟩ := exists_cut isBlank line
  cases tail with
  | nil =>
      left
      rwa [List.append_nil]
  | cons c tail =>
      right
      obtain ⟨later, rest, rfl, unblank, ends⟩ := exists_cut (fun c => !isBlank c) tail
      have blankless : Blankless (c :: later) :=
        List.forall_mem_cons.mpr ⟨stops c rfl, fun d held => by simpa using unblank d held⟩
      exact ⟨gap, c :: later, rest, by simp, blanks, ⟨by simp, blankless⟩,
        fun d held => by simpa using ends d held⟩

/-- The words of a line are those that it is made up of. -/
theorem words_eq_iff {line : List Char} {found : List (List Char)} :
    words line = found ↔ AreWords line found := by
  refine ⟨fun read => ?_, AreWords.words_eq⟩
  induction found generalizing line with
  | nil =>
      rcases blank_or_exists_word line with blanks | ⟨gap, word, rest, rfl, blanks, isWord, ends⟩
      · exact .blank blanks
      · rw [List.append_assoc, words_blanks_append blanks, words_word_append isWord ends] at read
        cases read
  | cons word later ih =>
      rcases blank_or_exists_word line with blanks | ⟨gap, first, rest, rfl, blanks, isWord, ends⟩
      · rw [(AreWords.blank blanks).words_eq] at read
        cases read
      · rw [List.append_assoc, words_blanks_append blanks, words_word_append isWord ends] at read
        cases read
        exact .word blanks isWord ends (ih rfl)

end ClassAccess.Text
