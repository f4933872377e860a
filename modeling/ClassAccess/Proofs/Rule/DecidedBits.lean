import ClassAccess.Proofs.Rule.Rewriting

/-!
# Which bits a directive decides

`Directive.Makes` says bit by bit what a directive makes of a word: the level and the
last toggle of each modifier decide their bits, and all other bits are kept. Toggles
that a later one of the same modifier follows play no part in it.

No two results are what a directive makes of one word. A directive therefore undoes an
earlier one as soon as it decides the same bits.
-/

namespace ClassAccess

/-- A word encodes the level that its three lowest bits are the bit of. -/
theorem AccessLevel.ofWord_of_and_mask {level : AccessLevel} {word : UInt16}
    (encodes : word &&& mask = level.bit) : ofWord word = level := by
  have tested : ∀ other : AccessLevel, word &&& other.bit = level.bit &&& other.bit := by
    intro other
    rw [← encodes, UInt16.and_assoc, UInt16.and_comm mask, bit_and_mask]
  simp only [ofWord, tested]
  cases level <;> decide

namespace Directive

/-- What a directive makes of a word. -/
structure Makes (directive : Directive) (word result : UInt16) : Prop where
  /-- Of the bits that encode levels, only that of the own level is set. -/
  level : result &&& AccessLevel.mask = directive.access.bit
  /-- A modifier is set when its last toggle adds it. -/
  added : ∀ before modifier after, directive.toggles = before ++ Toggle.add modifier :: after →
    (∀ later ∈ after, later.modifier ≠ modifier) → result &&& modifier.bit = modifier.bit
  /-- A modifier is cleared when its last toggle removes it. -/
  removed : ∀ before modifier after,
    directive.toggles = before ++ Toggle.remove modifier :: after →
    (∀ later ∈ after, later.modifier ≠ modifier) → result &&& modifier.bit = 0
  /-- A modifier without a toggle is kept. -/
  untoggled : ∀ modifier, (∀ toggle ∈ directive.toggles, toggle.modifier ≠ modifier) →
    result &&& modifier.bit = word &&& modifier.bit
  /-- Bits that encode no level and belong to no modifier are kept. -/
  others : ∀ kept, AccessLevel.mask &&& kept = 0 →
    (∀ modifier : Modifier, modifier.bit &&& kept = 0) → result &&& kept = word &&& kept

/-- The last toggle of a modifier is the one that no other toggle of it follows. -/
theorem lastToggle?_eq_some_iff {directive : Directive} {modifier : Modifier} {toggle : Toggle} :
    directive.lastToggle? modifier = some toggle ↔
      toggle.modifier = modifier ∧ ∃ before after, directive.toggles = before ++ toggle :: after ∧
        ∀ later ∈ after, later.modifier ≠ modifier := by
  have unlike_iff : ∀ later : Toggle,
      (!decide (later.modifier = modifier)) = true ↔ later.modifier ≠ modifier := by
    intro later
    rw [Bool.not_eq_true', decide_eq_false_iff_not]
  rw [lastToggle?, List.getLast?_filter, List.find?_eq_some_iff_append, decide_eq_true_eq]
  refine and_congr_right fun _ => ?_
  constructor
  · rintro ⟨after, before, reversed, unlike⟩
    refine ⟨before.reverse, after.reverse, ?_, fun later held => ?_⟩
    · rw [← List.reverse_reverse directive.toggles, reversed]
      simp
    · exact (unlike_iff later).mp (unlike later (List.mem_reverse.mp held))
  · rintro ⟨before, after, cut, unlike⟩
    refine ⟨after.reverse, before.reverse, ?_, fun later held => ?_⟩
    · rw [cut]
      simp
    · exact (unlike_iff later).mpr (unlike later (List.mem_reverse.mp held))

/-- There is no last toggle of a modifier that is not toggled at all. -/
theorem lastToggle?_eq_none_iff {directive : Directive} {modifier : Modifier} :
    directive.lastToggle? modifier = none ↔
      ∀ toggle ∈ directive.toggles, toggle.modifier ≠ modifier := by
  rw [lastToggle?, List.getLast?_eq_none_iff, List.filter_eq_nil_iff]
  simp only [decide_eq_true_eq, ne_eq]

/-- A directive keeps the bits of the modifiers that it does not toggle. -/
theorem rewrite_and_bit_of_untoggled {directive : Directive} {modifier : Modifier}
    (untoggled : directive.lastToggle? modifier = none) (word : UInt16) :
    directive.rewrite word &&& modifier.bit = word &&& modifier.bit := by
  rw [lastToggle?] at untoggled
  rw [rewrite, foldl_apply_and_bit, untoggled]
  exact AccessLevel.replaceIn_and modifier.mask_and_bit directive.access word

/-- Applying a directive gives what it makes of the word. -/
theorem makes_rewrite (directive : Directive) (word : UInt16) :
    directive.Makes word (directive.rewrite word) where
  level := directive.rewrite_and_mask word
  added := fun before _ after cut last =>
    rewrite_and_bit (lastToggle?_eq_some_iff.mpr ⟨rfl, before, after, cut, last⟩) word
  removed := fun before _ after cut last =>
    rewrite_and_bit (lastToggle?_eq_some_iff.mpr ⟨rfl, before, after, cut, last⟩) word
  untoggled := fun _ none =>
    rewrite_and_bit_of_untoggled (lastToggle?_eq_none_iff.mpr none) word
  others := fun _ levelApart modifiersApart =>
    rewrite_and levelApart (fun toggle _ => modifiersApart toggle.modifier) word

/-- Words are equal when they agree on levels, on modifiers and on the bits that directives cannot
change. -/
theorem eq_of_and {left right : UInt16}
    (levels : left &&& AccessLevel.mask = right &&& AccessLevel.mask)
    (modifiers : ∀ modifier : Modifier, left &&& modifier.bit = right &&& modifier.bit)
    (others : left &&& ~~~reach = right &&& ~~~reach) : left = right := by
  have all : AccessLevel.mask ||| Modifier.final.bit ||| ~~~reach = -1 := by decide
  have parts : ∀ word : UInt16, word =
      (word &&& AccessLevel.mask) ||| (word &&& Modifier.final.bit) ||| (word &&& ~~~reach) := by
    intro word
    simp only [UInt16.and_comm word]
    rw [← or_and_word, ← or_and_word, all, UInt16.neg_one_and]
  rw [parts left, parts right, levels, modifiers, others]

namespace Makes

variable {directive : Directive} {word result other : UInt16}

/-- The bit of a modifier is decided by its last toggle. -/
theorem settled (makes : directive.Makes word result) {modifier : Modifier} {toggle : Toggle}
    (last : directive.lastToggle? modifier = some toggle) :
    result &&& modifier.bit = toggle.settled := by
  obtain ⟨rfl, before, after, cut, unlike⟩ := lastToggle?_eq_some_iff.mp last
  obtain ⟨action, modifier⟩ := toggle
  cases action with
  | add => exact makes.added before modifier after cut unlike
  | remove => exact makes.removed before modifier after cut unlike

/-- What a directive makes of a word agrees with the word on the bits that directives cannot
change. -/
theorem and_not_reach (makes : directive.Makes word result) :
    result &&& ~~~reach = word &&& ~~~reach := by
  refine makes.others _ (by decide) fun modifier => ?_
  cases modifier
  decide

/-- A directive makes one result of a word. -/
theorem unique (makes : directive.Makes word result) (makesOther : directive.Makes word other) :
    result = other := by
  refine eq_of_and ?_ (fun modifier => ?_) ?_
  · rw [makes.level, makesOther.level]
  · cases last : directive.lastToggle? modifier with
    | some toggle => rw [makes.settled last, makesOther.settled last]
    | none =>
        have untoggled := lastToggle?_eq_none_iff.mp last
        rw [makes.untoggled modifier untoggled, makesOther.untoggled modifier untoggled]
  · rw [makes.and_not_reach, makesOther.and_not_reach]

end Makes

/-- A directive toggles each modifier that another one toggles. -/
def Covers (later earlier : Directive) : Prop :=
  ∀ toggle ∈ earlier.toggles, ∃ other ∈ later.toggles, other.modifier = toggle.modifier

/-- What a directive makes of a word does not depend on directives that were applied before and
that it covers. -/
theorem Makes.of_covers {later earlier : Directive} {word between result : UInt16}
    (covers : later.Covers earlier) (first : earlier.Makes word between)
    (second : later.Makes between result) : later.Makes word result where
  level := second.level
  added := second.added
  removed := second.removed
  untoggled := by
    intro modifier untoggled
    have untoggledBefore : ∀ toggle ∈ earlier.toggles, toggle.modifier ≠ modifier := by
      intro toggle held same
      obtain ⟨other, heldLater, alike⟩ := covers toggle held
      exact untoggled other heldLater (alike.trans same)
    rw [second.untoggled modifier untoggled, first.untoggled modifier untoggledBefore]
  others := by
    intro kept levelApart modifiersApart
    rw [second.others kept levelApart modifiersApart, first.others kept levelApart modifiersApart]

/-- A directive makes one word encode its level, has each of its modifiers decided by the last
toggle and keeps all else. Applying it again changes nothing, and a later directive that toggles
the same modifiers undoes it. -/
theorem makes_iff_rewrite (directive : Directive) (word : UInt16) :
    (∀ result, directive.Makes word result ↔ directive.rewrite word = result) ∧
      AccessLevel.ofWord (directive.rewrite word) = directive.access ∧
      directive.rewrite (directive.rewrite word) = directive.rewrite word ∧
      ∀ later : Directive, later.Covers directive →
        later.rewrite (directive.rewrite word) = later.rewrite word := by
  have makes := directive.makes_rewrite word
  refine ⟨fun result => ⟨makes.unique, ?_⟩, ?_, directive.rewrite_rewrite word, ?_⟩
  · rintro rfl
    exact makes
  · exact AccessLevel.ofWord_of_and_mask makes.level
  · intro later covers
    have again := later.makes_rewrite (directive.rewrite word)
    exact (Makes.of_covers covers makes again).unique (later.makes_rewrite word)

/-- Of several level bits and two toggles that disagree, nothing is left after a directive that
toggles the same modifier once. -/
theorem makes_iff_rewrite_undone :
    Covers ⟨.publicAccess, [.remove .final], .object, .classItself⟩
        ⟨.protectedAccess, [.remove .final, .add .final], .object, .classItself⟩ ∧
      rewrite ⟨.protectedAccess, [.remove .final, .add .final], .object, .classItself⟩ 0x9507 =
        0x9514 ∧
      rewrite ⟨.publicAccess, [.remove .final], .object, .classItself⟩ 0x9514 = 0x9501 := by
  have covers : Covers ⟨.publicAccess, [.remove .final], .object, .classItself⟩
      ⟨.protectedAccess, [.remove .final, .add .final], .object, .classItself⟩ :=
    fun toggle _ => ⟨.remove .final, List.mem_cons_self, by cases toggle.modifier; rfl⟩
  have first : rewrite ⟨.protectedAccess, [.remove .final, .add .final], .object, .classItself⟩
      0x9507 = 0x9514 := by decide
  obtain ⟨-, -, -, undone⟩ := makes_iff_rewrite
    ⟨.protectedAccess, [.remove .final, .add .final], .object, .classItself⟩ 0x9507
  refine ⟨covers, first, ?_⟩
  rw [← first, undone _ covers]
  decide

end Directive

end ClassAccess
