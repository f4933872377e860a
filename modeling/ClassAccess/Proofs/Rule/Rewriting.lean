import ClassAccess.Rule.Directive

/-!
# How a directive changes a word

A directive changes the access level of a word and the modifiers that it toggles.
The lemmas on what it leaves alone take the bits that are of interest as `kept`,
and ask only that the level and the toggled modifiers are apart from them. The
bits that it changes do not depend on what they were before, so that applying a
directive again changes nothing.
-/

namespace ClassAccess

/-- The common bits of a union are those of its parts. -/
theorem or_and_word (left right kept : UInt16) :
    (left ||| right) &&& kept = (left &&& kept) ||| (right &&& kept) := by
  apply UInt16.toBitVec_inj.mp
  ext position inRange
  simp only [UInt16.toBitVec_and, UInt16.toBitVec_or, BitVec.getElem_and, BitVec.getElem_or]
  exact Bool.and_or_distrib_right _ _ _

/-- Setting some of the bits that are set anyway adds nothing. -/
theorem and_or_self_word (bits word : UInt16) : (bits &&& word) ||| bits = bits := calc
  (bits &&& word) ||| bits = (word &&& bits) ||| (-1 &&& bits) := by
    rw [UInt16.and_comm, UInt16.neg_one_and]
  _ = (word ||| -1) &&& bits := (or_and_word word (-1) bits).symm
  _ = bits := by rw [UInt16.or_neg_one, UInt16.neg_one_and]

/-- Setting bits keeps the bits that are apart from them. -/
theorem or_and_of_apart {bits kept : UInt16} (apart : bits &&& kept = 0) (word : UInt16) :
    (word ||| bits) &&& kept = word &&& kept := by
  rw [or_and_word, apart, UInt16.or_zero]

/-- Clearing bits keeps the bits that are apart from them. -/
theorem and_not_and_of_apart {bits kept : UInt16} (apart : bits &&& kept = 0) (word : UInt16) :
    word &&& ~~~bits &&& kept = word &&& kept := by
  have outside : ~~~bits &&& kept = kept := calc
    ~~~bits &&& kept = (bits &&& kept) ||| (~~~bits &&& kept) := by rw [apart, UInt16.zero_or]
    _ = (bits ||| ~~~bits) &&& kept := (or_and_word bits (~~~bits) kept).symm
    _ = kept := by rw [UInt16.or_not_self, UInt16.neg_one_and]
  rw [UInt16.and_assoc, outside]

/-- The bit of a level is one of those that encode levels. -/
theorem AccessLevel.bit_and_mask (level : AccessLevel) : level.bit &&& mask = level.bit := by
  cases level <;> decide

/-- Replacing the level keeps the other bits. -/
theorem AccessLevel.replaceIn_and {kept : UInt16} (apart : mask &&& kept = 0) (level : AccessLevel)
    (word : UInt16) : level.replaceIn word &&& kept = word &&& kept := by
  have levelApart : level.bit &&& kept = 0 := by
    rw [← bit_and_mask, UInt16.and_assoc, apart, UInt16.and_zero]
  rw [replaceIn, or_and_of_apart levelApart, and_not_and_of_apart apart]

/-- A word encodes the level that was put into it, whichever bits it had. -/
theorem AccessLevel.replaceIn_and_mask (level : AccessLevel) (word : UInt16) :
    level.replaceIn word &&& mask = level.bit := by
  have cleared : ~~~mask &&& mask = 0 := by decide
  rw [replaceIn, or_and_word, UInt16.and_assoc, cleared, UInt16.and_zero, UInt16.zero_or,
    bit_and_mask]

/-- The bits of modifiers do not encode levels. -/
theorem Modifier.mask_and_bit (modifier : Modifier) : AccessLevel.mask &&& modifier.bit = 0 := by
  cases modifier
  decide

/-- Modifiers have bits of their own. -/
theorem Modifier.bit_and_bit {modifier other : Modifier} (differ : modifier ≠ other) :
    modifier.bit &&& other.bit = 0 := by
  cases modifier
  cases other
  exact absurd rfl differ

/-- A toggle keeps the bits that are apart from its modifier. -/
theorem Toggle.apply_and {toggle : Toggle} {kept : UInt16}
    (apart : toggle.modifier.bit &&& kept = 0) (word : UInt16) :
    toggle.apply word &&& kept = word &&& kept := by
  rw [apply]
  cases toggle.action with
  | add => exact or_and_of_apart apart word
  | remove => exact and_not_and_of_apart apart word

/-- What a toggle leaves of the bit of its modifier. -/
def Toggle.settled (toggle : Toggle) : UInt16 :=
  match toggle.action with
  | .add => toggle.modifier.bit
  | .remove => 0

/-- A toggle settles the bit of its modifier. -/
theorem Toggle.apply_and_bit (toggle : Toggle) (word : UInt16) :
    toggle.apply word &&& toggle.modifier.bit = toggle.settled := by
  rw [apply, settled]
  cases toggle.action with
  | add => rw [or_and_word, UInt16.and_self, UInt16.and_comm, and_or_self_word]
  | remove => rw [UInt16.and_assoc, UInt16.not_and_self, UInt16.and_zero]

namespace Directive

/-- Toggles keep the bits that are apart from their modifiers. -/
theorem foldl_apply_and {kept : UInt16} (toggles : List Toggle) (start : UInt16)
    (apart : ∀ toggle ∈ toggles, toggle.modifier.bit &&& kept = 0) :
    toggles.foldl (fun word toggle => toggle.apply word) start &&& kept = start &&& kept := by
  induction toggles generalizing start with
  | nil => rfl
  | cons toggle rest ih =>
      rw [List.forall_mem_cons] at apart
      rw [List.foldl_cons, ih _ apart.2, Toggle.apply_and apart.1]

/-- Of several toggles of a modifier, the last one settles its bit. -/
theorem foldl_apply_and_bit (toggles : List Toggle) (modifier : Modifier) (start : UInt16) :
    toggles.foldl (fun word toggle => toggle.apply word) start &&& modifier.bit =
      match (toggles.filter (·.modifier = modifier)).getLast? with
      | some toggle => toggle.settled
      | none => start &&& modifier.bit := by
  induction toggles generalizing start with
  | nil => rfl
  | cons toggle rest ih =>
      rw [List.foldl_cons, ih, List.filter_cons]
      by_cases same : toggle.modifier = modifier
      · rw [if_pos (decide_eq_true same), List.getLast?_cons]
        cases (rest.filter (·.modifier = modifier)).getLast? with
        | none =>
            rw [← same]
            exact toggle.apply_and_bit start
        | some later => rfl
      · rw [if_neg (mt of_decide_eq_true same), Toggle.apply_and (Modifier.bit_and_bit same)]

/-- A directive keeps the bits that are apart from the level and from its modifiers. -/
theorem rewrite_and {directive : Directive} {kept : UInt16}
    (levelApart : AccessLevel.mask &&& kept = 0)
    (modifiersApart : ∀ toggle ∈ directive.toggles, toggle.modifier.bit &&& kept = 0)
    (word : UInt16) : directive.rewrite word &&& kept = word &&& kept := by
  rw [rewrite, foldl_apply_and _ _ modifiersApart, AccessLevel.replaceIn_and levelApart]

/-- A directive makes a word encode its level and no other. -/
theorem rewrite_and_mask (directive : Directive) (word : UInt16) :
    directive.rewrite word &&& AccessLevel.mask = directive.access.bit := by
  have apart : ∀ toggle ∈ directive.toggles, toggle.modifier.bit &&& AccessLevel.mask = 0 := by
    intro toggle _
    rw [UInt16.and_comm, Modifier.mask_and_bit]
  rw [rewrite, foldl_apply_and _ _ apart, AccessLevel.replaceIn_and_mask]

/-- The last toggle of a modifier, if there is one. -/
def lastToggle? (directive : Directive) (modifier : Modifier) : Option Toggle :=
  (directive.toggles.filter (·.modifier = modifier)).getLast?

/-- A directive with toggles has a last one for the final bit, as they all are for it. -/
theorem exists_lastToggle?_final {directive : Directive} (toggles : directive.toggles ≠ []) :
    ∃ toggle, directive.lastToggle? .final = some toggle := by
  have all : directive.toggles.filter (·.modifier = .final) = directive.toggles := by
    rw [List.filter_eq_self]
    intro toggle _
    cases toggle.modifier
    rfl
  rw [lastToggle?, all]
  exact ⟨_, List.getLast?_eq_some_getLast toggles⟩

/-- A directive settles the bits of the modifiers that it toggles, whatever they were. -/
theorem rewrite_and_bit {directive : Directive} {modifier : Modifier} {toggle : Toggle}
    (last : directive.lastToggle? modifier = some toggle) (word : UInt16) :
    directive.rewrite word &&& modifier.bit = toggle.settled := by
  rw [lastToggle?] at last
  rw [rewrite, foldl_apply_and_bit, last]

/-- The bits that directives can change: those of the access level and of all modifiers. -/
def reach : UInt16 := 0x0017

/-- A directive keeps all bits that directives cannot change. -/
theorem rewrite_and_not_reach (directive : Directive) (word : UInt16) :
    directive.rewrite word &&& ~~~reach = word &&& ~~~reach := by
  refine rewrite_and (by decide) (fun toggle _ => ?_) word
  cases toggle.modifier
  decide

end Directive

/-- A change of words that keeps some bits and gives the others values of its own. -/
def Overwrites (change : UInt16 → UInt16) : Prop :=
  ∃ kept set : UInt16, ∀ word, change word = (word &&& kept) ||| set

namespace Overwrites

variable {first second change : UInt16 → UInt16}

/-- Setting bits overwrites them. -/
theorem setting (bits : UInt16) : Overwrites (· ||| bits) :=
  ⟨-1, bits, fun word => by rw [UInt16.and_neg_one]⟩

/-- Clearing all but some bits overwrites the others. -/
theorem clearingBut (bits : UInt16) : Overwrites (· &&& bits) :=
  ⟨bits, 0, fun word => by rw [UInt16.or_zero]⟩

/-- Two changes after each other overwrite what one of them does. -/
theorem andThen (ofFirst : Overwrites first) (ofSecond : Overwrites second) :
    Overwrites fun word => second (first word) := by
  obtain ⟨kept, set, first_eq⟩ := ofFirst
  obtain ⟨keptLater, setLater, second_eq⟩ := ofSecond
  refine ⟨kept &&& keptLater, (set &&& keptLater) ||| setLater, fun word => ?_⟩
  simp only [second_eq, first_eq, or_and_word, UInt16.and_assoc, UInt16.or_assoc]

/-- Overwriting a word again changes nothing. -/
theorem apply_apply (overwrites : Overwrites change) (word : UInt16) :
    change (change word) = change word := by
  obtain ⟨kept, set, change_eq⟩ := overwrites
  calc change (change word)
      = (((word &&& kept) ||| set) &&& kept) ||| set := by rw [change_eq, change_eq]
    _ = (word &&& kept) ||| ((set &&& kept) ||| set) := by
        rw [or_and_word, UInt16.and_assoc, UInt16.and_self, UInt16.or_assoc]
    _ = change word := by rw [and_or_self_word, change_eq]

end Overwrites

/-- Replacing the level overwrites its bits. -/
theorem AccessLevel.overwrites_replaceIn (level : AccessLevel) : Overwrites level.replaceIn :=
  (Overwrites.clearingBut (~~~mask)).andThen (Overwrites.setting level.bit)

/-- A toggle overwrites the bit of its modifier. -/
theorem Toggle.overwrites_apply (toggle : Toggle) : Overwrites toggle.apply := by
  obtain ⟨action, modifier⟩ := toggle
  cases action with
  | add => exact Overwrites.setting modifier.bit
  | remove => exact Overwrites.clearingBut (~~~modifier.bit)

namespace Directive

/-- A directive overwrites the level and the toggled modifiers. -/
theorem overwrites_rewrite (directive : Directive) : Overwrites directive.rewrite := by
  have toggled : ∀ (toggles : List Toggle) {change : UInt16 → UInt16}, Overwrites change →
      Overwrites fun word =>
        toggles.foldl (fun word toggle => toggle.apply word) (change word) := by
    intro toggles
    induction toggles with
    | nil => exact fun overwrites => overwrites
    | cons toggle rest ih => exact fun overwrites => ih (overwrites.andThen toggle.overwrites_apply)
  exact toggled directive.toggles directive.access.overwrites_replaceIn

/-- Applying a directive again changes nothing. -/
theorem rewrite_rewrite (directive : Directive) (word : UInt16) :
    directive.rewrite (directive.rewrite word) = directive.rewrite word :=
  directive.overwrites_rewrite.apply_apply word

end Directive

end ClassAccess
