import ClassAccess.Proofs.Transform.Idempotence

/-!
# What a transformation makes again

What a second transformation with the same rules makes of what the first one made, and
when the first one makes what it was given.
-/

namespace ClassAccess

open ClassFile Transform

/-- What a second transformation makes: the same bytes, with nothing left to change. -/
def Transformed.again (made : Transformed) : Transformed :=
  { made with outcome := { made.outcome with changed := 0 } }

/-- Made again, nothing changes. -/
@[simp] theorem Transformed.isUnchanged_again (made : Transformed) :
    made.again.outcome.isUnchanged = true := rfl

variable {rules : RuleSet} {bytes : List UInt8} {made : Transformed}

/-- What was made is made again of itself. -/
theorem transform_made (succeeded : (transform rules bytes).1 = .ok made) :
    (transform rules made.bytes).1 = .ok made.again := by
  obtain ⟨file, owner, calls, parsed, named, resolved, stored, outcome⟩ :=
    transform_eq_ok_iff.mp succeeded
  have fits := (parse_eq_ok_iff.mp parsed).1
  refine transform_eq_ok_iff.mpr ⟨_, owner, _, parse_eq_ok_iff.mpr ⟨fits.withAccess _, stored⟩,
    named, calls_withAccess resolved (decided rules owner), ?_, ?_⟩
  · rw [withAccess_decided_again resolved]
    exact stored
  · rw [outcomeFor_answered resolved, ← outcome]
    rfl

/-- When nothing changes, the bytes stay as they are. -/
theorem bytes_of_isUnchanged (succeeded : (transform rules bytes).1 = .ok made)
    (unchanged : made.outcome.isUnchanged = true) : made.bytes = bytes := by
  obtain ⟨file, owner, calls, parsed, named, resolved, stored, outcome⟩ :=
    transform_eq_ok_iff.mp succeeded
  have none : made.outcome.changed = 0 := beq_iff_eq.mp unchanged
  rw [outcome, changed_outcomeFor] at none
  rw [stored, withAccess_decided_of_unchanged resolved none, (parse_eq_ok_iff.mp parsed).2]

end ClassAccess
