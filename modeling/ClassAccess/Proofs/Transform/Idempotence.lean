import ClassAccess.Proofs.Transform.Decisions
import ClassAccess.Proofs.Walk.Rewritten

/-!
# Transforming again

The output of a transformation is a class file with the same names, so that the
same directives are found for it, and they make of each decided word the word
itself. A second transformation therefore changes nothing, and reports and warns
as the first one did. That it warns alike needs that rules cannot make a class
an interface, or stop it from being one.
-/

namespace ClassAccess

open ClassFile Transform

namespace Transform

variable {rules : RuleSet} {owner : String} {file : ClassFile} {calls : PerPlace Call}

/-- A word that was decided on is decided to stay as it is. -/
theorem decided_answered (rules : RuleSet) (owner : String) (call : Call) :
    decided rules owner (call.answered (decided rules owner)) = decided rules owner call := by
  change ruled (directiveFor rules owner call.subject) (decided rules owner call) = _
  rw [decided]
  cases directiveFor rules owner call.subject with
  | none => rfl
  | some directive => exact directive.rewrite_rewrite call.word

/-- Rules do not change whether a class is an interface. -/
theorem isInterface_withAccess_decided (resolved : file.calls = .ok calls) :
    (file.withAccess (calls.map (decided rules owner))).isInterface = file.isInterface := by
  obtain ⟨⟨name, -, header⟩, -⟩ := calls_eq_ok_iff.mp resolved
  have outside : ~~~Directive.reach &&& interfaceBit = interfaceBit := by decide
  have bit : decided rules owner calls.header &&& interfaceBit = file.access &&& interfaceBit := by
    rw [← outside, ← UInt16.and_assoc, decided_and_not_reach, UInt16.and_assoc, header]
  change decide (decided rules owner calls.header &&& interfaceBit = interfaceBit) = _
  rw [bit, isInterface]

/-- The outcome for a class file that was decided on is that of deciding on it, but that nothing
changes. -/
theorem outcomeFor_answered (resolved : file.calls = .ok calls) :
    outcomeFor rules owner (file.withAccess (calls.map (decided rules owner)))
        (calls.map (Call.answered (decided rules owner))).toList =
      { outcomeFor rules owner file calls.toList with changed := 0 } := by
  have sameContext : contextOf rules owner (file.withAccess (calls.map (decided rules owner))) =
      contextOf rules owner file := by
    rw [contextOf, isInterface_withAccess_decided resolved, contextOf]
  have unchanged : (calls.toList.map (Call.answered (decided rules owner))).countP
      (fun call => decided rules owner call ≠ call.word) = 0 := by
    rw [List.countP_map, List.countP_eq_zero]
    intro call _
    simp only [Function.comp_apply, ne_eq, decide_eq_true_eq, not_not]
    exact decided_answered rules owner call
  rw [outcomeFor_eq, outcomeFor_eq, sameContext, PerPlace.toList_map, unchanged,
    List.filterMap_map, List.filterMap_map]
  rfl

/-- Deciding on a class file that was decided on gives the class file. -/
theorem withAccess_decided_again (resolved : file.calls = .ok calls) :
    (file.withAccess (calls.map (decided rules owner))).withAccess
        ((calls.map (Call.answered (decided rules owner))).map (decided rules owner)) =
      file.withAccess (calls.map (decided rules owner)) := by
  have again := calls_withAccess resolved (decided rules owner)
  refine withAccess_decided_of_unchanged again ?_
  rw [← changed_outcomeFor rules owner (file.withAccess (calls.map (decided rules owner))),
    outcomeFor_answered resolved]

end Transform

/-- Transforming the output of a transformation with the same rules gives it back, and reports
the same nested classes and warnings but no changes. -/
theorem transform_idempotent {rules : RuleSet} {bytes : List UInt8} {made : Transformed}
    (succeeded : (transform rules bytes).1 = .ok made) :
    (transform rules made.bytes).1 =
      .ok { bytes := made.bytes, outcome := { made.outcome with changed := 0 } } := by
  obtain ⟨file, owner, calls, parsed, named, resolved, stored, outcome⟩ :=
    transform_eq_ok_iff.mp succeeded
  have fits := (parse_eq_ok_iff.mp parsed).1
  have parsedAgain : parse made.bytes = .ok (file.withAccess (calls.map (decided rules owner))) :=
    parse_eq_ok_iff.mpr ⟨fits.withAccess _, stored⟩
  have again := calls_withAccess resolved (decided rules owner)
  rw [transform_of_calls parsedAgain named again, withAccess_decided_again resolved, ← stored,
    outcomeFor_answered resolved, ← outcome]

namespace Transform

/-- The rule that makes the class of `sample` protected and final. -/
def protecting : Directive :=
  ⟨.protectedAccess, [.add .final], ⟨"A", fault?_sampleName⟩, .classItself⟩

/-- Rules that make the class of `sample` protected and final, and its fields private and final. -/
def protectingRules : RuleSet :=
  .ofList [protecting,
    ⟨.privateAccess, [.remove .final, .add .final], ⟨"A", fault?_sampleName⟩, .field .every⟩]

/-- What these rules make of `sample`. They warn about its header. -/
def protectedMade : Transformed where
  bytes := toBytes { sample with
    access := 0x8034
    fields := [⟨0x1012, 6, 7, [⟨9, [1, 2, 3]⟩]⟩]
    attributes := [⟨3, [0, 1, 0, 2, 0, 0, 0, 0, 0, 0x14]⟩] }
  outcome := {
    owner := "A"
    changed := 3
    nested := ["A"]
    warnings := [headerWarning protecting] }

end Transform

/-- The second transformation of `sample` still warns, but finds nothing to change. -/
theorem transform_idempotent_sample :
    (transform protectingRules sampleBytes).1 = .ok protectedMade ∧
      (transform protectingRules protectedMade.bytes).1 = .ok {
        bytes := protectedMade.bytes
        outcome := { protectedMade.outcome with changed := 0 } } :=
  have succeeded : (transform protectingRules sampleBytes).1 = .ok protectedMade := by decide +kernel
  ⟨succeeded, transform_idempotent succeeded⟩

end ClassAccess
