import ClassAccess.Proofs.Transform.Decisions

/-!
# What reflection sees of a class

The access word of a nested class stands in the header of its own class file, and
again in the entries of the class files that refer to it. All of these are
transformed apart from each other, but by the same class directive, which settles
the level and the toggled modifiers of each of them. So they agree on what the
directive is about, whatever they disagreed on before, and keep the rest.

A transformation that fails says nothing about the class.
-/

namespace ClassAccess

open ClassFile Transform

/-- A word of a class, before and after the transformation of a class file. A class directive
settles its level and the modifiers that it toggles, and keeps the bits apart from these. -/
inductive Shows : Option Directive → UInt16 → UInt16 → Prop where
  | undirected (word : UInt16) : Shows none word word
  | directed {directive : Directive} {before after : UInt16}
      (level : after &&& AccessLevel.mask = directive.access.bit)
      (modifiers : ∀ modifier toggle, directive.lastToggle? modifier = some toggle →
        after &&& modifier.bit = toggle.settled)
      (others : ∀ kept, AccessLevel.mask &&& kept = 0 →
        (∀ toggle ∈ directive.toggles, toggle.modifier.bit &&& kept = 0) →
        after &&& kept = before &&& kept) :
      Shows (some directive) before after

/-- What holds of a class and of the entries for it in some class file, which may be its own,
before and after both were transformed. -/
structure Reflects (rules : RuleSet) (name : String) (own ownAfter other otherAfter : ClassFile) :
    Prop where
  named : ownAfter.name = .ok name
  header : Shows (classDirective rules name) own.access ownAfter.access
  entries : List.Forall₂ (fun entry entryAfter =>
    other.constants.className entry.self = .ok name →
      entryAfter = entry.withAccess entryAfter.access ∧
        Shows (classDirective rules name) entry.access entryAfter.access)
    other.nestedEntries otherAfter.nestedEntries
  sameLevel : ∀ directive, classDirective rules name = some directive →
    ∀ entry ∈ otherAfter.nestedEntries, otherAfter.constants.className entry.self = .ok name →
      entry.access &&& AccessLevel.mask = ownAfter.access &&& AccessLevel.mask
  sameFinal : ∀ directive, classDirective rules name = some directive → directive.toggles ≠ [] →
    ∀ entry ∈ otherAfter.nestedEntries, otherAfter.constants.className entry.self = .ok name →
      entry.access &&& Modifier.final.bit = ownAfter.access &&& Modifier.final.bit

namespace Shows

variable {directive : Directive} {before after otherBefore otherAfter : UInt16}

/-- A word that was decided on shows the directive that it was decided by. -/
theorem ruled (directive : Option Directive) (word : UInt16) :
    Shows directive word (ruled directive word) := by
  cases directive with
  | none => exact undirected word
  | some directive =>
      exact directed (directive.rewrite_and_mask word)
        (fun modifier toggle last => Directive.rewrite_and_bit last word)
        (fun kept levelApart modifiersApart =>
          Directive.rewrite_and levelApart modifiersApart word)

/-- Words that show the same directive have the same level. -/
theorem level_eq (shown : Shows (some directive) before after)
    (other : Shows (some directive) otherBefore otherAfter) :
    after &&& AccessLevel.mask = otherAfter &&& AccessLevel.mask := by
  cases shown with
  | directed level _ _ =>
      cases other with
      | directed otherLevel _ _ => rw [level, otherLevel]

/-- Words that show the same directive, which has toggles, have the same final bit. -/
theorem final_eq (shown : Shows (some directive) before after)
    (other : Shows (some directive) otherBefore otherAfter) (toggles : directive.toggles ≠ []) :
    after &&& Modifier.final.bit = otherAfter &&& Modifier.final.bit := by
  obtain ⟨toggle, last⟩ := Directive.exists_lastToggle?_final toggles
  cases shown with
  | directed _ modifiers _ =>
      cases other with
      | directed _ otherModifiers _ => rw [modifiers _ _ last, otherModifiers _ _ last]

end Shows

namespace Transform

variable {rules : RuleSet} {bytes : List UInt8} {made : Transformed} {file after : ClassFile}
  {owner name : String}

/-- The words of a class file that was transformed are decided on. -/
theorem exists_rewritten (succeeded : (transform rules bytes).1 = .ok made)
    (parsed : parse bytes = .ok file) :
    ∃ owner after, parse made.bytes = .ok after ∧ Rewritten (decided rules owner) file after := by
  obtain ⟨_, owner, calls, parsed', -, resolved, stored, -⟩ := transform_eq_ok_iff.mp succeeded
  rw [parsed] at parsed'
  cases parsed'
  have fits := (parse_eq_ok_iff.mp parsed).1
  exact ⟨owner, file.withAccess (calls.map (decided rules owner)),
    parse_eq_ok_iff.mpr ⟨fits.withAccess _, stored⟩, rewritten_withAccess resolved _⟩

/-- The header of a class shows its class directive. -/
theorem shows_header (rewritten : Rewritten (decided rules owner) file after)
    (named : file.name = .ok name) :
    Shows (classDirective rules name) file.access after.access := by
  obtain ⟨own, resolved, decided⟩ := rewritten.header
  rw [named] at resolved
  cases resolved
  rw [decided]
  exact .ruled (classDirective rules name) file.access

/-- An entry for a nested class shows the class directive of that class, whoever the entry
belongs to. -/
theorem shows_entry {pool : Pool} {entry entryAfter : NestedClass}
    (rewritten : NestedRewritten pool (decided rules owner) entry entryAfter)
    (named : pool.className entry.self = .ok name) :
    entryAfter = entry.withAccess entryAfter.access ∧
      Shows (classDirective rules name) entry.access entryAfter.access := by
  obtain ⟨other, resolved, rfl⟩ := rewritten
  rw [named] at resolved
  cases resolved
  exact ⟨rfl, .ruled (classDirective rules name) entry.access⟩

/-- Each entry for a nested class in a transformed class file shows the class directive of that
class. -/
theorem exists_shows_entry (rewritten : Rewritten (decided rules owner) file after)
    {entry : NestedClass} (held : entry ∈ after.nestedEntries)
    (named : after.constants.className entry.self = .ok name) :
    ∃ word, Shows (classDirective rules name) word entry.access := by
  obtain ⟨before, -, rewrittenEntry⟩ := exists_mem_of_forall₂ rewritten.entries held
  have sameSelf : entry.self = before.self := by
    obtain ⟨_, -, rfl⟩ := rewrittenEntry
    rfl
  rw [rewritten.constants, sameSelf] at named
  exact ⟨before.access, (shows_entry rewrittenEntry named).2⟩

end Transform

/-- The header of a class and the entries for it, wherever they stand, are transformed alike. -/
theorem transform_reflects {rules : RuleSet} {bytes otherBytes : List UInt8}
    {made otherMade : Transformed} {own other : ClassFile} {name : String}
    (succeeded : (transform rules bytes).1 = .ok made) (parsed : parse bytes = .ok own)
    (named : own.name = .ok name) (otherSucceeded : (transform rules otherBytes).1 = .ok otherMade)
    (otherParsed : parse otherBytes = .ok other) :
    ∃ ownAfter otherAfter, parse made.bytes = .ok ownAfter ∧
      parse otherMade.bytes = .ok otherAfter ∧
      Reflects rules name own ownAfter other otherAfter := by
  obtain ⟨owner, ownAfter, parsedAgain, rewritten⟩ := exists_rewritten succeeded parsed
  obtain ⟨_, otherAfter, otherParsedAgain, otherRewritten⟩ :=
    exists_rewritten otherSucceeded otherParsed
  have header := shows_header rewritten named
  refine ⟨ownAfter, otherAfter, parsedAgain, otherParsedAgain, ?_⟩
  exact {
    named := by
      rw [ClassFile.name, rewritten.constants, rewritten.thisClass]
      exact named
    header := header
    entries := otherRewritten.entries.imp fun _ _ entry named => shows_entry entry named
    sameLevel := by
      intro directive found entry held named
      obtain ⟨word, shown⟩ := exists_shows_entry otherRewritten held named
      rw [found] at header shown
      exact shown.level_eq header
    sameFinal := by
      intro directive found toggles entry held named
      obtain ⟨word, shown⟩ := exists_shows_entry otherRewritten held named
      rw [found] at header shown
      exact shown.final_eq header toggles }

namespace Transform

/-- The last class directive for the class of `sample`. -/
def settling : Directive :=
  ⟨.protectedAccess, [.remove .final, .add .final], ⟨"A", fault?_sampleName⟩, .classItself⟩

/-- Rules with several class directives for the class of `sample`. -/
def competingRules : RuleSet :=
  .ofList [⟨.privateAccess, [], ⟨"A", fault?_sampleName⟩, .classItself⟩, settling]

/-- A class file with two entries for the class of `sample`, and one for its own class between
them. -/
def referring : ClassFile where
  version := ⟨52, 0⟩
  constants := SlotTable.ofList 1
    [.text [66], .classRef 1, .text [73, 110, 110, 101, 114, 67, 108, 97, 115, 115, 101, 115],
     .text [65], .classRef 4]
  access := 0x0021
  thisClass := 2
  superClass := 0
  interfaces := []
  fields := []
  methods := []
  attributes := [⟨3, [0, 3, 0, 5, 0, 2, 0, 4, 0, 2, 0, 2, 0, 0, 0, 0, 0, 1,
    0, 5, 0, 0, 0, 0, 0, 0x1B]⟩]

/-- No text, list or block of `referring` is too long. -/
theorem representable_referring : referring.Representable := by
  refine ⟨⟨_, rfl⟩, by decide, ?_, by decide, by decide, by decide, by decide, by decide, by decide⟩
  intro bytes held
  have texts : bytes = [66] ∨ bytes = [73, 110, 110, 101, 114, 67, 108, 97, 115, 115, 101, 115] ∨
      bytes = [65] := by
    simpa [referring, SlotTable.ofList] using held
  obtain rfl | rfl | rfl := texts <;> decide

/-- What these rules make of `sample`. -/
def competingMade : Transformed where
  bytes := toBytes { sample with
    access := 0x8034
    attributes := [⟨3, [0, 1, 0, 2, 0, 0, 0, 0, 0, 0x14]⟩] }
  outcome := {
    owner := "A"
    changed := 2
    nested := ["A"]
    warnings := [headerWarning settling] }

/-- What these rules make of `referring`. -/
def referringMade : Transformed where
  bytes := toBytes { referring with
    attributes := [⟨3, [0, 3, 0, 5, 0, 2, 0, 4, 0, 0x14, 0, 2, 0, 0, 0, 0, 0, 1,
      0, 5, 0, 0, 0, 0, 0, 0x1C]⟩] }
  outcome := { owner := "B", changed := 2, nested := ["A", "A"], warnings := [] }

end Transform

/-- The entries of `referring` for the class of `sample` become those of its header. The class of
`referring` has no class directive, and keeps its words. -/
theorem transform_reflects_sample :
    (transform competingRules sampleBytes).1 = .ok competingMade ∧
      (transform competingRules referring.toBytes).1 = .ok referringMade ∧
      (∃ ownAfter otherAfter, parse competingMade.bytes = .ok ownAfter ∧
        parse referringMade.bytes = .ok otherAfter ∧
        Reflects competingRules "A" sample ownAfter referring otherAfter) ∧
      ∃ ownAfter otherAfter, parse referringMade.bytes = .ok ownAfter ∧
        parse referringMade.bytes = .ok otherAfter ∧
        Reflects competingRules "B" referring ownAfter referring otherAfter := by
  have parsed : parse referring.toBytes = .ok referring :=
    parse_eq_ok_iff.mpr ⟨representable_referring, rfl⟩
  have named : sample.name = .ok "A" := by decide +kernel
  have otherNamed : referring.name = .ok "B" := by decide +kernel
  have succeeded : (transform competingRules sampleBytes).1 = .ok competingMade := by
    decide +kernel
  have otherSucceeded : (transform competingRules referring.toBytes).1 = .ok referringMade := by
    decide +kernel
  exact ⟨succeeded, otherSucceeded,
    transform_reflects succeeded parse_sampleBytes named otherSucceeded parsed,
    transform_reflects otherSucceeded parsed otherNamed otherSucceeded parsed⟩

end ClassAccess
