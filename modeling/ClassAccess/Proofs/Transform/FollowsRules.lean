import ClassAccess.Proofs.Transform.Decisions

/-!
# Transformed class files follow their rules

A successful transformation makes a class file that parses again and differs
from its input in access words only, each of which is decided by `find?` alone.
The outcome is determined by the two class files: it counts the words in which
they differ, and lists the nested classes that have a directive of their own.

Transformations that fail are not described here.
-/

namespace ClassAccess

open ClassFile Transform

/-- What holds of the class files before and after a transformation, and of its outcome. -/
structure FollowsRules (rules : RuleSet) (bytes : List UInt8) (made : Transformed)
    (owner : String) (before after : ClassFile) : Prop where
  parsed : parse bytes = .ok before
  named : before.name = .ok owner
  parsedAgain : parse made.bytes = .ok after
  words : Rewritten (decided rules owner) before after
  staticInitializers : ∀ (position : Nat) (method : Member),
    before.methods[position]? = some method →
    before.constants.text method.name = .ok UnqualifiedName.staticInitializer.text →
    after.methods[position]? = some method
  ownerReported : made.outcome.owner = owner
  sameCount : after.accessWords.length = before.accessWords.length
  changesCounted : made.outcome.changed =
    (before.accessWords.zip after.accessWords).countP fun words => words.2 ≠ words.1
  nestedReported : ∃ names,
    before.nestedEntries.mapM (fun entry => before.constants.className entry.self) = .ok names ∧
    made.outcome.nested =
      names.filter fun name => (rules.find? name ⟨.classItself, name, none⟩).isSome

namespace RuleSet

/-- No directive applies to static initializers. -/
theorem find?_staticInitializer (rules : RuleSet) (owner : String) (descriptor : Option String) :
    rules.find? owner ⟨.method, UnqualifiedName.staticInitializer.text, descriptor⟩ = none := by
  have unselected : (rules.directivesFor owner).filter
      (·.selects ⟨.method, UnqualifiedName.staticInitializer.text, descriptor⟩) = [] := by
    rw [List.filter_eq_nil_iff]
    intro directive _
    cases target : directive.target <;> simp [Directive.selects, Target.selects, target]
  rw [find?, unselected, List.foldl_nil]

end RuleSet

namespace Transform

/-- A rewritten static initializer is the same. -/
theorem eq_of_memberRewritten_staticInitializer {rules : RuleSet} {owner : String} {pool : Pool}
    {before after : Member}
    (rewritten : MemberRewritten pool .method (decided rules owner) before after)
    (initializer : pool.text before.name = .ok UnqualifiedName.staticInitializer.text) :
    after = before := by
  obtain ⟨name, descriptor, named, -, rfl⟩ := rewritten
  rw [initializer] at named
  cases named
  have undirected : directiveFor rules owner
      (.method UnqualifiedName.staticInitializer.text descriptor) = none :=
    rules.find?_staticInitializer owner (some descriptor)
  rw [decided, undirected]
  rfl

/-- The calls for members report no nested classes. -/
theorem filterMap_nestedFor_of_members {rules : RuleSet} {pool : Pool}
    {subject : String → String → Subject} {members : List Member} {calls : List Call}
    (silent : ∀ name descriptor, nestedFor rules (subject name descriptor) = none)
    (resolved : List.Forall₂ (fun member call => memberCall pool subject member = .ok call)
      members calls) : (calls.filterMap fun call => nestedFor rules call.subject) = [] := by
  induction resolved with
  | nil => rfl
  | cons first _ ih =>
      obtain ⟨name, descriptor, -, -, rfl⟩ := memberCall_eq_ok_iff.mp first
      rw [List.filterMap_cons, silent, ih]

/-- The calls for entries report the names of those nested classes that have a directive. -/
theorem filterMap_nestedFor_of_entries (rules : RuleSet) {pool : Pool}
    {entries : List NestedClass} {calls : List Call}
    (resolved : List.Forall₂ (fun entry call => nestedCall pool entry = .ok call)
      entries calls) :
    ∃ names, entries.mapM (fun entry => pool.className entry.self) = .ok names ∧
      (calls.filterMap fun call => nestedFor rules call.subject) =
        names.filter fun name => (rules.find? name ⟨.classItself, name, none⟩).isSome := by
  induction resolved with
  | nil => exact ⟨[], rfl, rfl⟩
  | cons first _ ih =>
      obtain ⟨names, resolved, reported⟩ := ih
      obtain ⟨name, named, rfl⟩ := nestedCall_eq_ok_iff.mp first
      refine ⟨name :: names, ?_, ?_⟩
      · rw [mapM_eq_ok_iff] at resolved ⊢
        exact .cons named resolved
      · rw [List.filterMap_cons, List.filter_cons, reported, nestedFor]
        by_cases directed : (rules.find? name ⟨.classItself, name, none⟩).isSome
        · rw [if_pos directed, if_pos directed]
        · rw [if_neg directed, if_neg directed]

/-- The calls of a class file report the names of its nested classes that have a directive. -/
theorem nested_of_calls (rules : RuleSet) {file : ClassFile} {calls : PerPlace Call}
    (resolved : file.calls = .ok calls) :
    ∃ names, file.nestedEntries.mapM (fun entry => file.constants.className entry.self) =
        .ok names ∧
      (calls.toList.filterMap fun call => nestedFor rules call.subject) =
        names.filter fun name => (rules.find? name ⟨.classItself, name, none⟩).isSome := by
  obtain ⟨⟨owner, -, header⟩, fields, methods, -⟩ := calls_eq_ok_iff.mp resolved
  obtain ⟨names, ofEntries, reported⟩ :=
    filterMap_nestedFor_of_entries rules (forall₂_nestedEntries resolved)
  refine ⟨names, ofEntries, ?_⟩
  rw [PerPlace.toList, List.filterMap_cons, List.filterMap_append, List.filterMap_append,
    filterMap_nestedFor_of_members (fun _ _ => rfl) fields,
    filterMap_nestedFor_of_members (fun _ _ => rfl) methods, reported, header]
  rfl

end Transform

/-- A transformation that succeeds follows its rules. -/
theorem transform_followsRules {rules : RuleSet} {bytes : List UInt8} {made : Transformed}
    (succeeded : (transform rules bytes).1 = .ok made) :
    ∃ owner before after, FollowsRules rules bytes made owner before after := by
  obtain ⟨file, owner, calls, parsed, named, resolved, stored, outcome⟩ :=
    transform_eq_ok_iff.mp succeeded
  have fits := (parse_eq_ok_iff.mp parsed).1
  have words := rewritten_withAccess resolved (decided rules owner)
  have before := accessWords_eq resolved
  have after := accessWords_withAccess resolved (decided rules owner)
  obtain ⟨names, ofEntries, reported⟩ := nested_of_calls rules resolved
  refine ⟨owner, file, file.withAccess (calls.map (decided rules owner)), ?_⟩
  exact {
    parsed := parsed
    named := named
    parsedAgain := parse_eq_ok_iff.mpr ⟨fits.withAccess _, stored⟩
    words := words
    staticInitializers := by
      intro position method declared initializer
      obtain ⟨rewritten, found, both⟩ := exists_getElem?_of_forall₂ words.methods declared
      rw [found, eq_of_memberRewritten_staticInitializer both initializer]
    ownerReported := by
      rw [outcome]
      rfl
    sameCount := by
      rw [before, after, List.length_map, List.length_map]
    changesCounted := by
      rw [outcome, before, after, List.zip_map', List.countP_map, changed_outcomeFor]
      rfl
    nestedReported := by
      refine ⟨names, ofEntries, ?_⟩
      rw [outcome, ← reported, nested_outcomeFor] }

/-- The transformation of `sample` follows the rules for it. -/
theorem transform_followsRules_sample :
    (transform sampleRules sampleBytes).1 = .ok sampleMade ∧
      ∃ owner before after, FollowsRules sampleRules sampleBytes sampleMade owner before after :=
  ⟨transform_sampleBytes, transform_followsRules transform_sampleBytes⟩

end ClassAccess
