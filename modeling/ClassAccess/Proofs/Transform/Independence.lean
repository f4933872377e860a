import ClassAccess.Proofs.Rule.Building
import ClassAccess.Proofs.Transform.Decisions

/-!
# Rules that do not concern a class

A transformation of a class asks its rules for two things: the directives of the
class itself, and the class directives of the nested classes that it has entries
for. Rule sets that agree on these transform the class alike. So nothing comes of
directives for other owners, or for members of other classes, wherever they stand
among those that do concern the class.

The log is not compared.
-/

namespace ClassAccess

open ClassFile Transform

namespace RuleSet

/-- The directives of an owner have it as their owner. -/
theorem owner_of_mem_directivesFor {rules : RuleSet} {owner : String} {directive : Directive}
    (held : directive ∈ rules.directivesFor owner) : directive.owner.text = owner := by
  rw [directivesFor, List.mem_reverse, Std.ExtTreeMap.getD_eq_getD_getElem?] at held
  cases stored : rules.groups[owner]? with
  | none =>
      rw [stored] at held
      cases held
  | some group =>
      rw [stored] at held
      exact (rules.grouped owner group stored).2 directive held

/-- Rule sets with the same directives for an owner find the same for it. -/
theorem find?_congr {left right : RuleSet} {owner : String}
    (same : left.directivesFor owner = right.directivesFor owner) (query : Query) :
    left.find? owner query = right.find? owner query := by
  rw [find?, find?, same]

end RuleSet

namespace Transform

/-- Rule sets agree on what a class file makes a transformation ask for. -/
structure AgreeOn (left right : RuleSet) (file : ClassFile) (owner : String) : Prop where
  own : left.directivesFor owner = right.directivesFor owner
  nested : ∀ entry ∈ file.nestedEntries, ∀ name, file.constants.className entry.self = .ok name →
    classDirective left name = classDirective right name

/-- Whether a directive concerns a class file: it is for the class itself, or is a class directive
for a nested class that the class file has an entry for. -/
def concerns (file : ClassFile) (owner : String) (directive : Directive) : Bool :=
  directive.owner.text = owner ||
    directive.target = .classItself &&
      file.nestedEntries.any fun entry =>
        (file.constants.className entry.self).toOption = some directive.owner.text

variable {left right : RuleSet} {file : ClassFile} {owner : String} {calls : PerPlace Call}

/-- A directive selects a class when it is a class directive. -/
theorem selects_class_iff {directive : Directive} {name : String} {descriptor : Option String} :
    directive.selects ⟨.classItself, name, descriptor⟩ = true ↔
      directive.target = .classItself := by
  rw [Directive.selects]
  cases directive.target <;> simp [Target.selects]

/-- A directive that selects a nested class concerns a class file with an entry for it. -/
theorem concerns_of_selects {directive : Directive} {entry : NestedClass} {name : String}
    (held : entry ∈ file.nestedEntries)
    (named : file.constants.className entry.self = .ok directive.owner.text)
    (selected : directive.selects ⟨.classItself, name, none⟩ = true) :
    concerns file owner directive = true := by
  have found : file.nestedEntries.any (fun entry =>
      (file.constants.className entry.self).toOption = some directive.owner.text) = true := by
    rw [List.any_eq_true]
    exact ⟨entry, held, by rw [named]; exact decide_eq_true rfl⟩
  rw [concerns, found, selects_class_iff.mp selected]
  simp

/-- Rule sets agree on a class file when the directives that concern it are the same, in the same
order for each owner. -/
theorem agreeOn_of_concerns
    (same : ∀ name, (left.directivesFor name).filter (concerns file owner) =
      (right.directivesFor name).filter (concerns file owner)) : AgreeOn left right file owner where
  own := by
    have all : ∀ rules : RuleSet,
        (rules.directivesFor owner).filter (concerns file owner) = rules.directivesFor owner := by
      intro rules
      rw [List.filter_eq_self]
      intro directive held
      simp [concerns, RuleSet.owner_of_mem_directivesFor held]
    rw [← all left, ← all right, same]
  nested := by
    intro entry held name named
    -- Class directives for the name of an entry are among those that concern the class file.
    have among : ∀ rules : RuleSet,
        (rules.directivesFor name).filter (·.selects ⟨.classItself, name, none⟩) =
          ((rules.directivesFor name).filter (concerns file owner)).filter
            (·.selects ⟨.classItself, name, none⟩) := by
      intro rules
      rw [List.filter_filter]
      refine List.filter_congr fun directive member => ?_
      have owned := RuleSet.owner_of_mem_directivesFor member
      rw [← owned] at named
      rw [Bool.eq_iff_iff, Bool.and_eq_true]
      exact ⟨fun selected => ⟨selected, concerns_of_selects held named selected⟩, And.left⟩
    rw [classDirective, classDirective, RuleSet.find?, RuleSet.find?, among left, among right, same]

/-- Rule sets that agree on a class file have the same directive for each of its calls. -/
theorem directiveFor_of_agreeOn (agree : AgreeOn left right file owner)
    (named : file.name = .ok owner) (resolved : file.calls = .ok calls) {call : Call}
    (made : call ∈ calls.toList) :
    directiveFor left owner call.subject = directiveFor right owner call.subject := by
  rcases subject_cases resolved made with
    ⟨name, own, subject⟩ | ⟨name, descriptor, subject⟩ | ⟨name, descriptor, subject⟩ |
    ⟨entry, held, name, own, subject⟩
  · rw [named] at own
    cases own
    rw [subject]
    exact RuleSet.find?_congr agree.own _
  · rw [subject]
    exact RuleSet.find?_congr agree.own _
  · rw [subject]
    exact RuleSet.find?_congr agree.own _
  · rw [subject]
    exact agree.nested entry held name own

/-- The nested class that a call reports depends on the directive for it. -/
theorem nestedFor_congr {subject : Subject}
    (same : directiveFor left owner subject = directiveFor right owner subject) :
    nestedFor left subject = nestedFor right subject := by
  cases subject with
  | nested name => simp only [nestedFor, directiveFor] at same ⊢; rw [same]
  | _ => rfl

/-- Rule sets that agree on a class file decide on the same words for it. -/
theorem map_decided_of_agreeOn (agree : AgreeOn left right file owner)
    (named : file.name = .ok owner) (resolved : file.calls = .ok calls) :
    calls.map (decided left owner) = calls.map (decided right owner) := by
  refine PerPlace.map_congr fun call made => ?_
  rw [decided, decided, directiveFor_of_agreeOn agree named resolved made]

/-- Rule sets that agree on a class file have the same outcome for it. -/
theorem outcomeFor_of_agreeOn (agree : AgreeOn left right file owner)
    (named : file.name = .ok owner) (resolved : file.calls = .ok calls) :
    outcomeFor left owner file calls.toList = outcomeFor right owner file calls.toList := by
  have same : ∀ call ∈ calls.toList,
      directiveFor left owner call.subject = directiveFor right owner call.subject :=
    fun call made => directiveFor_of_agreeOn agree named resolved made
  rw [outcomeFor_eq, outcomeFor_eq]
  congr 1
  · refine List.countP_congr fun call made => ?_
    rw [decided, decided, same call made]
  · exact List.filterMap_congr fun call made => nestedFor_congr (same call made)
  · refine List.filterMap_congr fun call made => ?_
    change (directiveFor left owner call.subject).bind _ =
      (directiveFor right owner call.subject).bind _
    rw [same call made]
    rfl

end Transform

/-- Bytes are transformed alike by rule sets that agree on what the class file in them, if there is
one with a name, makes a transformation ask for; and they agree if the directives that concern the
class file are the same. -/
theorem transform_noninterference (left right : RuleSet) (bytes : List UInt8) :
    ((∀ file owner, parse bytes = .ok file → file.name = .ok owner →
        AgreeOn left right file owner) →
      (transform left bytes).1 = (transform right bytes).1) ∧
    ((∀ file owner, parse bytes = .ok file → file.name = .ok owner → ∀ name,
        (left.directivesFor name).filter (concerns file owner) =
          (right.directivesFor name).filter (concerns file owner)) →
      (transform left bytes).1 = (transform right bytes).1) := by
  have alike : (∀ file owner, parse bytes = .ok file → file.name = .ok owner →
      AgreeOn left right file owner) →
        (transform left bytes).1 = (transform right bytes).1 := by
    intro agree
    cases parsed : parse bytes with
    | error fault => rw [transform_of_parse_fault parsed, transform_of_parse_fault parsed]
    | ok file =>
        cases resolved : file.calls with
        | error fault =>
            rw [transform_of_calls_fault parsed resolved, transform_of_calls_fault parsed resolved]
        | ok calls =>
            obtain ⟨⟨owner, named, -⟩, -⟩ := calls_eq_ok_iff.mp resolved
            have onFile := agree file owner parsed named
            rw [transform_of_calls parsed named resolved, transform_of_calls parsed named resolved,
              map_decided_of_agreeOn onFile named resolved,
              outcomeFor_of_agreeOn onFile named resolved]
  refine ⟨alike, fun same => alike fun file owner parsed named => ?_⟩
  exact agreeOn_of_concerns (same file owner parsed named)

/-- The directives of `sampleRules`, with others for a class that `sample` says nothing about in
between. -/
def Transform.scatteredRules : RuleSet :=
  .ofList [⟨.privateAccess, [], ⟨"B", by decide⟩, .classItself⟩,
    ⟨.publicAccess, [], ⟨"A", fault?_sampleName⟩, .classItself⟩,
    ⟨.privateAccess, [.add .final], ⟨"B", by decide⟩, .field .every⟩,
    ⟨.publicAccess, [.add .final], ⟨"A", fault?_sampleName⟩, .field .every⟩,
    ⟨.privateAccess, [], ⟨"B", by decide⟩, .method .every⟩]

/-- The added directives do not concern `sample`, and make nothing else of it. -/
theorem transform_noninterference_sample :
    (∀ file owner, parse sampleBytes = .ok file → file.name = .ok owner →
      AgreeOn sampleRules scatteredRules file owner ∧
        ∀ name, (sampleRules.directivesFor name).filter (concerns file owner) =
          (scatteredRules.directivesFor name).filter (concerns file owner)) ∧
      (transform sampleRules sampleBytes).1 = (transform scatteredRules sampleBytes).1 ∧
      (transform scatteredRules sampleBytes).1 = .ok sampleMade := by
  have same : ∀ file owner, parse sampleBytes = .ok file → file.name = .ok owner → ∀ name,
      (sampleRules.directivesFor name).filter (concerns file owner) =
        (scatteredRules.directivesFor name).filter (concerns file owner) := by
    intro file owner parsed named name
    rw [parse_sampleBytes] at parsed
    cases parsed
    have own : sample.name = .ok "A" := by decide +kernel
    rw [own] at named
    cases named
    rw [sampleRules, scatteredRules, RuleSet.directivesFor_ofList, RuleSet.directivesFor_ofList,
      List.filter_comm, List.filter_comm (concerns sample "A")]
    refine congrArg (List.filter _) ?_
    decide +kernel
  have agree : ∀ file owner, parse sampleBytes = .ok file → file.name = .ok owner →
      AgreeOn sampleRules scatteredRules file owner :=
    fun file owner parsed named => agreeOn_of_concerns (same file owner parsed named)
  obtain ⟨ofAgreement, ofConcerns⟩ :=
    transform_noninterference sampleRules scatteredRules sampleBytes
  refine ⟨fun file owner parsed named =>
    ⟨agree file owner parsed named, same file owner parsed named⟩, ofAgreement agree, ?_⟩
  rw [← ofConcerns same, transform_sampleBytes]

end ClassAccess
