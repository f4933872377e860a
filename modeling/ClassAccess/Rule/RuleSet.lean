import ClassAccess.Rule.Directive
import Std.Data.ExtTreeMap

/-!
# Rule sets

A rule set groups directives by the class that they belong to, each group in the
order in which its directives were added. Nothing is dropped: of several
directives for one member, `find?` picks the most precise one, and of equally
precise ones the last.
-/

namespace ClassAccess

/-- The directives of each owner, the last one first. Every group is non-empty and holds
directives of its own owner only, so that equal rule sets have equal groups. -/
structure RuleSet where
  groups : Std.ExtTreeMap String (List Directive)
  grouped : ∀ (owner : String) (group : List Directive), groups[owner]? = some group →
    group ≠ [] ∧ ∀ directive ∈ group, directive.owner.text = owner

namespace RuleSet

/-- The rule set without directives. -/
def empty : RuleSet where
  groups := ∅
  grouped := by simp

instance : Inhabited RuleSet := ⟨empty⟩

/-- The directives of an owner, in the order in which they were added. -/
def directivesFor (rules : RuleSet) (owner : String) : List Directive :=
  (rules.groups.getD owner []).reverse

/-- Adds a directive after those of its owner. -/
def push (rules : RuleSet) (directive : Directive) : RuleSet where
  groups := rules.groups.insert directive.owner.text
    (directive :: rules.groups.getD directive.owner.text [])
  grouped := by
    intro owner group stored
    rw [Std.ExtTreeMap.getElem?_insert] at stored
    split at stored
    · next same =>
        simp only [Std.LawfulEqCmp.compare_eq_iff_eq] at same
        subst same
        simp only [Option.some.injEq] at stored
        subst stored
        refine ⟨by simp, fun other member => ?_⟩
        rcases List.mem_cons.1 member with rfl | earlier
        · rfl
        · rw [Std.ExtTreeMap.getD_eq_getD_getElem?] at earlier
          cases found : rules.groups[directive.owner.text]? with
          | none => simp [found] at earlier
          | some group =>
              rw [found] at earlier
              exact (rules.grouped _ _ found).2 other earlier
    · exact rules.grouped owner group stored

/-- Adds several directives in order. -/
def pushAll (rules : RuleSet) (directives : List Directive) : RuleSet :=
  directives.foldl push rules

/-- Without directives, no owner has any. -/
@[simp] theorem directivesFor_empty (owner : String) : empty.directivesFor owner = [] := by
  simp [directivesFor, empty]

/-- An added directive comes last among those of its owner. -/
theorem directivesFor_push (rules : RuleSet) (directive : Directive) (owner : String) :
    (rules.push directive).directivesFor owner =
      rules.directivesFor owner ++ if directive.owner.text = owner then [directive] else [] := by
  simp only [push, directivesFor, Std.ExtTreeMap.getD_insert,
    Std.LawfulEqCmp.compare_eq_iff_eq]
  split
  · next same => simp [same]
  · simp

/-- Added directives come last, in their order, among those of their owners. -/
theorem directivesFor_pushAll (rules : RuleSet) (added : List Directive) (owner : String) :
    (rules.pushAll added).directivesFor owner =
      rules.directivesFor owner ++ added.filter (·.owner.text = owner) := by
  induction added generalizing rules with
  | nil => simp [pushAll]
  | cons directive rest ih =>
      have tail := ih (rules.push directive)
      simp only [pushAll, List.foldl_cons] at tail ⊢
      rw [tail, directivesFor_push]
      by_cases same : directive.owner.text = owner <;> simp [same]

/-- The rule set of some directives. -/
def ofList (directives : List Directive) : RuleSet := empty.pushAll directives

/-- Every directive, the owners in ascending order. -/
def directives (rules : RuleSet) : List Directive :=
  rules.groups.toList.flatMap fun group => group.2.reverse

/-- Adds the directives of another rule set after those of the same owner here. -/
def merge (rules later : RuleSet) : RuleSet := rules.pushAll later.directives

/-- The owners, in ascending order. -/
def owners (rules : RuleSet) : List String := rules.groups.keys

/-- Whether an owner has directives. -/
def hasOwner (rules : RuleSet) (owner : String) : Bool := rules.groups.contains owner

/-- The number of directives. -/
def size (rules : RuleSet) : Nat :=
  rules.groups.foldl (fun count _ group => count + group.length) 0

/-- Whether there are no directives. -/
def isEmpty (rules : RuleSet) : Bool := rules.groups.isEmpty

/-- Rule sets are equal when they have the same owners with the same directives. -/
instance : BEq RuleSet where
  beq left right := left.groups.toList == right.groups.toList

/-- The better of two candidates, the second of which was added later. -/
def prefer (best : Option Directive) (next : Directive) : Option Directive :=
  match best with
  | none => some next
  | some directive =>
      if directive.precision.rank ≤ next.precision.rank then some next else some directive

/-- The directive that applies to what is sought in an owner. -/
def find? (rules : RuleSet) (owner : String) (query : Query) : Option Directive :=
  ((rules.directivesFor owner).filter (·.selects query)).foldl prefer none

/-- The directive that applies, by scanning the exact directives for the last one and then
the wildcards. -/
def scan? (rules : RuleSet) (owner : String) (query : Query) : Option Directive :=
  let selected := (rules.directivesFor owner).filter (·.selects query)
  match (selected.filter fun directive => !directive.target.isWildcard).getLast? with
  | some directive => some directive
  | none => selected.getLast?

end RuleSet

end ClassAccess
