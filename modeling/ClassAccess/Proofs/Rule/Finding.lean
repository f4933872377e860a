import ClassAccess.Rule.RuleSet
import Mathlib.Data.List.Induction

/-!
# Which directive applies

`find?` folds over the directives that select what is sought. This module says
what comes of it without the fold: `Selects` is when a directive takes part, and
`Prevails` which of those that take part applies. Directives need not be ones that
can be read from a line: a field pattern with a descriptor selects nothing, and
neither does a pattern for static initializers.
-/

namespace ClassAccess

/-- What a target selects. Fields are compared by their names alone, and static initializers are
left alone. -/
inductive Target.Selects : Target → Query → Prop where
  | classItself {name : String} {descriptor : Option String} :
      Selects .classItself ⟨.classItself, name, descriptor⟩
  | everyField {name : String} {descriptor : Option String} :
      Selects (.field .every) ⟨.field, name, descriptor⟩
  | everyMethod {name : String} {descriptor : Option String} (ordinary : name ≠ "<clinit>") :
      Selects (.method .every) ⟨.method, name, descriptor⟩
  | namedField {name : UnqualifiedName} {descriptor : Option String} :
      Selects (.field (.named name none)) ⟨.field, name.text, descriptor⟩
  | namedMethod {name : UnqualifiedName} {descriptor : Option String}
      (ordinary : name.text ≠ "<clinit>") :
      Selects (.method (.named name descriptor)) ⟨.method, name.text, descriptor⟩

/-- A target is found to select what it selects. -/
theorem Target.selects_iff {target : Target} {query : Query} :
    target.selects query = true ↔ target.Selects query := by
  obtain ⟨kind, name, descriptor⟩ := query
  constructor
  · intro selected
    cases target with
    | classItself =>
        cases kind with
        | classItself => exact .classItself
        | field | method => cases selected
    | field pattern =>
        cases kind with
        | classItself | method => cases selected
        | field =>
            cases pattern with
            | every => exact .everyField
            | named expected expectedDescriptor =>
                simp only [selects, MemberPattern.selects, Bool.and_eq_true, beq_iff_eq] at selected
                obtain ⟨rfl, rfl⟩ := selected
                exact .namedField
    | method pattern =>
        cases kind with
        | classItself | field => cases selected
        | method =>
            simp only [selects, Bool.and_eq_true, bne_iff_ne] at selected
            obtain ⟨ordinary, selected⟩ := selected
            cases pattern with
            | every => exact .everyMethod ordinary
            | named expected expectedDescriptor =>
                simp only [MemberPattern.selects, Bool.and_eq_true, beq_iff_eq] at selected
                obtain ⟨rfl, rfl⟩ := selected
                exact .namedMethod ordinary
  · intro selects
    cases selects with
    | classItself => rfl
    | everyField => rfl
    | everyMethod ordinary =>
        simp only [Target.selects, MemberPattern.selects, Bool.and_true, bne_iff_ne]
        exact ordinary
    | namedField => simp [Target.selects, MemberPattern.selects]
    | namedMethod ordinary =>
        simp only [Target.selects, MemberPattern.selects, beq_self_eq_true, Bool.and_true,
          bne_iff_ne]
        exact ordinary

instance (target : Target) (query : Query) : Decidable (target.Selects query) :=
  decidable_of_iff _ Target.selects_iff

/-- Targets that stand for every field or every method of a class. -/
inductive Target.IsWild : Target → Prop where
  | fields : IsWild (.field .every)
  | methods : IsWild (.method .every)

/-- The targets that stand for every member of a kind are known as wildcards. -/
theorem Target.isWildcard_iff {target : Target} : target.isWildcard = true ↔ target.IsWild := by
  constructor
  · intro isWildcard
    match target, isWildcard with
    | .field .every, _ => exact .fields
    | .method .every, _ => exact .methods
  · intro wild
    cases wild <;> rfl

/-- All other targets are known as exact. -/
theorem Target.not_isWildcard_iff {target : Target} :
    (!target.isWildcard) = true ↔ ¬target.IsWild := by
  rw [← isWildcard_iff, Bool.not_eq_true', Bool.not_eq_true]

instance (target : Target) : Decidable target.IsWild := decidable_of_iff _ Target.isWildcard_iff

/-- A directive is at least as precise as another one unless it alone is a wildcard. -/
theorem Directive.rank_precision_le_iff {directive other : Directive} :
    directive.precision.rank ≤ other.precision.rank ↔
      (other.target.IsWild → directive.target.IsWild) := by
  have rank (directive : Directive) :
      directive.precision.rank = if directive.target.isWildcard then 0 else 1 := by
    rw [precision]
    split <;> rfl
  rw [rank, rank, ← Target.isWildcard_iff, ← Target.isWildcard_iff]
  cases directive.target.isWildcard <;> cases other.target.isWildcard <;> simp

namespace RuleSet

/-- The directives of an owner that select what is sought, in order. -/
def competing (rules : RuleSet) (owner : String) (query : Query) : List Directive :=
  (rules.directivesFor owner).filter fun directive => directive.target.Selects query

/-- Of competing directives in order, the last exact one prevails, or else the last wildcard. -/
inductive Prevails : List Directive → Directive → Prop where
  | exactly {before after : List Directive} {directive : Directive}
      (isExact : ¬directive.target.IsWild) (weaker : ∀ later ∈ after, later.target.IsWild) :
      Prevails (before ++ directive :: after) directive
  | wildcard {before : List Directive} {directive : Directive}
      (weak : ∀ other ∈ before ++ [directive], other.target.IsWild) :
      Prevails (before ++ [directive]) directive

/-- A directive that stands alone prevails. -/
theorem prevails_singleton (directive : Directive) : Prevails [directive] directive := by
  by_cases wild : directive.target.IsWild
  · have alone : Prevails ([] ++ [directive]) directive :=
      .wildcard (List.forall_mem_singleton.mpr wild)
    exact alone
  · have alone : Prevails ([] ++ [directive]) directive := .exactly wild (List.forall_mem_nil _)
    exact alone

/-- A wildcard prevails among wildcards only. -/
theorem Prevails.wildcards {directives : List Directive} {directive : Directive}
    (prevails : Prevails directives directive) (wild : directive.target.IsWild) :
    ∀ other ∈ directives, other.target.IsWild := by
  cases prevails with
  | exactly isExact weaker => exact absurd wild isExact
  | wildcard weak => exact weak

/-- A directive that prevails also does so behind others, as long as it is no wildcard behind an
exact one. -/
theorem Prevails.behind {directives : List Directive} {directive : Directive}
    (prevails : Prevails directives directive) {earlier : List Directive}
    (weaker : directive.target.IsWild → ∀ other ∈ earlier, other.target.IsWild) :
    Prevails (earlier ++ directives) directive := by
  cases prevails with
  | exactly isExact later =>
      rw [← List.append_assoc]
      exact .exactly isExact later
  | wildcard weak =>
      have wild := weak directive (List.mem_append_right _ List.mem_cons_self)
      have all := List.forall_mem_append.mpr ⟨weaker wild, weak⟩
      rw [← List.append_assoc] at all ⊢
      exact .wildcard all

/-- An exact directive that prevails also does so in front of wildcards. -/
theorem Prevails.ahead {directives : List Directive} {directive : Directive}
    (prevails : Prevails directives directive) (isExact : ¬directive.target.IsWild)
    {later : List Directive} (weaker : ∀ other ∈ later, other.target.IsWild) :
    Prevails (directives ++ later) directive := by
  cases prevails with
  | exactly _ after =>
      rw [List.append_assoc]
      exact .exactly isExact (List.forall_mem_append.mpr ⟨after, weaker⟩)
  | wildcard weak =>
      exact absurd (weak directive (List.mem_append_right _ List.mem_cons_self)) isExact

/-- The last exact directive, or else the last of all. -/
def lastPrecise? (directives : List Directive) : Option Directive :=
  match (directives.filter fun directive => !directive.target.isWildcard).getLast? with
  | some directive => some directive
  | none => directives.getLast?

/-- The last exact directive, or else the last of all, is the one that prevails. -/
theorem lastPrecise?_eq_some_iff {directives : List Directive} {directive : Directive} :
    lastPrecise? directives = some directive ↔ Prevails directives directive := by
  constructor
  · intro last
    rw [lastPrecise?] at last
    split at last
    · next exactOne ofExact =>
        cases last
        obtain ⟨_, cut⟩ := List.getLast?_eq_some_iff.mp ofExact
        obtain ⟨front, back, rfl, -, ofBack⟩ := List.filter_eq_append_iff.mp cut
        obtain ⟨between, after, rfl, -, isExact, ofAfter⟩ := List.filter_eq_cons_iff.mp ofBack
        rw [← List.append_assoc]
        refine .exactly (Target.not_isWildcard_iff.mp isExact) fun later behind => ?_
        exact not_not.mp (mt Target.not_isWildcard_iff.mpr
          (List.filter_eq_nil_iff.mp ofAfter later behind))
    · next ofExact =>
        rw [List.getLast?_eq_none_iff] at ofExact
        obtain ⟨before, rfl⟩ := List.getLast?_eq_some_iff.mp last
        refine .wildcard fun other among => ?_
        exact not_not.mp (mt Target.not_isWildcard_iff.mpr
          (List.filter_eq_nil_iff.mp ofExact other among))
  · intro prevails
    cases prevails with
    | @exactly before after directive isExact weaker =>
        have ofAfter : (after.filter fun later => !later.target.isWildcard) = [] := by
          rw [List.filter_eq_nil_iff]
          intro later behind
          simp [Target.isWildcard_iff.mpr (weaker later behind)]
        have passes : directive.target.isWildcard = false := by
          simpa using Target.not_isWildcard_iff.mpr isExact
        simp [lastPrecise?, passes, ofAfter]
    | @wildcard before directive weak =>
        have ofAll :
            ((before ++ [directive]).filter fun other => !other.target.isWildcard) = [] := by
          rw [List.filter_eq_nil_iff]
          intro other among
          simp [Target.isWildcard_iff.mpr (weak other among)]
        simp [lastPrecise?, ofAll]

/-- There is a last directive unless there is none at all. -/
theorem lastPrecise?_eq_none_iff {directives : List Directive} :
    lastPrecise? directives = none ↔ directives = [] := by
  rw [lastPrecise?]
  constructor
  · intro missing
    split at missing
    · cases missing
    · exact List.getLast?_eq_none_iff.mp missing
  · rintro rfl
    rfl

/-- One more directive is preferred to those before it unless it is the less precise one. -/
theorem lastPrecise?_append_singleton (directives : List Directive) (next : Directive) :
    lastPrecise? (directives ++ [next]) = prefer (lastPrecise? directives) next := by
  have alone := prevails_singleton next
  cases found : lastPrecise? directives with
  | none =>
      rw [lastPrecise?_eq_none_iff.mp found]
      exact lastPrecise?_eq_some_iff.mpr alone
  | some directive =>
      have prevails := lastPrecise?_eq_some_iff.mp found
      change _ = if directive.precision.rank ≤ next.precision.rank then some next
        else some directive
      split
      · next precise =>
          rw [Directive.rank_precision_le_iff] at precise
          exact lastPrecise?_eq_some_iff.mpr
            (alone.behind fun wild => prevails.wildcards (precise wild))
      · next vague =>
          rw [Directive.rank_precision_le_iff, Classical.not_imp] at vague
          exact lastPrecise?_eq_some_iff.mpr
            (prevails.ahead vague.2 (List.forall_mem_singleton.mpr vague.1))

/-- Preferring one directive after the other leaves the one that prevails. -/
theorem foldl_prefer (directives : List Directive) :
    directives.foldl prefer none = lastPrecise? directives := by
  induction directives using List.reverseRecOn with
  | nil => rfl
  | append_singleton directives next ih =>
      rw [List.foldl_append, ih, lastPrecise?_append_singleton]
      rfl

/-- The directives that select what is sought are those that compete. -/
theorem filter_selects (rules : RuleSet) (owner : String) (query : Query) :
    (rules.directivesFor owner).filter (·.selects query) = rules.competing owner query := by
  refine List.filter_congr fun directive _ => ?_
  rw [Directive.selects, Bool.eq_iff_iff, Target.selects_iff, decide_eq_true_iff]

/-- The directive that applies is the last one of the most precise that compete. -/
theorem find?_eq_lastPrecise? (rules : RuleSet) (owner : String) (query : Query) :
    rules.find? owner query = lastPrecise? (rules.competing owner query) := by
  rw [find?, filter_selects, foldl_prefer]

/-- Of the directives that compete for what is sought, the one that prevails applies, as a scan for
the last exact one and then for the last wildcard finds it. None applies if none competes. -/
theorem find?_prevails (rules : RuleSet) (owner : String) (query : Query) :
    (rules.find? owner query = none ↔ rules.competing owner query = []) ∧
      (∀ directive, rules.find? owner query = some directive ↔
        Prevails (rules.competing owner query) directive) ∧
      rules.find? owner query = rules.scan? owner query := by
  rw [find?_eq_lastPrecise?]
  refine ⟨lastPrecise?_eq_none_iff, fun directive => lastPrecise?_eq_some_iff, ?_⟩
  rw [← filter_selects]
  rfl

end RuleSet

end ClassAccess
