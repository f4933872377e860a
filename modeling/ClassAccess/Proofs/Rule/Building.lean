import ClassAccess.Proofs.Rule.Source
import Mathlib.Data.List.Permutation

/-!
# Building rule sets

However a rule set is built, it holds the directives that were added to it and
nothing else, those of each owner in the order in which they were added. This
makes two rule sets the same as soon as they give the same directives for each
owner, and it settles the order in which the groups of one rule set are merged
into another: there is none to be seen.

Which directive is picked for a member is not described here.
-/

namespace ClassAccess.RuleSet

/-- Adds a group of directives after those of its owner. Groups are kept the last directive
first, so the later group stands in front. -/
def addGroup (groups : Std.ExtTreeMap String (List Directive))
    (group : String × List Directive) : Std.ExtTreeMap String (List Directive) :=
  groups.insert group.1 (group.2 ++ groups.getD group.1 [])

/-- The directives of some groups, group by group. -/
def ungroup (order : List (String × List Directive)) : List Directive :=
  order.flatMap fun group => group.2.reverse

/-- The ways of building a rule set, each with the directives that it adds, in order. The groups of
a rule set that is merged into another one come in any order. -/
inductive Built : List Directive → RuleSet → Prop where
  | new : Built [] empty
  | push {added : List Directive} {rules : RuleSet} (earlier : Built added rules)
      (directive : Directive) : Built (added ++ [directive]) (rules.push directive)
  | extend {added : List Directive} {rules : RuleSet} (earlier : Built added rules)
      (more : List Directive) : Built (added ++ more) (rules.pushAll more)
  | collect (directives : List Directive) : Built directives (ofList directives)
  | ofLines {lines : List String} {directives : List Directive} {rules : RuleSet}
      (parsed : lines.mapM Directive.parse = .ok directives) (made : ofLines lines = .ok rules) :
      Built directives rules
  | merge {added addedLater : List Directive} {rules later merged : RuleSet}
      {order : List (String × List Directive)} (earlier : Built added rules)
      (other : Built addedLater later) (inOrder : order.Perm later.groups.toList)
      (grouped : merged.groups = order.foldl addGroup rules.groups) :
      Built (added ++ addedLater) merged

/-- A rule set holds some directives and no others, those of each owner in order. -/
structure Collects (rules : RuleSet) (added : List Directive) : Prop where
  directivesFor : ∀ owner, rules.directivesFor owner = added.filter (·.owner.text = owner)
  directives : rules.directives.Perm added
  size : rules.size = added.length
  isEmpty : rules.isEmpty = true ↔ added.length = 0
  hasOwner : ∀ owner, rules.hasOwner owner = true ↔ rules.directivesFor owner ≠ []
  owners : ∀ owner, owner ∈ rules.owners ↔ rules.directivesFor owner ≠ []
  ownersOnce : rules.owners.Nodup

/-- What equality and merging of rule sets come to. -/
structure MergeLaws : Prop where
  equal : ∀ left right : RuleSet,
    (left == right) = true ↔ ∀ owner, left.directivesFor owner = right.directivesFor owner
  same : ∀ left right : RuleSet, (left == right) = true ↔ left = right
  inAnyOrder : ∀ (rules later : RuleSet) (order : List (String × List Directive)),
    order.Perm later.groups.toList →
      order.foldl addGroup rules.groups = (rules.merge later).groups
  assoc : ∀ first second third : RuleSet,
    (first.merge second).merge third = first.merge (second.merge third)
  empty_merge : ∀ rules : RuleSet, empty.merge rules = rules
  merge_empty : ∀ rules : RuleSet, rules.merge empty = rules
  ofLines_append : ∀ lines later : List String,
    (∀ line ∈ lines ++ later, ∃ directive, Directive.parse line = .ok directive) →
      ∃ rules laterRules, ofLines lines = .ok rules ∧ ofLines later = .ok laterRules ∧
        ofLines (lines ++ later) = .ok (rules.merge laterRules)

variable {rules later : RuleSet} {order : List (String × List Directive)} {owner : String}

/-- The group of an owner is made up of its directives, and an owner without any has no group. -/
theorem getElem?_groups (rules : RuleSet) (owner : String) :
    rules.groups[owner]? =
      if rules.directivesFor owner = [] then none
      else some (rules.directivesFor owner).reverse := by
  rw [directivesFor, Std.ExtTreeMap.getD_eq_getD_getElem?]
  cases stored : rules.groups[owner]? with
  | none => rfl
  | some group =>
      have filled := (rules.grouped owner group stored).1
      simp [filled]

/-- Rule sets with the same groups are the same. -/
theorem eq_of_groups {left right : RuleSet} (same : left.groups = right.groups) : left = right := by
  cases left
  cases right
  cases same
  rfl

/-- Rule sets with the same directives for each owner are the same. -/
theorem ext_directivesFor {left right : RuleSet}
    (same : ∀ owner, left.directivesFor owner = right.directivesFor owner) : left = right := by
  refine eq_of_groups (Std.ExtTreeMap.ext_getElem? fun owner => ?_)
  rw [getElem?_groups, getElem?_groups, same]

/-- A rule set has a group for each owner with directives. -/
theorem isSome_groups_iff :
    (rules.groups[owner]?).isSome = true ↔ rules.directivesFor owner ≠ [] := by
  rw [getElem?_groups]
  split
  · next none => simp [none]
  · next some => simp [some]

/-- The owners of a rule set are those with directives. -/
theorem mem_owners_iff : owner ∈ rules.owners ↔ rules.directivesFor owner ≠ [] := by
  rw [owners, Std.ExtTreeMap.mem_keys, ← isSome_groups_iff, Std.ExtTreeMap.mem_iff_isSome_getElem?]

/-- Rule sets are equal when they have the same directives for each owner. -/
theorem beq_iff {left right : RuleSet} : (left == right) = true ↔ left = right := by
  change (left.groups.toList == right.groups.toList) = true ↔ _
  rw [beq_iff_eq, Std.ExtTreeMap.toList_inj]
  exact ⟨eq_of_groups, congrArg groups⟩

instance : DecidableEq RuleSet := fun _ _ => decidable_of_iff _ beq_iff

/-- Directives of one owner are all there are for it, and there are none for others. -/
theorem filter_owned {directives : List Directive} {name : String}
    (own : ∀ directive ∈ directives, directive.owner.text = name) (owner : String) :
    directives.filter (·.owner.text = owner) = if name = owner then directives else [] := by
  split
  · next same =>
      subst same
      rw [List.filter_eq_self]
      simpa using own
  · next differs =>
      rw [List.filter_eq_nil_iff]
      intro directive held
      simpa [own directive held] using differs

/-- The groups of a rule set hold directives of their own owners only. -/
theorem owner_of_mem_group (inOrder : order.Perm rules.groups.toList)
    {group : String × List Directive} (held : group ∈ order) :
    rules.groups[group.1]? = some group.2 ∧
      ∀ directive ∈ group.2.reverse, directive.owner.text = group.1 := by
  have stored : rules.groups[group.1]? = some group.2 :=
    Std.ExtTreeMap.mem_toList_iff_getElem?_eq_some.mp (inOrder.mem_iff.mp held)
  exact ⟨stored, fun directive member =>
    (rules.grouped _ _ stored).2 directive (List.mem_reverse.mp member)⟩

/-- Groups of other owners hold no directive of an owner. -/
theorem filter_ungroup_of_ne
    (others : ∀ group ∈ order, group.1 ≠ owner ∧
      ∀ directive ∈ group.2.reverse, directive.owner.text = group.1) :
    (ungroup order).filter (·.owner.text = owner) = [] := by
  rw [ungroup, List.filter_flatMap, List.flatMap_eq_nil_iff]
  intro group held
  obtain ⟨differs, own⟩ := others group held
  rw [filter_owned own, if_neg differs]

/-- In whatever order its groups come, a rule set holds the directives for each owner in order. -/
theorem filter_ungroup (inOrder : order.Perm rules.groups.toList) (owner : String) :
    (ungroup order).filter (·.owner.text = owner) = rules.directivesFor owner := by
  rw [directivesFor, Std.ExtTreeMap.getD_eq_getD_getElem?]
  cases stored : rules.groups[owner]? with
  | none =>
      refine filter_ungroup_of_ne fun group held => ?_
      obtain ⟨found, own⟩ := owner_of_mem_group inOrder held
      refine ⟨?_, own⟩
      rintro rfl
      rw [stored] at found
      cases found
  | some group =>
      have held : (owner, group) ∈ order :=
        inOrder.mem_iff.mpr (Std.ExtTreeMap.mem_toList_iff_getElem?_eq_some.mpr stored)
      have once : (order.map Prod.fst).Nodup := by
        rw [(inOrder.map Prod.fst).nodup_iff, Std.ExtTreeMap.map_fst_toList_eq_keys]
        exact Std.ExtTreeMap.nodup_keys
      -- The group of the owner stands somewhere, with groups of others before and after it.
      obtain ⟨before, after, rfl⟩ := List.append_of_mem held
      have apart : (before ++ (owner, group) :: after).Perm ((owner, group) :: (before ++ after)) :=
        List.perm_middle
      rw [(apart.map Prod.fst).nodup_iff, List.map_cons, List.nodup_cons] at once
      have others : ∀ other ∈ before ++ after, other.1 ≠ owner ∧
          ∀ directive ∈ other.2.reverse, directive.owner.text = other.1 := by
        intro other member
        have among := apart.mem_iff.mpr (List.mem_cons_of_mem _ member)
        refine ⟨?_, (owner_of_mem_group inOrder among).2⟩
        intro same
        exact once.1 (List.mem_map.mpr ⟨other, member, same⟩)
      rw [List.forall_mem_append] at others
      have own := filter_owned (owner_of_mem_group inOrder held).2 owner
      rw [if_pos rfl] at own
      have cut : ungroup (before ++ (owner, group) :: after) =
          ungroup before ++ (group.reverse ++ ungroup after) := by
        simp [ungroup]
      rw [cut, List.filter_append, List.filter_append, filter_ungroup_of_ne others.1,
        filter_ungroup_of_ne others.2, own, List.append_nil]
      rfl

/-- Directives of one owner that are added to a rule set are added as a group. -/
theorem addGroup_groups {group : String × List Directive} (filled : group.2 ≠ [])
    (own : ∀ directive ∈ group.2.reverse, directive.owner.text = group.1) :
    addGroup rules.groups group = (rules.pushAll group.2.reverse).groups := by
  refine Std.ExtTreeMap.ext_getElem? fun owner => ?_
  rw [addGroup, Std.ExtTreeMap.getElem?_insert, getElem?_groups (rules.pushAll _),
    directivesFor_pushAll, filter_owned own]
  by_cases same : group.1 = owner
  · subst same
    rw [if_pos (Std.LawfulEqCmp.compare_eq_iff_eq.mpr rfl), if_pos rfl,
      if_neg (by simp [filled])]
    simp [directivesFor]
  · rw [if_neg (mt Std.LawfulEqCmp.compare_eq_iff_eq.mp same), if_neg same, List.append_nil,
      getElem?_groups]

/-- Groups that are added one after the other add their directives. -/
theorem foldl_addGroup
    (wellGrouped : ∀ group ∈ order, group.2 ≠ [] ∧
      ∀ directive ∈ group.2.reverse, directive.owner.text = group.1) :
    order.foldl addGroup rules.groups = (rules.pushAll (ungroup order)).groups := by
  induction order generalizing rules with
  | nil => rfl
  | cons group order ih =>
      rw [List.forall_mem_cons] at wellGrouped
      rw [List.foldl_cons, addGroup_groups wellGrouped.1.1 wellGrouped.1.2, ih wellGrouped.2]
      simp [pushAll, ungroup]

/-- Merging adds the directives of an owner after those that are there. -/
theorem directivesFor_merge (rules later : RuleSet) (owner : String) :
    (rules.merge later).directivesFor owner =
      rules.directivesFor owner ++ later.directivesFor owner := by
  rw [merge, directivesFor_pushAll]
  exact congrArg _ (filter_ungroup (.refl _) owner)

/-- Groups are merged alike in any order. -/
theorem foldl_addGroup_eq_merge (inOrder : order.Perm later.groups.toList) :
    order.foldl addGroup rules.groups = (rules.merge later).groups := by
  have wellGrouped : ∀ group ∈ order, group.2 ≠ [] ∧
      ∀ directive ∈ group.2.reverse, directive.owner.text = group.1 := by
    intro group held
    obtain ⟨stored, own⟩ := owner_of_mem_group inOrder held
    exact ⟨(later.grouped _ _ stored).1, own⟩
  rw [foldl_addGroup wellGrouped]
  refine congrArg groups (ext_directivesFor fun owner => ?_)
  rw [directivesFor_pushAll, filter_ungroup inOrder, directivesFor_merge]

/-- A collected rule set has the directives of each owner in order. -/
theorem directivesFor_ofList (directives : List Directive) (owner : String) :
    (ofList directives).directivesFor owner = directives.filter (·.owner.text = owner) := by
  rw [ofList, directivesFor_pushAll, directivesFor_empty, List.nil_append]

/-- Merging rule sets is collecting their directives one after the other. -/
theorem ofList_append (directives more : List Directive) :
    ofList (directives ++ more) = (ofList directives).merge (ofList more) := by
  refine ext_directivesFor fun owner => ?_
  rw [directivesFor_merge, directivesFor_ofList, directivesFor_ofList, directivesFor_ofList,
    List.filter_append]

/-- A rule set that is built is the collection of what was added. -/
theorem Built.eq_ofList {added : List Directive} (built : Built added rules) :
    rules = ofList added := by
  induction built with
  | new => rfl
  | push earlier directive ih =>
      rw [ih, ofList, ofList, pushAll, pushAll, List.foldl_append]
      rfl
  | extend earlier more ih =>
      rw [ih, ofList, ofList, pushAll, pushAll, pushAll, List.foldl_append]
  | collect directives => rfl
  | ofLines parsed made =>
      obtain ⟨directives, same, rfl⟩ := ofLines_eq_ok_iff.mp made
      rw [parsed] at same
      cases same
      rfl
  | merge earlier other inOrder grouped ih ihOther =>
      rw [foldl_addGroup_eq_merge inOrder] at grouped
      rw [eq_of_groups grouped, ih, ihOther, ofList_append]

/-- A rule set is as large as the list of its directives. -/
theorem size_eq (rules : RuleSet) : rules.size = rules.directives.length := by
  rw [size, directives, Std.ExtTreeMap.foldl_eq_foldl_toList, List.length_flatMap,
    List.sum_eq_foldl, List.foldl_map]
  simp only [List.length_reverse]

/-- A rule set is empty when no owner has directives. -/
theorem isEmpty_iff : rules.isEmpty = true ↔ ∀ owner, rules.directivesFor owner = [] := by
  rw [isEmpty, Std.ExtTreeMap.isEmpty_iff]
  constructor
  · intro none owner
    rw [directivesFor, none, Std.ExtTreeMap.getD_empty, List.reverse_nil]
  · intro none
    refine Std.ExtTreeMap.ext_getElem? fun owner => ?_
    rw [getElem?_groups, if_pos (none owner), Std.ExtTreeMap.getElem?_empty]

/-- The directives of a collected rule set are those that were collected. -/
theorem directives_ofList_perm (directives : List Directive) :
    (ofList directives).directives.Perm directives := by
  rw [List.perm_iff_count]
  intro directive
  -- A directive occurs as often as it does among the directives for its owner.
  have alike := (filter_ungroup (.refl (ofList directives).groups.toList)
    directive.owner.text).trans (directivesFor_ofList directives _)
  have counted := congrArg (List.count directive) alike
  rwa [List.count_filter (by simp), List.count_filter (by simp)] at counted

/-- A collected rule set holds what was collected. -/
theorem collects_ofList (directives : List Directive) :
    Collects (ofList directives) directives where
  directivesFor := directivesFor_ofList directives
  directives := directives_ofList_perm directives
  size := by rw [size_eq, (directives_ofList_perm directives).length_eq]
  isEmpty := by
    rw [isEmpty_iff, List.length_eq_zero_iff]
    simp only [directivesFor_ofList, List.filter_eq_nil_iff, decide_eq_true_eq]
    constructor
    · intro none
      exact List.eq_nil_iff_forall_not_mem.mpr fun directive held => none _ directive held rfl
    · rintro rfl owner directive held
      cases held
  hasOwner := by
    intro owner
    rw [hasOwner, Std.ExtTreeMap.contains_eq_isSome_getElem?, isSome_groups_iff]
  owners _ := mem_owners_iff
  ownersOnce := Std.ExtTreeMap.nodup_keys

/-- Rule sets are merged by adding the directives of each owner. -/
theorem mergeLaws : MergeLaws where
  equal := by
    intro left right
    rw [beq_iff]
    constructor
    · rintro rfl owner
      rfl
    · exact ext_directivesFor
  same := fun _ _ => beq_iff
  inAnyOrder := fun _ _ _ => foldl_addGroup_eq_merge
  assoc := by
    intro first second third
    refine ext_directivesFor fun owner => ?_
    simp only [directivesFor_merge, List.append_assoc]
  empty_merge := by
    intro rules
    refine ext_directivesFor fun owner => ?_
    rw [directivesFor_merge, directivesFor_empty, List.nil_append]
  merge_empty := by
    intro rules
    refine ext_directivesFor fun owner => ?_
    rw [directivesFor_merge, directivesFor_empty, List.append_nil]
  ofLines_append := by
    intro lines later parse
    rw [List.forall_mem_append] at parse
    obtain ⟨directives, parsed⟩ := exists_mapM_eq_ok_iff.mpr parse.1
    obtain ⟨more, parsedLater⟩ := exists_mapM_eq_ok_iff.mpr parse.2
    have both : (lines ++ later).mapM Directive.parse = .ok (directives ++ more) := by
      rw [mapM_eq_ok_iff] at parsed parsedLater ⊢
      exact List.rel_append parsed parsedLater
    refine ⟨ofList directives, ofList more, ofLines_eq_ok_iff.mpr ⟨_, parsed, rfl⟩,
      ofLines_eq_ok_iff.mpr ⟨_, parsedLater, rfl⟩, ?_⟩
    exact ofLines_eq_ok_iff.mpr ⟨_, both, ofList_append directives more⟩

/-- A rule set holds what was added to it, in order for each owner, whichever way it was built. It
is the only one to be built so, whatever the order in which groups were merged. -/
theorem collects_of_built {added : List Directive} {rules : RuleSet} (built : Built added rules) :
    Collects rules added ∧ (∀ other, Built added other → other = rules) ∧ MergeLaws := by
  refine ⟨?_, fun other same => ?_, mergeLaws⟩
  · rw [built.eq_ofList]
    exact collects_ofList added
  · rw [same.eq_ofList, built.eq_ofList]

/-- Directives for two owners in turn. -/
def interleaved : List Directive :=
  [⟨.publicAccess, [], ⟨"p/Q", by decide⟩, .field .every⟩,
    ⟨.publicAccess, [], ⟨"P", by decide⟩, .classItself⟩,
    ⟨.privateAccess, [.add .final], ⟨"p/Q", by decide⟩, .field .every⟩]

/-- A directive with a toggle, for one of the owners of `interleaved`. -/
def toggled : Directive :=
  ⟨.protectedAccess, [.add .final], ⟨"p/Q", by decide⟩, .classItself⟩

/-- The groups of `interleaved` may be merged into a rule set that was read the last one first. -/
theorem collects_of_built_interleaved :
    ofLines ["protected+f p.Q"] = .ok (ofList [toggled]) ∧
      Built (toggled :: interleaved) ((ofList [toggled]).merge (ofList interleaved)) ∧
      Collects ((ofList [toggled]).merge (ofList interleaved)) (toggled :: interleaved) := by
  have parsed : Directive.parse "protected+f p.Q" = .ok toggled := by cbv
  have lines : ["protected+f p.Q"].mapM Directive.parse = .ok [toggled] :=
    mapM_eq_ok_iff.mpr (.cons parsed .nil)
  have made : ofLines ["protected+f p.Q"] = .ok (ofList [toggled]) :=
    ofLines_eq_ok_iff.mpr ⟨_, lines, rfl⟩
  have built := Built.merge (.ofLines lines made) (.collect interleaved)
    (List.reverse_perm _) (foldl_addGroup_eq_merge (List.reverse_perm _)).symm
  exact ⟨made, built, (collects_of_built built).1⟩

end ClassAccess.RuleSet
