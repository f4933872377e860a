import ClassAccess.Proofs.Rule.Building
import ClassAccess.Proofs.Rule.Finding
import ClassAccess.Proofs.Rule.Loading

/-!
# Overriding

A rule set that is merged into another one overrides it where it has a directive
that is at least as precise, and leaves it alone elsewhere. Rule files are merged
in their order, so that they come to what all their lines make together, and the
same law holds between the earlier and the later ones of them.

Which of two orders counts is settled by these laws: precision first, and the place
of a directive only among equally precise ones.
-/

namespace ClassAccess.RuleSet

/-- What was found later counts: if anything was found earlier, something at least as precise was
found later. -/
def Overrides (earlier later : Option Directive) : Prop :=
  ∀ directive, earlier = some directive → ∃ other, later = some other ∧
    (other.target.IsWild → directive.target.IsWild)

/-- What is found when later directives were added to earlier ones. -/
structure Overridden (earlier later found : Option Directive) : Prop where
  byLater : Overrides earlier later → found = later
  kept : ¬Overrides earlier later → found = earlier

/-- Behind other directives, the one that prevails overrides theirs or leaves it. -/
theorem overridden_append (first second : List Directive) :
    Overridden (lastPrecise? first) (lastPrecise? second) (lastPrecise? (first ++ second)) where
  byLater := by
    intro overrides
    cases found : lastPrecise? first with
    | none => rw [lastPrecise?_eq_none_iff.mp found, List.nil_append]
    | some directive =>
        obtain ⟨other, later, precise⟩ := overrides directive found
        have prevails := lastPrecise?_eq_some_iff.mp found
        rw [later]
        exact lastPrecise?_eq_some_iff.mpr ((lastPrecise?_eq_some_iff.mp later).behind
          fun wild => prevails.wildcards (precise wild))
  kept := by
    intro stays
    rw [Overrides] at stays
    push Not at stays
    obtain ⟨directive, found, weaker⟩ := stays
    have prevails := lastPrecise?_eq_some_iff.mp found
    cases later : lastPrecise? second with
    | none => rw [lastPrecise?_eq_none_iff.mp later, List.append_nil]
    | some other =>
        obtain ⟨wild, isExact⟩ := weaker other later
        rw [found]
        exact lastPrecise?_eq_some_iff.mpr (prevails.ahead isExact
          ((lastPrecise?_eq_some_iff.mp later).wildcards wild))

/-- The directives of a merged rule set compete behind those that were there. -/
theorem competing_merge (rules later : RuleSet) (owner : String) (query : Query) :
    (rules.merge later).competing owner query =
      rules.competing owner query ++ later.competing owner query := by
  rw [competing, directivesFor_merge, List.filter_append]
  rfl

/-- What is found in a merged rule set overrides what was found before. -/
theorem overridden_merge (rules later : RuleSet) (owner : String) (query : Query) :
    Overridden (rules.find? owner query) (later.find? owner query)
      ((rules.merge later).find? owner query) := by
  rw [find?_eq_lastPrecise?, find?_eq_lastPrecise?, find?_eq_lastPrecise?, competing_merge]
  exact overridden_append _ _

variable {σ : Type} [FileSystem σ]

/-- What several rule files come to on a session. -/
def loadedOn (session : SessionOn σ) (paths : List Path) : Except LoadError RuleSet :=
  ((loadFiles paths : ExceptT LoadError (StateM (SessionOn σ)) RuleSet).run.run session).1

/-- What one rule file comes to on a session. -/
def fileLoadedOn (session : SessionOn σ) (path : Path) : Except LoadError RuleSet :=
  ((loadFile path : ExceptT LoadError (StateM (SessionOn σ)) RuleSet).run.run session).1

/-- What the lines of a rule file hold, in order. -/
def FileHolds (tree : σ) (path : Path) (contents : List String) : Prop :=
  ∃ bytes lines, FileSystem.read tree path = .ok bytes ∧ Text.AreLines bytes lines ∧
    Contents lines contents

/-- How rule files that are loaded together come to one rule set. -/
structure LoadsInOrder (session : SessionOn σ) (paths : List Path) : Prop where
  contents : ∀ rules, loadedOn session paths = .ok rules ↔
    ∃ contents, List.Forall₂ (FileHolds session.tree) paths contents ∧
      ofLines contents.flatten = .ok rules
  succeeds : (∃ rules, loadedOn session paths = .ok rules) ↔
    ∀ path ∈ paths, ∃ rules, fileLoadedOn session path = .ok rules
  overridden : ∀ earlier later rules, paths = earlier ++ later →
    loadedOn session paths = .ok rules → ∃ first second,
      loadedOn session earlier = .ok first ∧ loadedOn session later = .ok second ∧
      ∀ owner query, Overridden (first.find? owner query) (second.find? owner query)
        (rules.find? owner query)
  fails : ∀ error, loadedOn session paths = .error error ↔
    ∃ before path after, paths = before ++ path :: after ∧
      (∀ earlier ∈ before, ∃ rules, fileLoadedOn session earlier = .ok rules) ∧
      fileLoadedOn session path = .error error

/-- Loading several rule files depends on the files alone. -/
theorem loadedOn_eq (session : SessionOn σ) (paths : List Path) :
    loadedOn session paths = ofFilesOnto session.tree empty paths := by
  obtain ⟨entries, -, ran⟩ := run_loadFiles paths session
  rw [loadedOn, ran]

/-- Loading a rule file depends on the files alone. -/
theorem fileLoadedOn_eq (session : SessionOn σ) (path : Path) :
    fileLoadedOn session path = ofFile session.tree path := by
  obtain ⟨entries, -, ran⟩ := run_loadFile path session
  rw [fileLoadedOn, ran]

variable {tree : σ} {rules loaded : RuleSet} {paths : List Path}

/-- A rule file comes to the rule set of what its lines hold. -/
theorem ofFile_eq_ok_iff {path : Path} :
    ofFile tree path = .ok rules ↔
      ∃ contents, FileHolds tree path contents ∧ ofLines contents = .ok rules := by
  rw [ofFile]
  constructor
  · intro read
    split at read
    · cases read
    · next bytes found =>
        obtain ⟨lines, contents, are, held, set⟩ :=
          ofBytes_eq_ok_iff.mp (mapError_eq_ok_iff.mp read)
        exact ⟨contents, ⟨bytes, lines, found, are, held⟩, set⟩
  · rintro ⟨contents, ⟨bytes, lines, found, are, held⟩, set⟩
    rw [found]
    exact mapError_eq_ok_iff.mpr (ofBytes_eq_ok_iff.mpr ⟨lines, contents, are, held, set⟩)

/-- Lines that follow one another make the rule sets of both parts, merged. -/
theorem ofLines_append_eq_ok_iff {lines more : List String} :
    ofLines (lines ++ more) = .ok loaded ↔ ∃ first second, ofLines lines = .ok first ∧
      ofLines more = .ok second ∧ first.merge second = loaded := by
  simp only [ofLines_eq_ok_iff, List.mapM_append, bind_eq_ok_iff]
  constructor
  · rintro ⟨_, ⟨directives, parsed, others, parsedMore, same⟩, rfl⟩
    cases same
    exact ⟨_, _, ⟨directives, parsed, rfl⟩, ⟨others, parsedMore, rfl⟩,
      (ofList_append directives others).symm⟩
  · rintro ⟨_, _, ⟨directives, parsed, rfl⟩, ⟨others, parsedMore, rfl⟩, rfl⟩
    exact ⟨_, ⟨directives, parsed, others, parsedMore, rfl⟩, ofList_append directives others⟩

/-- Rule files add what all their lines make together. -/
theorem ofFilesOnto_eq_ok_iff :
    ofFilesOnto tree rules paths = .ok loaded ↔ ∃ contents added,
      List.Forall₂ (FileHolds tree) paths contents ∧ ofLines contents.flatten = .ok added ∧
        rules.merge added = loaded := by
  induction paths generalizing rules with
  | nil =>
      constructor
      · intro done
        cases done
        exact ⟨[], empty, .nil, rfl, mergeLaws.merge_empty _⟩
      · rintro ⟨_, added, held, set, rfl⟩
        cases held
        cases set
        exact congrArg Except.ok (mergeLaws.merge_empty rules).symm
  | cons path later ih =>
      have step : ofFilesOnto tree rules (path :: later) =
          (ofFile tree path).map rules.merge >>= fun merged => ofFilesOnto tree merged later := rfl
      simp only [step, bind_eq_ok_iff, map_eq_ok_iff, ih, List.forall₂_cons_left_iff]
      -- Merging is associative, so what the later files add may be put together first.
      constructor
      · rintro ⟨_, ⟨first, ofFirst, rfl⟩, contents, added, held, set, rfl⟩
        obtain ⟨content, holds, setFirst⟩ := ofFile_eq_ok_iff.mp ofFirst
        refine ⟨content :: contents, first.merge added, ⟨content, contents, holds, held, rfl⟩, ?_,
          (mergeLaws.assoc rules first added).symm⟩
        exact ofLines_append_eq_ok_iff.mpr ⟨first, added, setFirst, set, rfl⟩
      · rintro ⟨_, _, ⟨content, contents, holds, held, rfl⟩, set, rfl⟩
        obtain ⟨first, added, setFirst, setLater, rfl⟩ := ofLines_append_eq_ok_iff.mp set
        exact ⟨_, ⟨first, ofFile_eq_ok_iff.mpr ⟨content, holds, setFirst⟩, rfl⟩, contents, added,
          held, setLater, mergeLaws.assoc rules first added⟩

/-- Rule files are loaded one by one, and merged when all of them are. -/
theorem ofFilesOnto_eq :
    ofFilesOnto tree rules paths = (paths.mapM (ofFile tree)).map (List.foldl merge rules) := by
  induction paths generalizing rules with
  | nil => rfl
  | cons path later ih =>
      rw [ofFilesOnto, List.foldlM_cons, List.mapM_cons]
      cases ofFile tree path with
      | error error => rfl
      | ok first =>
          change ofFilesOnto tree (rules.merge first) later = _
          rw [ih]
          cases List.mapM (ofFile tree) later <;> rfl

/-- A rule set that others are merged into holds the directives of all of them. -/
theorem mem_directivesFor_foldl_merge {sets : List RuleSet} {owner : String}
    {directive : Directive} :
    directive ∈ (sets.foldl merge rules).directivesFor owner ↔
      directive ∈ rules.directivesFor owner ∨ ∃ set ∈ sets, directive ∈ set.directivesFor owner := by
  induction sets generalizing rules with
  | nil => simp
  | cons first later ih =>
      rw [List.foldl_cons, ih, directivesFor_merge, List.mem_append, List.exists_mem_cons_iff,
        or_assoc]

/-- Rule files hold the directives that each of them holds. -/
theorem mem_directivesFor_of_loaded (read : ofFilesOnto tree empty paths = .ok loaded)
    {owner : String} {directive : Directive} :
    directive ∈ loaded.directivesFor owner ↔
      ∃ path ∈ paths, ∃ set, ofFile tree path = .ok set ∧ directive ∈ set.directivesFor owner := by
  rw [ofFilesOnto_eq, map_eq_ok_iff] at read
  obtain ⟨sets, each, rfl⟩ := read
  rw [mem_directivesFor_foldl_merge, directivesFor_empty]
  constructor
  · rintro (none | ⟨set, among, held⟩)
    · cases none
    · obtain ⟨path, file, held⟩ := (mem_of_mapM_eq_ok each).mp among
      exact ⟨path, file, set, held, ‹_›⟩
  · rintro ⟨path, file, set, read, held⟩
    exact .inr ⟨set, (mem_of_mapM_eq_ok each).mpr ⟨path, file, read⟩, held⟩

/-- Rule files are loaded together when each of them is. -/
theorem exists_ofFilesOnto_eq_ok_iff :
    (∃ loaded, ofFilesOnto tree rules paths = .ok loaded) ↔
      ∀ path ∈ paths, ∃ first, ofFile tree path = .ok first := by
  rw [ofFilesOnto_eq, ← exists_mapM_eq_ok_iff]
  cases List.mapM (ofFile tree) paths <;> simp [Except.map]

/-- Loading stops at the first rule file that comes to nothing. -/
theorem ofFilesOnto_eq_error_iff {error : LoadError} :
    ofFilesOnto tree rules paths = .error error ↔
      ∃ before path after, paths = before ++ path :: after ∧
        (∀ earlier ∈ before, ∃ first, ofFile tree earlier = .ok first) ∧
        ofFile tree path = .error error := by
  rw [ofFilesOnto_eq, map_eq_error_iff, mapM_eq_error_iff]

/-- Rule files are loaded in their order. -/
theorem loadsInOrder (session : SessionOn σ) (paths : List Path) : LoadsInOrder session paths where
  contents := by
    intro rules
    rw [loadedOn_eq, ofFilesOnto_eq_ok_iff]
    constructor
    · rintro ⟨contents, added, held, set, rfl⟩
      rw [mergeLaws.empty_merge]
      exact ⟨contents, held, set⟩
    · rintro ⟨contents, held, set⟩
      exact ⟨contents, rules, held, set, mergeLaws.empty_merge rules⟩
  succeeds := by
    simp only [loadedOn_eq, fileLoadedOn_eq]
    exact exists_ofFilesOnto_eq_ok_iff
  overridden := by
    rintro earlier later rules rfl loaded
    rw [loadedOn_eq, ofFilesOnto, List.foldlM_append] at loaded
    obtain ⟨first, ofEarlier, ofLater⟩ := bind_eq_ok_iff.mp loaded
    -- The later files add what they come to by themselves.
    obtain ⟨contents, second, held, set, rfl⟩ := ofFilesOnto_eq_ok_iff.mp ofLater
    refine ⟨first, second, ?_, ?_, overridden_merge first second⟩
    · rw [loadedOn_eq]
      exact ofEarlier
    · rw [loadedOn_eq]
      exact ofFilesOnto_eq_ok_iff.mpr ⟨contents, second, held, set, mergeLaws.empty_merge second⟩
  fails := by
    intro error
    simp only [loadedOn_eq, fileLoadedOn_eq]
    exact ofFilesOnto_eq_error_iff

/-- What is found in a merged rule set overrides what was found before where it is at least as
precise, in whatever order the groups were merged. Rule files are merged in their order, so that the
same holds of later files, and come to what all their lines make, or fail as the first of them. -/
theorem find?_overridden :
    (∀ (rules later merged : RuleSet) (order : List (String × List Directive)),
      order.Perm later.groups.toList → merged.groups = order.foldl addGroup rules.groups →
        merged = rules.merge later ∧ ∀ owner query,
          Overridden (rules.find? owner query) (later.find? owner query)
            (merged.find? owner query)) ∧
      ∀ (session : Session) (paths : List Path), LoadsInOrder session paths := by
  refine ⟨fun rules later merged order inOrder grouped => ?_, loadsInOrder⟩
  rw [foldl_addGroup_eq_merge inOrder] at grouped
  rw [eq_of_groups grouped]
  exact ⟨rfl, overridden_merge rules later⟩

/-- A session with two rule files for one class. -/
def layered : Session := .start {
  home := ["w"]
  nodes := .ofList [
    (["w", "first"], FileNode.file (Text.toUtf8 "public L a\nprivate L *")),
    (["w", "second"], FileNode.file (Text.toUtf8 "protected L * # all\n\npublic L b"))] }

/-- The exact directive of the first of these files. -/
def firstExact : Directive :=
  ⟨.publicAccess, [], ⟨"L", by decide⟩, .field (.named ⟨"a", by decide⟩ none)⟩

/-- The exact directive of the second one. -/
def secondExact : Directive :=
  ⟨.publicAccess, [], ⟨"L", by decide⟩, .field (.named ⟨"b", by decide⟩ none)⟩

/-- The rules of the first file. -/
def firstLayer : RuleSet :=
  .ofList [firstExact, ⟨.privateAccess, [], ⟨"L", by decide⟩, .field .every⟩]

/-- The rules of the second file. -/
def secondLayer : RuleSet :=
  .ofList [⟨.protectedAccess, [], ⟨"L", by decide⟩, .field .every⟩, secondExact]

/-- Loading comes to the rule set whose groups are found. -/
theorem loadedOn_of_toList {session : Session}
    (found : (ofFilesOnto session.tree empty paths).map (·.groups.toList) =
      .ok rules.groups.toList) : loadedOn session paths = .ok rules := by
  obtain ⟨loaded, ofPaths, same⟩ := map_eq_ok_iff.mp found
  rw [loadedOn_eq, ofPaths, eq_of_groups (Std.ExtTreeMap.toList_inj.mp same)]

/-- An exact directive stays although a later file has a wildcard, and a wildcard is overridden by
an exact directive of a later file. A missing file is reported, and groups merge in any order. -/
theorem find?_overridden_layered :
    (∃ rules, loadedOn layered [⟨"first"⟩, ⟨"second"⟩] = .ok rules ∧
        rules.find? "L" ⟨.field, "a", none⟩ = firstLayer.find? "L" ⟨.field, "a", none⟩ ∧
        rules.find? "L" ⟨.field, "b", none⟩ = secondLayer.find? "L" ⟨.field, "b", none⟩) ∧
      loadedOn layered [⟨"first"⟩, ⟨"none"⟩, ⟨"second"⟩] = .error (.file .notFound) ∧
      ∃ merged : RuleSet,
        merged.groups = (ofList interleaved).groups.toList.reverse.foldl addGroup
          firstLayer.groups ∧ merged = firstLayer.merge (ofList interleaved) := by
  have ofFirst : loadedOn layered [⟨"first"⟩] = .ok firstLayer :=
    loadedOn_of_toList (by decide +kernel)
  have ofSecond : loadedOn layered [⟨"second"⟩] = .ok secondLayer :=
    loadedOn_of_toList (by decide +kernel)
  have ofMissing : fileLoadedOn layered ⟨"none"⟩ = .error (.file .notFound) :=
    fileLoadedOn_eq _ _
  obtain ⟨merges, loads⟩ := find?_overridden
  have first := (loads layered [⟨"first"⟩]).succeeds.mp ⟨_, ofFirst⟩
  have second := (loads layered [⟨"second"⟩]).succeeds.mp ⟨_, ofSecond⟩
  refine ⟨?_, ?_, ?_⟩
  · have together := loads layered [⟨"first"⟩, ⟨"second"⟩]
    obtain ⟨rules, loaded⟩ := together.succeeds.mpr (List.forall_mem_append.mpr ⟨first, second⟩)
    obtain ⟨earlier, later, ofEarlier, ofLater, law⟩ :=
      together.overridden [⟨"first"⟩] [⟨"second"⟩] rules rfl loaded
    rw [ofFirst] at ofEarlier
    rw [ofSecond] at ofLater
    cases ofEarlier
    cases ofLater
    refine ⟨rules, loaded, (law _ _).kept fun overrides => ?_, (law _ _).byLater ?_⟩
    · -- The first file has the name, and the second one only a wildcard.
      obtain ⟨other, found, precise⟩ := overrides firstExact (by decide +kernel)
      have wildcard : (secondLayer.find? "L" ⟨.field, "a", none⟩).all
          (fun other => decide other.target.IsWild) = true := by decide +kernel
      rw [found] at wildcard
      cases precise (of_decide_eq_true wildcard)
    · intro directive _
      exact ⟨secondExact, by decide +kernel, fun wild => by cases wild⟩
  · exact ((loads layered _).fails _).mpr
      ⟨[⟨"first"⟩], ⟨"none"⟩, [⟨"second"⟩], rfl, first, ofMissing⟩
  · have inOrder := List.reverse_perm (ofList interleaved).groups.toList
    have grouped : (firstLayer.merge (ofList interleaved)).groups =
        (ofList interleaved).groups.toList.reverse.foldl addGroup firstLayer.groups :=
      (foldl_addGroup_eq_merge inOrder).symm
    exact ⟨_, grouped, (merges firstLayer _ _ _ inOrder grouped).1⟩

end ClassAccess.RuleSet
