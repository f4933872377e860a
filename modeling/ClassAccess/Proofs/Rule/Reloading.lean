import ClassAccess.Proofs.Rule.Building
import ClassAccess.Proofs.Rule.Loading
import ClassAccess.Proofs.Rule.RoundTrip
import ClassAccess.Proofs.Text.Utf8

/-!
# Writing rule sets back

A rule set that was loaded can be written as a rule file, one directive a line, and
loading that file gives the rule set again. A directive that came from a rule file has
no character that would end its line or start a comment, and merging rule sets adds no
directive of its own.

Rule sets that were not loaded may hold directives that no rule file can.
-/

namespace ClassAccess

/-- A directive that can stand on a line of a rule file: it can be written, and what is written has
no mark of a comment. -/
structure Directive.Writable (directive : Directive) : Prop where
  wellFormed : directive.WellFormed
  unmarked : '#' ∉ directive.renderChars

/-- A written directive is words with a space in front of each but the first. -/
theorem Directive.WellFormed.exists_spaced {directive : Directive}
    (wellFormed : directive.WellFormed) :
    ∃ first later, directive.renderChars = first ++ later.flatMap (' ' :: ·) ∧
      ∀ word ∈ first :: later, Text.IsWord word := by
  obtain ⟨members, -, each, written⟩ := wellFormed.target.exists_words
  have owner : Text.IsWord directive.owner.text.toList :=
    ⟨directive.owner.toList_ne_nil, wellFormed.owner⟩
  refine ⟨_, directive.owner.text.toList :: members, ?_, List.forall_mem_cons.mpr
    ⟨isWord_access directive.access directive.toggles, List.forall_mem_cons.mpr ⟨owner, each⟩⟩⟩
  rw [renderChars, written, List.flatMap_cons, List.append_assoc]

namespace RuleSet

/-- A written directive makes up a line of a rule file that holds it. -/
theorem holds_render {directive : Directive} (writable : directive.Writable) :
    10 ∉ Text.toUtf8 directive.render ∧ Holds (Text.toUtf8 directive.render) directive.render := by
  obtain ⟨first, later, written, each⟩ := writable.wellFormed.exists_spaced
  have chars : directive.render.toList = directive.renderChars := String.toList_ofList
  have filled : directive.renderChars ≠ [] := by
    rw [written]
    exact List.append_ne_nil_of_left_ne_nil (each first List.mem_cons_self).filled _
  constructor
  · refine Text.unbroken_toUtf8 fun held => ?_
    rw [chars, written] at held
    rcases Text.mem_spaced held with space | ⟨word, among, within⟩
    · cases space
    · cases (each word among).blankless _ within
  · refine ⟨directive.render, Text.ofUtf8?_toUtf8 _, ?_, directive.renderChars, [], ?_, ?_, ?_, ?_⟩
    · rwa [ne_eq, ← String.toList_eq_nil_iff, chars]
    · rw [chars, List.append_nil]
    · exact writable.unmarked
    · simp
    · rw [chars, written]
      exact Text.isTrimmed_spaced each

/-- A directive that is read from words without the mark is written without it. -/
theorem unmarked_of_readWords {line : List Char} {directive : Directive} (unmarked : '#' ∉ line)
    (read : Rule.readWords (Text.words line) = .ok directive) : '#' ∉ directive.renderChars := by
  have blankless : ∀ word ∈ Text.words line, Text.Blankless word :=
    fun word held => (Text.isWord_of_mem_words held).blankless
  have unmarkedWord : ∀ word ∈ Text.words line, '#' ∉ word :=
    fun word held within => unmarked (Text.of_mem_piece (List.mem_filter.mp held).1 within).1
  obtain ⟨access, owner, members, cut, -, written, qualified, -, target⟩ :=
    (Rule.readWords_eq_ok_iff blankless).mp read
  rw [cut, List.forall_mem_cons, List.forall_mem_cons] at unmarkedWord
  obtain ⟨accessUnmarked, ownerUnmarked, membersUnmarked⟩ := unmarkedWord
  rw [Directive.renderChars, ← written, qualified, target]
  intro held
  rcases List.mem_append.mp held with held | behind
  · rcases List.mem_append.mp held with within | behind
    · exact accessUnmarked within
    · rcases List.mem_cons.mp behind with impossible | within
      · cases impossible
      · obtain ⟨original, among, same⟩ := List.mem_map.mp within
        split at same
        · cases same
        · exact ownerUnmarked (same ▸ among)
  · obtain ⟨word, among, within⟩ := List.mem_flatMap.mp behind
    rcases List.mem_cons.mp within with impossible | within
    · cases impossible
    · exact membersUnmarked word among within

/-- A directive that a line of a rule file holds can stand on one. -/
theorem writable_of_holds {line : List UInt8} {content : String} {directive : Directive}
    (holds : Holds line content) (parsed : Directive.parse content = .ok directive) :
    directive.Writable := by
  have read := Directive.parse_eq_ok_iff.mp parsed
  refine ⟨Directive.wellFormed_of_readWords read, unmarked_of_readWords (fun marked => ?_) read⟩
  obtain ⟨text, -, -, body, comment, -, unmarked, -, front, back, rfl, -⟩ := holds
  exact unmarked (by simp [marked])

/-- All directives of a rule set can stand on lines of a rule file. -/
def Writable (rules : RuleSet) : Prop :=
  ∀ owner, ∀ directive ∈ rules.directivesFor owner, directive.Writable

/-- The lines of a rule file with some directives, in order. -/
def dumpLines (directives : List Directive) : List (List UInt8) :=
  directives.map fun directive => Text.toUtf8 directive.render

/-- A rule file with some directives, in order. -/
def dump (directives : List Directive) : List UInt8 :=
  (dumpLines directives).flatMap (· ++ [10])

/-- The lines of a dumped rule file hold the written directives, with or without a line end behind
the last one. -/
theorem contents_dumpLines {directives : List Directive}
    (writable : ∀ directive ∈ directives, directive.Writable) :
    Contents (dumpLines directives) (directives.map Directive.render) := by
  induction directives with
  | nil => exact .none
  | cons directive later ih =>
      rw [List.forall_mem_cons] at writable
      exact .held (holds_render writable.1).2 (ih writable.2)

/-- A dumped rule file is made up of its lines. -/
theorem areLines_dump {directives : List Directive}
    (writable : ∀ directive ∈ directives, directive.Writable) :
    Text.AreLines (dump directives) (dumpLines directives) := by
  induction directives with
  | nil => exact .none
  | cons directive later ih =>
      rw [List.forall_mem_cons] at writable
      rw [dump, dumpLines, List.map_cons, List.flatMap_cons, List.append_assoc]
      exact .ended (holds_render writable.1).1 (ih writable.2)

/-- A rule file whose lines are written directives is read as the rule set of these. -/
theorem ofBytes_of_dumpLines {source : String} {directives : List Directive} {bytes : List UInt8}
    (writable : ∀ directive ∈ directives, directive.Writable)
    (are : Text.AreLines bytes (dumpLines directives)) :
    ofBytes source bytes = .ok (ofList directives) := by
  have parsed : (directives.map Directive.render).mapM Directive.parse = .ok directives := by
    rw [mapM_eq_ok_iff, List.forall₂_map_left_iff, List.forall₂_same]
    intro directive among
    rw [Directive.parse_eq_ok_iff, Directive.render, String.toList_ofList]
    exact (writable directive among).wellFormed.readWords_words
  exact ofBytes_of_contents are (contents_dumpLines writable)
    (ofLines_eq_ok_iff.mpr ⟨directives, parsed, rfl⟩)

variable {rules : RuleSet}

/-- All directives of a rule file can stand on lines of one. -/
theorem writable_of_ofBytes {source : String} {bytes : List UInt8}
    (read : ofBytes source bytes = .ok rules) : rules.Writable := by
  obtain ⟨lines, contents, -, held, set⟩ := ofBytes_eq_ok_iff.mp read
  obtain ⟨directives, parsed, rfl⟩ := ofLines_eq_ok_iff.mp set
  have each : ∀ directive ∈ directives, directive.Writable := by
    rw [mapM_eq_ok_iff] at parsed
    clear set read
    induction held generalizing directives with
    | none =>
        cases parsed
        simp
    | skipped isSkipped behind ih => exact ih directives parsed
    | held holds behind ih =>
        cases parsed with
        | cons isDirective parsed =>
            exact List.forall_mem_cons.mpr ⟨writable_of_holds holds isDirective, ih _ parsed⟩
  intro owner directive among
  rw [directivesFor_ofList] at among
  exact each directive (List.mem_of_mem_filter among)

/-- Merging adds no directive of its own. -/
theorem Writable.merge {later : RuleSet} (writable : rules.Writable) (more : later.Writable) :
    (rules.merge later).Writable := by
  intro owner directive among
  rw [directivesFor_merge] at among
  rcases List.mem_append.mp among with earlier | added
  · exact writable owner directive earlier
  · exact more owner directive added

/-- All directives of loaded rule files can stand on lines of one. -/
theorem Writable.of_ofFilesOnto {tree : FileTree} {paths : List Path} {loaded : RuleSet}
    (writable : rules.Writable) (read : ofFilesOnto tree rules paths = .ok loaded) :
    loaded.Writable := by
  induction paths generalizing rules with
  | nil =>
      cases read
      exact writable
  | cons path later ih =>
      obtain ⟨merged, first, tail⟩ := bind_eq_ok_iff.mp read
      obtain ⟨more, ofFile, rfl⟩ := map_eq_ok_iff.mp first
      refine ih (writable.merge ?_) tail
      rw [RuleSet.ofFile] at ofFile
      split at ofFile
      · cases ofFile
      · exact writable_of_ofBytes (mapError_eq_ok_iff.mp ofFile)

/-- The ways of loading a rule set: from the bytes of one rule file, or from rule files on a
session. -/
inductive Loaded (rules : RuleSet) : Prop where
  | bytes {source : String} {bytes : List UInt8} (read : ofBytes source bytes = .ok rules)
  | files {paths : List Path} {session left : Session}
      (ran : (loadFiles paths : ExceptT LoadError (StateM Session) RuleSet).run.run session =
        (.ok rules, left))

/-- All directives of a loaded rule set can stand on lines of a rule file. -/
theorem Loaded.writable (loaded : Loaded rules) : rules.Writable := by
  cases loaded with
  | bytes read => exact writable_of_ofBytes read
  | @files paths session left ran =>
      obtain ⟨entries, -, same⟩ := run_loadFiles paths session
      rw [ran] at same
      have none : empty.Writable := by
        intro owner directive among
        rw [directivesFor_empty] at among
        cases among
      exact none.of_ofFilesOnto (congrArg Prod.fst same).symm

/-- A loaded rule set is given back by every rule file with its directives on lines of their own, as
long as those of each owner come in order. The owners may come in any order, one group after the
other or in turn. -/
theorem ofBytes_dump_of_loaded (loaded : Loaded rules) (source : String) :
    (∀ (written : List Directive) (bytes : List UInt8),
      (∀ owner, written.filter (·.owner.text = owner) = rules.directivesFor owner) →
        Text.AreLines bytes (dumpLines written) → ofBytes source bytes = .ok rules) ∧
      ∀ order : List (String × List Directive), order.Perm rules.groups.toList →
        ofBytes source (dump (ungroup order)) = .ok rules := by
  have writable {written : List Directive}
      (stored : ∀ owner, written.filter (·.owner.text = owner) = rules.directivesFor owner) :
      ∀ directive ∈ written, directive.Writable := by
    intro directive among
    refine loaded.writable directive.owner.text directive ?_
    rw [← stored, List.mem_filter]
    exact ⟨among, decide_eq_true rfl⟩
  have collected {written : List Directive}
      (stored : ∀ owner, written.filter (·.owner.text = owner) = rules.directivesFor owner) :
      ofList written = rules :=
    ext_directivesFor fun owner => (directivesFor_ofList written owner).trans (stored owner)
  constructor
  · intro written bytes stored are
    rw [ofBytes_of_dumpLines (writable stored) are, collected stored]
  · intro order inOrder
    have stored := filter_ungroup inOrder
    rw [ofBytes_of_dumpLines (writable stored) (areLines_dump (writable stored)), collected stored]

/-- A text that is read as `interleaved`, with comments and owners in either form. -/
def commented : String := "public p.Q * # all\n\npublic P\n\tprivate+f p/Q *"

/-- A rule set that was loaded is written with its owners in turn or one after the other, and both
are read back. -/
theorem ofBytes_dump_of_loaded_interleaved :
    Loaded (ofList interleaved) ∧
      ofBytes "again" (Text.toUtf8 "public p/Q *\npublic P\nprivate+f p/Q *") =
        .ok (ofList interleaved) ∧
      ofBytes "again" (dump (ungroup (ofList interleaved).groups.toList.reverse)) =
        .ok (ofList interleaved) := by
  have read : ofBytes "rules" (Text.toUtf8 commented) = .ok (ofList interleaved) := by
    decide +kernel
  have lines : Text.rawLines (Text.toUtf8 "public p/Q *\npublic P\nprivate+f p/Q *") =
      dumpLines interleaved := by
    decide +kernel
  have loaded : Loaded (ofList interleaved) := .bytes read
  obtain ⟨inTurn, grouped⟩ := ofBytes_dump_of_loaded loaded "again"
  exact ⟨loaded, inTurn interleaved _ (fun owner => (directivesFor_ofList _ owner).symm)
    (Text.rawLines_eq_iff.mp lines), grouped _ (List.reverse_perm _)⟩

end RuleSet

end ClassAccess
