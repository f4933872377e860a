import ClassAccess.Proofs.Fallible
import ClassAccess.Proofs.Text.Lines
import ClassAccess.Rule.Source

/-!
# Reading rule files

A rule file is read line by line, and this module says what comes of it as a whole.
`Contents` are the texts that are left of the lines without comments and blanks;
a file without refused lines makes the rule set of its contents, and any other file
is refused for the first line that is, with the number of that line.

The name of the source shows in errors only.
-/

namespace ClassAccess.RuleSet

/-- What is left of a line: its text up to the first `#`, without the blanks at the ends. -/
def IsCleaned (line text : List Char) : Prop :=
  ∃ body comment, line = body ++ comment ∧ '#' ∉ body ∧ (∀ c ∈ comment.head?, c = '#') ∧
    Text.IsTrimmed body text

/-- A line is cleaned to what is left of it. -/
theorem toList_cleanLine_eq_iff {line : String} {text : List Char} :
    (cleanLine line).toList = text ↔ IsCleaned line.toList text := by
  obtain ⟨body, comment, cut, passes, stops⟩ := Text.exists_cut (· != '#') line.toList
  obtain ⟨taken, -⟩ := Text.takeWhile_dropWhile_append _ passes stops
  rw [cleanLine, String.toList_ofList, cut, taken, Text.trim_eq_iff]
  constructor
  · intro isTrimmed
    exact ⟨body, comment, rfl, fun held => by simpa using passes _ held,
      fun c first => by simpa using stops c first, isTrimmed⟩
  · rintro ⟨other, otherComment, sameLine, unmarked, marked, isTrimmed⟩
    have otherPasses : ∀ c ∈ other, (c != '#') = true := by
      intro c held
      rw [bne_iff_ne]
      rintro rfl
      exact unmarked held
    have otherStops : ∀ c ∈ otherComment.head?, (c != '#') = false := by
      intro c first
      rw [marked c first]
      rfl
    have otherTaken := (Text.takeWhile_dropWhile_append _ otherPasses otherStops).1
    rw [← sameLine, taken] at otherTaken
    rwa [otherTaken]

/-- A line of a rule file with nothing but blanks and a comment. -/
def IsSkipped (line : List UInt8) : Prop :=
  ∃ text, Text.ofUtf8? line = some text ∧ IsCleaned text.toList []

/-- A line of a rule file with something else on it. -/
def Holds (line : List UInt8) (content : String) : Prop :=
  ∃ text, Text.ofUtf8? line = some text ∧ content ≠ "" ∧ IsCleaned text.toList content.toList

/-- What the lines of a rule file hold, in order. -/
inductive Contents : List (List UInt8) → List String → Prop where
  | none : Contents [] []
  | skipped {line : List UInt8} {later : List (List UInt8)} {contents : List String}
      (isSkipped : IsSkipped line) (behind : Contents later contents) :
      Contents (line :: later) contents
  | held {line : List UInt8} {content : String} {later : List (List UInt8)}
      {contents : List String} (holds : Holds line content) (behind : Contents later contents) :
      Contents (line :: later) (content :: contents)

/-- A line that stops no reading: it is skipped or holds a directive. -/
def IsAccepted (line : List UInt8) : Prop :=
  IsSkipped line ∨ ∃ content directive, Holds line content ∧ Directive.parse content = .ok directive

/-- What is wrong with a line that stops the reading. Bytes that are no text have no content to
find fault with. -/
inductive IsRefused (line : List UInt8) : Option LineError → Prop where
  | notText (unread : Text.ofUtf8? line = none) : IsRefused line none
  | notDirective {content : String} {error : LineError} (holds : Holds line content)
      (fault : Directive.parse content = .error error) : IsRefused line (some error)

/-- The error about a line of a source. It says where the line is only if the line has content. -/
def located (source : String) (number : Nat) : Option LineError → RuleTextError
  | none => .notText
  | some error => .atLine source number error

/-- Apart from the place, what is wrong with a source is what is wrong with the line. -/
@[simp] theorem lineError?_located (source : String) (number : Nat) (error : Option LineError) :
    (located source number error).lineError? = error := by
  cases error <;> rfl

variable {source : String} {rules : RuleSet} {line : List UInt8} {number : Nat}

/-- A skipped line adds nothing. -/
theorem addLine_of_isSkipped (isSkipped : IsSkipped line) :
    addLine source rules (line, number) = .ok rules := by
  obtain ⟨text, read, cleaned⟩ := isSkipped
  have empty : cleanLine text = "" :=
    String.toList_eq_nil_iff.mp (toList_cleanLine_eq_iff.mpr cleaned)
  simp [addLine, read, empty]

/-- A line that holds something adds the directive that it is, if it is one. -/
theorem addLine_of_holds {content : String} (holds : Holds line content) :
    addLine source rules (line, number) =
      ((Directive.parse content).mapError (.atLine source number)).map rules.push := by
  obtain ⟨text, read, filled, cleaned⟩ := holds
  have same : cleanLine text = content :=
    String.toList_inj.mp (toList_cleanLine_eq_iff.mpr cleaned)
  simp only [addLine, read, same, String.isEmpty_iff, filled, if_false]
  cases Directive.parse content <;> rfl

/-- A refused line stops the reading. -/
theorem addLine_of_isRefused {fault : Option LineError} (isRefused : IsRefused line fault) :
    addLine source rules (line, number) = .error (located source number fault) := by
  cases isRefused with
  | notText unread => simp [addLine, unread, located]
  | notDirective holds fault =>
      rw [addLine_of_holds holds, fault]
      rfl

/-- A line either stops no reading or is refused. -/
theorem isAccepted_or_isRefused (line : List UInt8) :
    IsAccepted line ∨ ∃ fault, IsRefused line fault := by
  cases read : Text.ofUtf8? line with
  | none => exact .inr ⟨none, .notText read⟩
  | some text =>
      have cleaned := toList_cleanLine_eq_iff.mp (@rfl _ (cleanLine text).toList)
      by_cases empty : cleanLine text = ""
      · rw [empty] at cleaned
        exact .inl (.inl ⟨text, read, cleaned⟩)
      · have holds : Holds line (cleanLine text) := ⟨text, read, empty, cleaned⟩
        cases parsed : Directive.parse (cleanLine text) with
        | error error => exact .inr ⟨some error, .notDirective holds parsed⟩
        | ok directive => exact .inl (.inr ⟨_, directive, holds, parsed⟩)

/-- Lines that stop no reading have contents, and these are directives. -/
theorem exists_contents_of_isAccepted {lines : List (List UInt8)}
    (accepted : ∀ line ∈ lines, IsAccepted line) :
    ∃ contents directives, Contents lines contents ∧
      contents.mapM Directive.parse = .ok directives := by
  induction lines with
  | nil => exact ⟨[], [], .none, rfl⟩
  | cons line later ih =>
      rw [List.forall_mem_cons] at accepted
      obtain ⟨contents, directives, behind, parsed⟩ := ih accepted.2
      rcases accepted.1 with isSkipped | ⟨content, directive, holds, isDirective⟩
      · exact ⟨contents, directives, .skipped isSkipped behind, parsed⟩
      · refine ⟨content :: contents, directive :: directives, .held holds behind, ?_⟩
        rw [mapM_eq_ok_iff] at parsed ⊢
        exact .cons isDirective parsed

/-- Lines whose contents are directives add these, whatever number the first line has. -/
theorem foldlM_addLine_of_contents {lines : List (List UInt8)} {contents : List String}
    {directives : List Directive} (held : Contents lines contents)
    (parsed : contents.mapM Directive.parse = .ok directives) (first : Nat) (rules : RuleSet) :
    (lines.zipIdx first).foldlM (addLine source) rules = .ok (rules.pushAll directives) := by
  rw [mapM_eq_ok_iff] at parsed
  induction held generalizing first rules directives with
  | none =>
      cases parsed
      rfl
  | skipped isSkipped behind ih =>
      rw [List.zipIdx_cons, List.foldlM_cons, addLine_of_isSkipped isSkipped]
      exact ih parsed (first + 1) rules
  | held holds behind ih =>
      cases parsed with
      | @cons _ directive _ _ isDirective parsed =>
          rw [List.zipIdx_cons, List.foldlM_cons, addLine_of_holds holds, isDirective]
          exact ih parsed (first + 1) (rules.push directive)

/-- Lines are all accepted, or else there is a first one that is refused. -/
theorem accepted_or_exists_refused (lines : List (List UInt8)) :
    (∀ line ∈ lines, IsAccepted line) ∨ ∃ before line after fault,
      lines = before ++ line :: after ∧ (∀ earlier ∈ before, IsAccepted earlier) ∧
        IsRefused line fault := by
  induction lines with
  | nil => exact .inl (by simp)
  | cons line later ih =>
      rcases isAccepted_or_isRefused line with accepted | ⟨fault, isRefused⟩
      · rcases ih with allLater | ⟨before, refused, after, fault, rfl, earlier, isRefused⟩
        · exact .inl (List.forall_mem_cons.mpr ⟨accepted, allLater⟩)
        · exact .inr ⟨line :: before, refused, after, fault, rfl,
            List.forall_mem_cons.mpr ⟨accepted, earlier⟩, isRefused⟩
      · exact .inr ⟨[], line, later, fault, rfl, by simp, isRefused⟩

/-- Lines up to the first refused one end with the error about it. -/
theorem foldlM_addLine_of_isRefused {before after : List (List UInt8)} {fault : Option LineError}
    (accepted : ∀ earlier ∈ before, IsAccepted earlier) (isRefused : IsRefused line fault)
    (first : Nat) (rules : RuleSet) :
    ((before ++ line :: after).zipIdx first).foldlM (addLine source) rules =
      .error (located source (first + before.length) fault) := by
  obtain ⟨contents, directives, held, parsed⟩ := exists_contents_of_isAccepted accepted
  rw [List.zipIdx_append, List.foldlM_append, foldlM_addLine_of_contents held parsed,
    List.zipIdx_cons]
  change (_ :: _).foldlM (addLine source) _ = _
  rw [List.foldlM_cons, addLine_of_isRefused isRefused]
  rfl

/-- Lines are read as the rule set of the directives that they are. -/
theorem ofLines_eq_ok_iff {contents : List String} {made : RuleSet} :
    ofLines contents = .ok made ↔
      ∃ directives, contents.mapM Directive.parse = .ok directives ∧ ofList directives = made := by
  rw [← map_eq_ok_iff]
  rfl

/-- A rule file is read as its contents are. -/
theorem ofBytes_of_contents {bytes : List UInt8} {lines : List (List UInt8)}
    {contents : List String} {made : RuleSet} (are : Text.AreLines bytes lines)
    (held : Contents lines contents) (set : ofLines contents = .ok made) :
    ofBytes source bytes = .ok made := by
  obtain ⟨directives, parsed, rfl⟩ := ofLines_eq_ok_iff.mp set
  rw [ofBytes, are.rawLines_eq]
  exact foldlM_addLine_of_contents held parsed 1 empty

/-- A rule file with a refused line is refused for the first one. -/
theorem ofBytes_of_isRefused {bytes : List UInt8} {before after : List (List UInt8)}
    {fault : Option LineError} (are : Text.AreLines bytes (before ++ line :: after))
    (accepted : ∀ earlier ∈ before, IsAccepted earlier) (isRefused : IsRefused line fault) :
    ofBytes source bytes = .error (located source (before.length + 1) fault) := by
  rw [ofBytes, are.rawLines_eq, Nat.add_comm]
  exact foldlM_addLine_of_isRefused accepted isRefused 1 empty

/-- Either no line of a rule file is refused and its contents make a rule set, or there is a first
refused line. -/
theorem ofBytes_cases (source : String) (bytes : List UInt8) :
    (∃ lines contents made, Text.AreLines bytes lines ∧ (∀ line ∈ lines, IsAccepted line) ∧
        Contents lines contents ∧ ofLines contents = .ok made ∧ ofBytes source bytes = .ok made) ∨
      ∃ before line after fault, Text.AreLines bytes (before ++ line :: after) ∧
        (∀ earlier ∈ before, IsAccepted earlier) ∧ IsRefused line fault ∧
        ofBytes source bytes = .error (located source (before.length + 1) fault) := by
  have are := Text.rawLines_eq_iff.mp (@rfl _ (Text.rawLines bytes))
  rcases accepted_or_exists_refused (Text.rawLines bytes) with
    accepted | ⟨before, line, after, fault, cut, earlier, isRefused⟩
  · obtain ⟨contents, directives, held, parsed⟩ := exists_contents_of_isAccepted accepted
    have set := ofLines_eq_ok_iff.mpr ⟨directives, parsed, rfl⟩
    exact .inl ⟨_, contents, _, are, accepted, held, set, ofBytes_of_contents are held set⟩
  · rw [cut] at are
    exact .inr ⟨before, line, after, fault, are, earlier, isRefused,
      ofBytes_of_isRefused are earlier isRefused⟩

/-- A rule file is read as the rule set of what its lines hold. -/
theorem ofBytes_eq_ok_iff {bytes : List UInt8} {made : RuleSet} :
    ofBytes source bytes = .ok made ↔
      ∃ lines contents, Text.AreLines bytes lines ∧ Contents lines contents ∧
        ofLines contents = .ok made := by
  constructor
  · intro read
    rcases ofBytes_cases source bytes with
      ⟨lines, contents, set, are, -, held, parsed, same⟩ | ⟨_, _, _, _, -, -, -, failed⟩
    · rw [same] at read
      cases read
      exact ⟨lines, contents, are, held, parsed⟩
    · rw [failed] at read
      cases read
  · rintro ⟨lines, contents, are, held, set⟩
    exact ofBytes_of_contents are held set

/-- A rule file is refused for the first line that is refused. -/
theorem ofBytes_eq_error_iff {bytes : List UInt8} {error : RuleTextError} :
    ofBytes source bytes = .error error ↔
      ∃ before line after fault, Text.AreLines bytes (before ++ line :: after) ∧
        (∀ earlier ∈ before, IsAccepted earlier) ∧ IsRefused line fault ∧
        error = located source (before.length + 1) fault := by
  constructor
  · intro failed
    rcases ofBytes_cases source bytes with
      ⟨_, _, _, -, -, -, -, read⟩ | ⟨before, line, after, fault, are, earlier, isRefused, same⟩
    · rw [read] at failed
      cases failed
    · rw [same] at failed
      cases failed
      exact ⟨before, line, after, fault, are, earlier, isRefused, rfl⟩
  · rintro ⟨before, line, after, fault, are, earlier, isRefused, rfl⟩
    exact ofBytes_of_isRefused are earlier isRefused

/-- Lines with a comment only count, and a carriage return in front of a line end is a blank. -/
example : ofBytes "rules" [35, 13, 10, 120, 13, 10, 255] =
    .error (.atLine "rules" 2 ⟨"x", .wordCount 1⟩) := by
  cbv

/-- A rule file is read when no line is refused. -/
theorem exists_ofBytes_eq_ok_iff {bytes : List UInt8} :
    (∃ made, ofBytes source bytes = .ok made) ↔
      ∃ lines, Text.AreLines bytes lines ∧ ∀ line ∈ lines, IsAccepted line := by
  constructor
  · rintro ⟨made, read⟩
    rcases ofBytes_cases source bytes with
      ⟨lines, _, _, are, accepted, -, -, -⟩ | ⟨_, _, _, _, -, -, -, failed⟩
    · exact ⟨lines, are, accepted⟩
    · rw [failed] at read
      cases read
  · rintro ⟨lines, are, accepted⟩
    obtain ⟨contents, directives, held, parsed⟩ := exists_contents_of_isAccepted accepted
    exact ⟨_, ofBytes_of_contents are held (ofLines_eq_ok_iff.mpr ⟨directives, parsed, rfl⟩)⟩

/-- A rule file without refused lines makes the rule set of what its lines hold. Any other one is
refused for its first refused line, and apart from the place of that line for nothing else. -/
theorem ofBytes_of_lines (source : String) (bytes : List UInt8) :
    (∀ made, ofBytes source bytes = .ok made ↔
        ∃ lines contents, Text.AreLines bytes lines ∧ Contents lines contents ∧
          ofLines contents = .ok made) ∧
      ((∃ made, ofBytes source bytes = .ok made) ↔
        ∃ lines, Text.AreLines bytes lines ∧ ∀ line ∈ lines, IsAccepted line) ∧
      ∀ error, ofBytes source bytes = .error error ↔
        ∃ before line after fault, Text.AreLines bytes (before ++ line :: after) ∧
          (∀ earlier ∈ before, IsAccepted earlier) ∧ IsRefused line fault ∧
          error = located source (before.length + 1) fault ∧ error.lineError? = fault := by
  refine ⟨fun made => ofBytes_eq_ok_iff, exists_ofBytes_eq_ok_iff, fun error => ?_⟩
  rw [ofBytes_eq_error_iff]
  constructor
  · rintro ⟨before, line, after, fault, are, earlier, isRefused, rfl⟩
    exact ⟨before, line, after, fault, are, earlier, isRefused, rfl, lineError?_located ..⟩
  · rintro ⟨before, line, after, fault, are, earlier, isRefused, same, -⟩
    exact ⟨before, line, after, fault, are, earlier, isRefused, same⟩

end ClassAccess.RuleSet
