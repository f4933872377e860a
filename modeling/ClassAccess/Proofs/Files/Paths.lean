import ClassAccess.Files.Tree
import ClassAccess.Proofs.Text.Words
import Mathlib.Data.List.Basic

/-!
# Paths and their pieces

What becomes of the pieces of a path when it is gone on from, and when it is cut off
after a step. Only the pieces that lead somewhere count for where a path leads.

Nothing here depends on what a file tree holds.
-/

namespace ClassAccess

/-- A text that can name an entry of a directory. -/
structure IsEntryName (name : String) : Prop where
  filled : name ≠ ""
  unseparated : '/' ∉ name.toList
  notHere : name ≠ "."
  notUp : name ≠ ".."

instance : DecidablePred IsEntryName := fun name =>
  decidable_of_iff (name ≠ "" ∧ '/' ∉ name.toList ∧ name ≠ "." ∧ name ≠ "..")
    ⟨fun ⟨filled, unseparated, notHere, notUp⟩ => ⟨filled, unseparated, notHere, notUp⟩,
      fun isName => ⟨isName.filled, isName.unseparated, isName.notHere, isName.notUp⟩⟩

namespace Path

open FileTree

/-- Texts without separators are the pieces of what they are joined to. -/
theorem pieces_intercalate {texts : List (List Char)} (filled : texts ≠ [])
    (each : ∀ text ∈ texts, '/' ∉ text) :
    Text.pieces (· == '/') (['/'].intercalate texts) = texts := by
  have alone {text : List Char} (unseparated : '/' ∉ text) :
      Text.pieces (· == '/') text = [text] :=
    Text.pieces_eq_singleton fun c held => beq_false_of_ne fun same => unseparated (same ▸ held)
  induction texts with
  | nil => exact absurd rfl filled
  | cons text later ih =>
      rw [List.forall_mem_cons] at each
      cases later with
      | nil => rw [List.intercalate_singleton, alone each.1]
      | cons next later =>
          rw [List.intercalate_cons_cons, List.append_assoc, List.singleton_append,
            Text.pieces_append_cons (by rfl), alone each.1, ih (by simp) each.2,
            List.singleton_append]

/-- The pieces of a path have no separators. -/
theorem unseparated_of_mem_pieces {path : Path} {piece : List Char} (among : piece ∈ path.pieces) :
    '/' ∉ piece := by
  intro held
  have passed := (Text.of_mem_piece among held).2
  cases passed

/-- The pieces of a text that lead somewhere. -/
def leading (text : List Char) : List (List Char) :=
  (Text.pieces (· == '/') text).filter fun piece => !piece.isEmpty

/-- The pieces of a path that lead somewhere are those of its text. -/
theorem leadingPieces_eq (path : Path) : leadingPieces path = leading path.text.toList := rfl

/-- With a separator between two texts, the pieces of both lead somewhere. -/
theorem leading_append_cons (front rest : List Char) :
    leading (front ++ '/' :: rest) = leading front ++ leading rest := by
  rw [leading, Text.pieces_append_cons (by rfl), List.filter_append]
  rfl

/-- Of texts without separators that are joined, those with characters lead somewhere. -/
theorem leading_intercalate {texts : List (List Char)} (each : ∀ text ∈ texts, '/' ∉ text) :
    leading (['/'].intercalate texts) = texts.filter fun text => !text.isEmpty := by
  by_cases empty : texts = []
  · rw [empty]
    rfl
  · rw [leading, pieces_intercalate empty each]

/-- Joined names lead through these names. -/
theorem leading_names {names : List String} (each : ∀ name ∈ names, IsEntryName name) :
    leading (String.intercalate "/" names).toList = names.map String.toList := by
  have unseparated : ∀ text ∈ names.map String.toList, '/' ∉ text := by
    simpa using fun name among => (each name among).unseparated
  have filled : ∀ text ∈ names.map String.toList, (!text.isEmpty) = true := by
    simpa using fun name among => (each name among).filled
  have separator : "/".toList = ['/'] := rfl
  rw [String.toList_intercalate, separator, leading_intercalate unseparated,
    List.filter_eq_self.mpr filled]

/-- A path is gone on from behind a separator, which it may end in already. -/
theorem exists_toList_join {root : Path} {later : String} (rooted : root.text ≠ "")
    (relative : later.toList.head? ≠ some '/') :
    ∃ front, (root.join later).text.toList = front ++ '/' :: later.toList ∧
      leading front = leading root.text.toList ∧
      (front ++ ['/']).head? = root.text.toList.head? := by
  rw [join, if_neg relative]
  split
  · next ends =>
      obtain ⟨front, last, chars⟩ := (List.eq_nil_or_concat' root.text.toList).resolve_left
        (mt String.toList_eq_nil_iff.mp rooted)
      rw [chars, List.getLast?_concat, Option.all_some, beq_iff_eq] at ends
      subst ends
      refine ⟨front, by simp [chars], ?_, by rw [chars]⟩
      rw [chars, leading_append_cons]
      exact (List.append_nil _).symm
  · refine ⟨root.text.toList, by simp, rfl, ?_⟩
    exact List.head?_append_of_ne_nil _ (mt String.toList_eq_nil_iff.mp rooted)

/-- Joined names do not start with a separator. -/
theorem head?_intercalate {name : String} {later : List String} (isName : IsEntryName name) :
    (String.intercalate "/" (name :: later)).toList.head? ≠ some '/' := by
  obtain ⟨c, rest, chars⟩ := List.exists_cons_of_ne_nil
    (mt String.toList_eq_nil_iff.mp isName.filled)
  have first : (String.intercalate "/" (name :: later)).toList.head? = some c := by
    rw [String.toList_intercalate, List.map_cons, chars]
    cases later <;> rfl
  rw [first, ne_eq, Option.some.injEq]
  rintro rfl
  exact isName.unseparated (chars ▸ List.mem_cons_self)

/-- Going on from a path through names starts where the path does and takes its pieces and then the
names. -/
theorem leadingPieces_joinAll {root : Path} {names : List String} (rooted : root.text ≠ "")
    (each : ∀ name ∈ names, IsEntryName name) :
    (root.joinAll names).isAbsolute = root.isAbsolute ∧
      leadingPieces (root.joinAll names) = leadingPieces root ++ names.map String.toList := by
  cases names with
  | nil => exact ⟨rfl, (List.append_nil _).symm⟩
  | cons name later =>
      obtain ⟨front, chars, sameLeading, start⟩ := exists_toList_join rooted
        (head?_intercalate (each name List.mem_cons_self))
      have joined : root.joinAll (name :: later) =
          root.join (String.intercalate "/" (name :: later)) := rfl
      constructor
      · rw [joined, isAbsolute, isAbsolute, chars, ← start, List.head?_append, List.head?_append]
        rfl
      · rw [joined, leadingPieces_eq, leadingPieces_eq, chars, leading_append_cons, sameLeading,
          leading_names each]

/-- The name that a path ends in can name an entry of a directory. -/
theorem isEntryName_of_fileName? {path : Path} {name : String}
    (named : path.fileName? = some name) : IsEntryName name := by
  have ends : path.steps.getLast? = some (.into name) := by
    rw [fileName?] at named
    split at named
    · next last =>
        cases named
        exact last
    · cases named
  have among := List.mem_of_getLast? ends
  rw [steps, List.mem_append] at among
  rcases among with first | later
  · rw [leadingStep] at first
    split at first
    · cases List.mem_singleton.mp first
    · split at first
      · cases List.mem_singleton.mp first
      · cases first
  · obtain ⟨piece, held, stands⟩ := List.mem_filterMap.mp later
    rw [Step.ofPiece?] at stands
    split at stands
    · cases stands
    · next notHere =>
        split at stands
        · cases stands
        · next notUp =>
            cases stands
            rw [not_or] at notHere
            exact ⟨mt String.ofList_eq_empty_iff.mp notHere.1,
              by simpa using unseparated_of_mem_pieces held,
              fun same => notHere.2 (String.ofList_injective same),
              fun same => notUp (String.ofList_injective same)⟩

/-- A path starts at the root when its first piece is empty and not the only one. -/
theorem isAbsolute_iff {path : Path} :
    path.isAbsolute = true ↔ ∃ next later, path.pieces = [] :: next :: later := by
  rw [isAbsolute, pieces, beq_iff_eq]
  cases path.text.toList with
  | nil => simp
  | cons c rest =>
      obtain ⟨piece, later, cut⟩ := List.exists_cons_of_ne_nil (Text.pieces_ne_nil (· == '/') rest)
      rw [Text.pieces_cons, cut, Text.extendPieces, List.head?_cons, Option.some.injEq, ← beq_iff_eq]
      by_cases separator : (c == '/') = true <;> simp [separator]

/-- A path whose pieces are the first ones of a path that does not start at the root does not start
there either. -/
theorem leadingPieces_of_pieces {path above : Path} {back : List (List Char)}
    (relative : ¬path.isAbsolute = true) (cut : path.pieces = above.pieces ++ back) :
    above.isAbsolute = path.isAbsolute ∧
      leadingPieces path = leadingPieces above ++ back.filter fun piece => !piece.isEmpty := by
  constructor
  · rw [Bool.eq_false_iff.mpr relative, Bool.eq_false_iff]
    intro absolute
    obtain ⟨next, later, pieces⟩ := isAbsolute_iff.mp absolute
    exact relative (isAbsolute_iff.mpr ⟨next, later ++ back, by rw [cut, pieces]; rfl⟩)
  · rw [leadingPieces, cut, List.filter_append]
    rfl

/-- A path that is cut off behind some pieces takes these pieces, from where the path starts. -/
theorem leadingPieces_withBody {path : Path} {front back : List (List Char)}
    (cut : path.body = front ++ back) (rooted : front = [] → path.leadingStep ≠ []) :
    (path.withBody front).isAbsolute = path.isAbsolute ∧
      leadingPieces path = leadingPieces (path.withBody front) ++
        back.filter fun piece => !piece.isEmpty := by
  have unseparated : ∀ piece ∈ path.pieces, '/' ∉ piece := fun _ => unseparated_of_mem_pieces
  by_cases absolute : path.isAbsolute = true
  · have step : path.leadingStep = [.root] := if_pos absolute
    obtain ⟨next, later, pieces⟩ := isAbsolute_iff.mp absolute
    rw [body, step, if_neg (by simp), pieces, List.tail_cons] at cut
    rw [pieces, cut] at unseparated
    have kept : ∀ text ∈ front, '/' ∉ text := fun text held => unseparated text (by simp [held])
    have chars : (path.withBody front).text.toList = [] ++ '/' :: ['/'].intercalate front := by
      rw [withBody, step]
      simp
    have start : (path.withBody front).isAbsolute = true := by
      rw [isAbsolute, chars]
      rfl
    rw [start, absolute, leadingPieces, pieces, cut, leadingPieces_eq, chars, leading_append_cons,
      leading_intercalate kept]
    exact ⟨rfl, by simp [leading]⟩
  -- A path that starts elsewhere is cut off behind some of its pieces, with the first `.` if any.
  have cutOff {taken : List (List Char)} (filled : taken ≠ []) (whole : path.pieces = taken ++ back)
      (chars : (path.withBody front).text.toList = ['/'].intercalate taken) :
      path.pieces = (path.withBody front).pieces ++ back := by
    have kept : ∀ text ∈ taken, '/' ∉ text :=
      fun text held => unseparated text (by simp [whole, held])
    rw [whole, pieces, chars, pieces_intercalate filled kept]
  refine leadingPieces_of_pieces absolute ?_
  by_cases explicit : path.pieces.head? = some ['.']
  · have step : path.leadingStep = [.here] := by
      rw [leadingStep, if_neg absolute, if_pos explicit]
    obtain ⟨later, pieces⟩ := List.head?_eq_some_iff.mp explicit
    rw [body, step, if_neg (by simp), pieces, List.tail_cons] at cut
    refine cutOff (List.cons_ne_nil ['.'] front) (by rw [pieces, cut]; rfl) ?_
    rw [withBody, step]
    simp
  · have step : path.leadingStep = [] := by
      rw [leadingStep, if_neg absolute, if_neg explicit]
    rw [body, if_pos step] at cut
    refine cutOff (fun empty => rooted empty step) cut ?_
    rw [withBody, step]
    simp

/-- A path to a directory on the way is cut off behind some pieces, but not behind none unless there
is a leading step. -/
theorem exists_of_mem_ancestorsFrom {path above : Path} {reversed : List (List Char)}
    (among : above ∈ path.ancestorsFrom reversed) :
    ∃ front back, reversed.reverse = front ++ back ∧ above = path.withBody front ∧
      (front = [] → path.leadingStep ≠ []) := by
  induction reversed with
  | nil =>
      rw [ancestorsFrom] at among
      split at among
      · cases among
      · next leads =>
          cases List.mem_singleton.mp among
          exact ⟨[], [], rfl, rfl, fun _ => leads⟩
  | cons piece before ih =>
      rw [ancestorsFrom] at among
      have earlier (within : above ∈ path.ancestorsFrom before) :
          ∃ front back, (piece :: before).reverse = front ++ back ∧ above = path.withBody front ∧
            (front = [] → path.leadingStep ≠ []) := by
        obtain ⟨front, back, cut, same, rooted⟩ := ih within
        exact ⟨front, back ++ [piece], by simp [cut], same, rooted⟩
      split at among
      · exact earlier among
      · rcases List.mem_cons.mp among with same | within
        · exact ⟨(piece :: before).reverse, [], by simp, same, by simp⟩
        · exact earlier within

/-- A path to a directory on the way but the first one is cut off before a step. -/
theorem exists_step_of_mem_tail {path above : Path} {reversed : List (List Char)}
    (among : above ∈ (path.ancestorsFrom reversed).tail) :
    ∃ front back, reversed.reverse = front ++ back ∧ above = path.withBody front ∧
      (front = [] → path.leadingStep ≠ []) ∧ ∃ piece ∈ back, piece ≠ [] := by
  induction reversed with
  | nil =>
      rw [ancestorsFrom] at among
      split at among <;> cases among
  | cons piece before ih =>
      rw [ancestorsFrom] at among
      split at among
      · obtain ⟨front, back, cut, same, rooted, step, held, filled⟩ := ih among
        exact ⟨front, back ++ [piece], by simp [cut], same, rooted, step,
          List.mem_append_left _ held, filled⟩
      · next isStep =>
          obtain ⟨front, back, cut, same, rooted⟩ := exists_of_mem_ancestorsFrom among
          refine ⟨front, back ++ [piece], by simp [cut], same, rooted, piece,
            List.mem_append_right _ List.mem_cons_self, ?_⟩
          rintro rfl
          exact isStep rfl

/-- A path to a directory on the way to another one takes its first pieces, but not all. -/
theorem leadingPieces_of_mem_ancestors {path above : Path} (among : above ∈ path.ancestors.tail) :
    above.isAbsolute = path.isAbsolute ∧
      ∃ back, back ≠ [] ∧ leadingPieces path = leadingPieces above ++ back := by
  obtain ⟨front, back, cut, rfl, rooted, piece, held, filled⟩ := exists_step_of_mem_tail among
  rw [List.reverse_reverse] at cut
  obtain ⟨start, pieces⟩ := leadingPieces_withBody cut rooted
  refine ⟨start, _, List.ne_nil_of_mem (List.mem_filter.mpr ⟨held, ?_⟩), pieces⟩
  simpa using filled

end Path

end ClassAccess
