import ClassAccess.Proofs.Rule.Loading
import ClassAccess.Proofs.Rule.Source
import ClassAccess.Proofs.Storage
import ClassAccess.Proofs.Text.Utf8

/-!
# Rule files and class files

No file is both a rule file and a class file: a rule file is text, and a class file
starts with a byte that no text has. What rule files come to therefore stays the same
when class files change.
-/

namespace ClassAccess

/-- A class file starts with a byte that no text has. -/
theorem ClassFile.not_isText_of_parse {bytes : List UInt8} {file : ClassFile}
    (parsed : parse bytes = .ok file) : ¬∀ byte ∈ bytes, byte.toNat < 248 := by
  have start : write magic = [0xCA, 0xFE, 0xBA, 0xBE] := by decide
  have among : 0xFE ∈ file.toBytes := by simp [toBytes, start]
  rw [(parse_eq_ok_iff.mp parsed).2]
  intro small
  exact absurd (small 0xFE among) (by decide)

namespace RuleSet

variable {σ : Type} [FileSystem σ] {tree after : σ} {rules loaded : RuleSet}
  {paths : List Path} {path : Path}

/-- The lines of a rule file are text. -/
theorem Contents.toNat_lt {lines : List (List UInt8)} {contents : List String}
    (held : Contents lines contents) : ∀ line ∈ lines, ∀ byte ∈ line, byte.toNat < 248 := by
  have ofText {line : List UInt8} {text : String} (read : Text.ofUtf8? line = some text) :
      ∀ byte ∈ line, byte.toNat < 248 := by
    rw [Text.eq_toUtf8_of_ofUtf8? read]
    exact fun byte => Text.toNat_lt_of_mem_toUtf8
  induction held with
  | none => exact List.forall_mem_nil _
  | skipped isSkipped behind ih =>
      obtain ⟨text, read, -⟩ := isSkipped
      exact List.forall_mem_cons.mpr ⟨ofText read, ih⟩
  | held holds behind ih =>
      obtain ⟨text, read, -⟩ := holds
      exact List.forall_mem_cons.mpr ⟨ofText read, ih⟩

/-- A rule file is text. -/
theorem toNat_lt_of_ofBytes {source : String} {bytes : List UInt8}
    (read : ofBytes source bytes = .ok rules) : ∀ byte ∈ bytes, byte.toNat < 248 := by
  obtain ⟨lines, contents, are, held, -⟩ := ofBytes_eq_ok_iff.mp read
  exact are.forall_mem (by decide) held.toNat_lt

/-- The rule files that are loaded can be read, and are text. -/
theorem exists_read_of_ofFilesOnto (read : ofFilesOnto tree rules paths = .ok loaded)
    (among : path ∈ paths) :
    ∃ bytes, FileSystem.read tree path = .ok bytes ∧ ∀ byte ∈ bytes, byte.toNat < 248 := by
  induction paths generalizing rules with
  | nil => cases among
  | cons first later ih =>
      obtain ⟨merged, start, tail⟩ := bind_eq_ok_iff.mp read
      rcases List.mem_cons.mp among with same | within
      · obtain ⟨more, ofFirst, -⟩ := map_eq_ok_iff.mp start
        rw [ofFile, ← same] at ofFirst
        split at ofFirst
        · cases ofFirst
        · next bytes found =>
            exact ⟨bytes, found, toNat_lt_of_ofBytes (mapError_eq_ok_iff.mp ofFirst)⟩
      · exact ih tail within

/-- What rule files come to depends on what is read of them. -/
theorem ofFilesOnto_congr
    (agree : ∀ path ∈ paths, FileSystem.read after path = FileSystem.read tree path) :
    ofFilesOnto after rules paths = ofFilesOnto tree rules paths := by
  induction paths generalizing rules with
  | nil => rfl
  | cons first later ih =>
      rw [List.forall_mem_cons] at agree
      rw [ofFilesOnto, List.foldlM_cons, ofFilesOnto, List.foldlM_cons]
      simp only [ofFile, agree.1]
      refine bind_congr fun merged => ?_
      exact ih agree.2

end RuleSet

end ClassAccess
