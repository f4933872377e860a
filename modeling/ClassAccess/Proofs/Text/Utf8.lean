import ClassAccess.Text.Lines

/-!
# Texts as bytes

Which bytes the texts of files are made up of. A text has a line end only where it has
a line feed, and has none of the bytes that are too large to be in any text.
-/

namespace ClassAccess.Text

/-- The bytes of a text are those of its characters. -/
theorem toUtf8_eq (text : String) : toUtf8 text = text.toList.flatMap String.utf8EncodeChar := by
  rw [toUtf8, String.toUTF8_eq_toByteArray, ← String.utf8Encode_toList, List.utf8Encode,
    List.data_toByteArray, List.toList_toArray]

/-- A character is a byte of its own number, or else it is bytes from 128 to 247. -/
theorem utf8EncodeChar_cases (c : Char) :
    c.val.toNat < 128 ∧ String.utf8EncodeChar c = [UInt8.ofNat c.val.toNat] ∨
      ∀ byte ∈ String.utf8EncodeChar c, 128 ≤ byte.toNat ∧ byte.toNat < 248 := by
  have inRange {number : Nat} (low : 128 ≤ number) (high : number < 248) :
      128 ≤ (UInt8.ofNat number).toNat ∧ (UInt8.ofNat number).toNat < 248 := by
    rw [UInt8.toNat_ofNat']
    omega
  rw [String.utf8EncodeChar]
  split
  · exact .inl ⟨by omega, rfl⟩
  · right
    split
    · simp only [List.forall_mem_cons, List.not_mem_nil, false_imp_iff, implies_true, and_true]
      exact ⟨inRange (by omega) (by omega), inRange (by omega) (by omega)⟩
    · split <;>
        simp only [List.forall_mem_cons, List.not_mem_nil, false_imp_iff, implies_true, and_true]
      · exact ⟨inRange (by omega) (by omega), inRange (by omega) (by omega),
          inRange (by omega) (by omega)⟩
      · exact ⟨inRange (by omega) (by omega), inRange (by omega) (by omega),
          inRange (by omega) (by omega), inRange (by omega) (by omega)⟩

/-- A text without line feed has no line end. -/
theorem unbroken_toUtf8 {text : String} (unbroken : '\n' ∉ text.toList) : 10 ∉ toUtf8 text := by
  rw [toUtf8_eq]
  intro held
  obtain ⟨c, among, within⟩ := List.mem_flatMap.mp held
  rcases utf8EncodeChar_cases c with ⟨small, single⟩ | large
  · have number : c.val.toNat = 10 := by
      have same := congrArg UInt8.toNat (List.mem_singleton.mp (single ▸ within))
      rw [UInt8.toNat_ofNat'] at same
      change 10 = _ at same
      omega
    have lineFeed : c = '\n' := Char.ext (UInt32.toNat_inj.mp number)
    exact unbroken (lineFeed ▸ among)
  · have outside := (large 10 within).1
    exact absurd outside (by decide)

/-- No byte of a text is larger than 247. -/
theorem toNat_lt_of_mem_toUtf8 {text : String} {byte : UInt8} (held : byte ∈ toUtf8 text) :
    byte.toNat < 248 := by
  rw [toUtf8_eq] at held
  obtain ⟨c, -, within⟩ := List.mem_flatMap.mp held
  rcases utf8EncodeChar_cases c with ⟨small, single⟩ | large
  · rw [single, List.mem_singleton] at within
    rw [within, UInt8.toNat_ofNat']
    omega
  · exact (large byte within).2

/-- Bytes that are read as a text are those of the text. -/
theorem eq_toUtf8_of_ofUtf8? {bytes : List UInt8} {text : String}
    (read : ofUtf8? bytes = some text) : bytes = toUtf8 text := by
  rw [ofUtf8?, String.fromUTF8?] at read
  split at read
  · cases read
    rw [toUtf8, String.toUTF8_eq_toByteArray]
    simp [String.fromUTF8, List.data_toByteArray]
  · cases read

end ClassAccess.Text
