import ClassAccess.Proofs.Text.ModifiedUtf8

/-!
# What stored texts are made up of

Bytes are read as some units exactly when they are forms of these units one after the
other, and units as some characters exactly when they are the units of these characters.
No form of a unit is shorter than the one that is written, so that a text is never
stored in fewer bytes than it is written in.
-/

namespace ClassAccess.Text

namespace Utf16

/-- A number that is no surrogate is that of a character. -/
theorem toNat_ofNat {number : Nat} (valid : number.isValidChar) :
    (Char.ofNat number).toNat = number := by
  rw [Char.ofNat, dif_pos valid]
  rfl

/-- A pair of surrogates stands for a character with these units. -/
theorem units_pair {high low : UInt16} (first : isHigh high = true) (second : isLow low = true) :
    units (pair high low) = [high, low] := by
  rw [isHigh_iff] at first
  rw [isLow_iff] at second
  have number : (pair high low).toNat =
      0x10000 + (high.toNat - 0xD800) * 0x400 + (low.toNat - 0xDC00) :=
    toNat_ofNat (by right; omega)
  have sameHigh : UInt16.ofNat (0xD800 + ((pair high low).toNat - 0x10000) / 0x400) = high := by
    rw [← UInt16.toNat_inj, number, toNat_unit (by omega)]
    omega
  have sameLow : UInt16.ofNat (0xDC00 + ((pair high low).toNat - 0x10000) % 0x400) = low := by
    rw [← UInt16.toNat_inj, number, toNat_unit (by omega)]
    omega
  rw [units, if_neg (by omega)]
  simp only [sameHigh, sameLow]

/-- A unit that is no surrogate stands for a character with this unit. -/
theorem units_ofNat {unit : UInt16} (notHigh : ¬isHigh unit = true) (notLow : ¬isLow unit = true) :
    units (Char.ofNat unit.toNat) = [unit] := by
  rw [isHigh_iff] at notHigh
  rw [isLow_iff] at notLow
  have bound := unit.toNat_lt
  have number : (Char.ofNat unit.toNat).toNat = unit.toNat :=
    toNat_ofNat (by rw [Nat.isValidChar]; omega)
  rw [units, number, if_pos (by omega), UInt16.ofNat_toNat]

/-- Units are read as the characters whose units they are. -/
theorem chars?_eq_some_iff {input : List UInt16} {text : List Char} :
    chars? input = some text ↔ input = text.flatMap units := by
  constructor
  · have onto : ∀ done, readOnto done input = some text →
        ∃ later, text = done.reverse ++ later ∧ input = later.flatMap units := by
      intro done read
      fun_induction readOnto done input with
      | case1 done =>
          cases read
          exact ⟨[], by simp, rfl⟩
      | case2 done unit high low rest second ih =>
          obtain ⟨later, same, rfl⟩ := ih read
          exact ⟨pair unit low :: later, by simp [same], by simp [units_pair high second]⟩
      | case3 => cases read
      | case4 => cases read
      | case5 => cases read
      | case6 done unit rest notHigh notLow ih =>
          obtain ⟨later, same, rfl⟩ := ih read
          exact ⟨Char.ofNat unit.toNat :: later, by simp [same],
            by simp [units_ofNat notHigh notLow]⟩
    intro read
    obtain ⟨later, same, units⟩ := onto [] read
    rw [same]
    exact units
  · rintro rfl
    exact chars?_flatMap_units text

end Utf16

namespace ModifiedUtf8

/-- Bytes are read as the units that they are forms of. -/
theorem units?_eq_some_iff {bytes : List UInt8} {units : List UInt16} :
    units? bytes = some units ↔
      ∃ forms, List.Forall₂ IsForm forms units ∧ bytes = forms.flatten := by
  have front {form : List UInt8} {unit : UInt16} {forms : List (List UInt8)} {done : List UInt16}
      {later : List UInt16} (isForm : IsForm form unit) (are : List.Forall₂ IsForm forms later) :
      ∃ others added, List.Forall₂ IsForm others added ∧ form ++ forms.flatten = others.flatten ∧
        (unit :: done).reverse ++ later = done.reverse ++ added :=
    ⟨form :: forms, unit :: later, .cons isForm are, rfl, by simp⟩
  constructor
  · have onto : ∀ done, unitsOnto done bytes = some units → ∃ forms later,
        List.Forall₂ IsForm forms later ∧ bytes = forms.flatten ∧
          units = done.reverse ++ later := by
      intro done read
      fun_induction unitsOnto done bytes with
      | case1 done =>
          cases read
          exact ⟨[], [], .nil, rfl, by simp⟩
      | case2 done lead rest range ih =>
          obtain ⟨forms, later, are, rfl, rfl⟩ := ih read
          exact front (.one range) are
      | case3 done lead notOne range low rest continues ih =>
          obtain ⟨forms, later, are, rfl, rfl⟩ := ih read
          exact front (.two range continues) are
      | case6 done lead notOne notTwo range middle low rest continues ih =>
          rw [Bool.and_eq_true] at continues
          obtain ⟨forms, later, are, rfl, rfl⟩ := ih read
          exact front (.three range continues.1 continues.2) are
      | _ => cases read
    intro read
    obtain ⟨forms, later, are, rfl, rfl⟩ := onto [] read
    exact ⟨forms, are, rfl⟩
  · rintro ⟨forms, are, rfl⟩
    have onto : ∀ done, unitsOnto done forms.flatten = some (done.reverse ++ units) := by
      induction are with
      | nil =>
          intro done
          rw [List.flatten_nil, unitsOnto, List.append_nil]
      | cons isForm are ih =>
          intro done
          rw [List.flatten_cons, isForm.unitsOnto_append, ih, List.reverse_cons,
            List.append_assoc, List.singleton_append]
    exact onto []

/-- A unit is written in its shortest form. -/
theorem IsForm.length_encodeUnit_le {form : List UInt8} {unit : UInt16}
    (isForm : IsForm form unit) : (encodeUnit unit).length ≤ form.length := by
  rw [encodeUnit_eq]
  cases isForm with
  | @one byte range =>
      simp only [UInt8.le_iff_toNat_le, UInt8.reduceToNat] at range
      rw [if_pos (by rw [UInt8.toNat_toUInt16]; omega)]
      simp
  | @two lead low range lowRange =>
      have small : (unitOfTwo lead low).toNat < 0x800 := by
        rw [unitOfTwo, toNat_unit (by omega)]
        omega
      rw [if_pos small]
      split <;> simp [twoBytes]
  | @three lead middle low range middleRange lowRange =>
      split
      · simp
      · split <;> simp [twoBytes, threeBytes]

/-- No forms of some units are shorter than what the units are written in. -/
theorem length_flatMap_encodeUnit_le {forms : List (List UInt8)} {units : List UInt16}
    (are : List.Forall₂ IsForm forms units) :
    (units.flatMap encodeUnit).length ≤ forms.flatten.length := by
  induction are with
  | nil => simp
  | cons isForm are ih =>
      have first := isForm.length_encodeUnit_le
      rw [List.flatMap_cons, List.flatten_cons, List.length_append, List.length_append]
      omega

/-- A text that is read from some bytes is written in no more than these. -/
theorem length_encode_le {bytes : List UInt8} {text : String} (read : decode bytes = some text) :
    (encode text).length ≤ bytes.length := by
  obtain ⟨chars, readUnits, rfl⟩ := Option.map_eq_some_iff.mp read
  obtain ⟨units, readBytes, readChars⟩ := Option.bind_eq_some_iff.mp readUnits
  obtain ⟨forms, are, rfl⟩ := units?_eq_some_iff.mp readBytes
  rw [encode_eq, String.toList_ofList, ← Utf16.chars?_eq_some_iff.mp readChars]
  exact length_flatMap_encodeUnit_le are

end ModifiedUtf8

end ClassAccess.Text
