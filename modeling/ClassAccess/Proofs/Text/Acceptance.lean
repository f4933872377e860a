import ClassAccess.Proofs.Text.Forms

/-!
# Which bytes are a stored text

Bytes are read as a text exactly when they are forms, one after the other, of units in
which every surrogate belongs to a pair. The units are then those of the text.

A form is overlong when its unit has a shorter one. Bytes without overlong forms are
what their text is written in; any others are a second spelling of the text, and a
longer one.
-/

namespace ClassAccess.Text

namespace Utf16

/-- Units in which surrogates occur in pairs only. -/
structure WellFormed (input : List UInt16) : Prop where
  /-- A low surrogate comes directly after each high one. -/
  followed : ∀ (i : Nat) high, input[i]? = some high → isHigh high = true →
    ∃ low, input[i + 1]? = some low ∧ isLow low = true
  /-- No other unit is a low surrogate. -/
  preceded : ∀ (i : Nat) low, input[i]? = some low → isLow low = true →
    ∃ j high, i = j + 1 ∧ input[j]? = some high ∧ isHigh high = true

/-- A low surrogate is not a high one. -/
theorem not_isHigh_of_isLow {unit : UInt16} (second : isLow unit = true) : ¬isHigh unit = true := by
  rw [isLow_iff] at second
  rw [isHigh_iff]
  omega

/-- The unit of a character below U+10000 is no surrogate. -/
theorem not_surrogate_of_toNat_eq {unit : UInt16} {c : Char} (number : unit.toNat = c.toNat) :
    ¬isHigh unit = true ∧ ¬isLow unit = true := by
  have valid := toNat_valid c
  rw [isHigh_iff, isLow_iff]
  omega

namespace WellFormed

variable {unit high low : UInt16} {rest : List UInt16}

/-- No units are well-formed. -/
theorem nil : WellFormed [] := ⟨by simp, by simp⟩

/-- A unit that is no surrogate may stand in front. -/
theorem cons (notHigh : ¬isHigh unit = true) (notLow : ¬isLow unit = true)
    (later : WellFormed rest) : WellFormed (unit :: rest) where
  followed := by
    intro i high found isHigh
    cases i with
    | zero =>
        cases found
        exact absurd isHigh notHigh
    | succ i => exact later.followed i high found isHigh
  preceded := by
    intro i low found isLow
    cases i with
    | zero =>
        cases found
        exact absurd isLow notLow
    | succ i =>
        obtain ⟨j, high, rfl, front, isHigh⟩ := later.preceded i low found isLow
        exact ⟨j + 1, high, rfl, front, isHigh⟩

/-- A pair of surrogates may stand in front. -/
theorem pair (first : isHigh high = true) (second : isLow low = true) (later : WellFormed rest) :
    WellFormed (high :: low :: rest) := by
  have lowNotHigh := not_isHigh_of_isLow second
  have highNotLow : ¬isLow high = true := fun isLow => not_isHigh_of_isLow isLow first
  constructor
  · intro i found present isHigh
    match i with
    | 0 => exact ⟨low, rfl, second⟩
    | 1 =>
        cases present
        exact absurd isHigh lowNotHigh
    | i + 2 => exact later.followed i found present isHigh
  · intro i found present isLow
    match i with
    | 0 =>
        cases present
        exact absurd isLow highNotLow
    | 1 => exact ⟨0, high, rfl, rfl, first⟩
    | i + 2 =>
        obtain ⟨j, front, rfl, before, isHigh⟩ := later.preceded i found present isLow
        exact ⟨j + 2, front, rfl, before, isHigh⟩

/-- The first unit is no low surrogate. -/
theorem not_isLow_head (whole : WellFormed (unit :: rest)) : ¬isLow unit = true := by
  intro isLow
  obtain ⟨j, high, impossible, -⟩ := whole.preceded 0 unit rfl isLow
  cases impossible

/-- What comes after a unit that is no high surrogate is well-formed. -/
theorem of_append (front : List UInt16) (notHigh : ¬isHigh unit = true)
    (whole : WellFormed (front ++ unit :: rest)) : WellFormed rest := by
  have shift : ∀ i, (front ++ unit :: rest)[front.length + (i + 1)]? = rest[i]? := by
    intro i
    rw [List.getElem?_append_right (by omega), Nat.add_sub_cancel_left, List.getElem?_cons_succ]
  constructor
  · intro i high found isHigh
    rw [← shift] at found
    obtain ⟨low, next, isLow⟩ := whole.followed _ high found isHigh
    rw [Nat.add_assoc, shift] at next
    exact ⟨low, next, isLow⟩
  · intro i low found isLow
    rw [← shift] at found
    obtain ⟨j, high, same, front, isHigh⟩ := whole.preceded _ low found isLow
    rw [← Nat.add_assoc, Nat.add_right_cancel_iff] at same
    subst same
    cases i with
    | zero =>
        rw [Nat.add_zero, List.getElem?_append_right (Nat.le_refl _), Nat.sub_self] at front
        cases front
        exact absurd isHigh notHigh
    | succ i =>
        rw [shift] at front
        exact ⟨i, high, rfl, front, isHigh⟩

end WellFormed

/-- The units of a text are well-formed. -/
theorem wellFormed_flatMap_units (text : List Char) : WellFormed (text.flatMap units) := by
  induction text with
  | nil => exact .nil
  | cons c later ih =>
      rw [List.flatMap_cons]
      rcases units_cases c with ⟨-, unit, only, number⟩ | ⟨high, low, both, isPair⟩
      · have plain := not_surrogate_of_toNat_eq number
        rw [only]
        exact ih.cons plain.1 plain.2
      · rw [both]
        exact ih.pair isPair.isHigh isPair.isLow

/-- Units are read as characters exactly when they are well-formed. -/
theorem exists_chars?_iff {input : List UInt16} :
    (∃ text, chars? input = some text) ↔ WellFormed input := by
  constructor
  · rintro ⟨text, read⟩
    rw [chars?_eq_some_iff.mp read]
    exact wellFormed_flatMap_units text
  · have onto : ∀ done, WellFormed input → ∃ text, readOnto done input = some text := by
      intro done wellFormed
      fun_induction readOnto done input with
      | case1 done => exact ⟨_, rfl⟩
      | case2 done high isHigh low rest isLow ih =>
          exact ih (.of_append [high] (not_isHigh_of_isLow isLow) wellFormed)
      | case3 done high isHigh next rest notLow =>
          obtain ⟨low, next, isLow⟩ := wellFormed.followed 0 high rfl isHigh
          cases next
          exact absurd isLow notLow
      | case4 done high isHigh =>
          obtain ⟨low, missing, -⟩ := wellFormed.followed 0 high rfl isHigh
          cases missing
      | case5 done unit rest notHigh isLow => exact absurd isLow wellFormed.not_isLow_head
      | case6 done unit rest notHigh notLow ih =>
          exact ih (.of_append [] notHigh wellFormed)
    exact onto []

end Utf16

namespace ModifiedUtf8

/-- A form of two or three bytes whose unit has a shorter form. -/
def Overlong (form : List UInt8) (unit : UInt16) : Prop :=
  form.length = 2 ∧ 0x0001 ≤ unit ∧ unit ≤ 0x007F ∨ form.length = 3 ∧ unit < 0x0800

/-- Bytes that are forms of some units, one after the other. -/
structure IsSpelling (bytes : List UInt8) (forms : List (List UInt8)) (units : List UInt16) :
    Prop where
  each : List.Forall₂ IsForm forms units
  joined : bytes = forms.flatten

/-- Overlong forms as numbers. -/
theorem overlong_iff {form : List UInt8} {unit : UInt16} :
    Overlong form unit ↔
      form.length = 2 ∧ 1 ≤ unit.toNat ∧ unit.toNat ≤ 0x7F ∨
        form.length = 3 ∧ unit.toNat < 0x800 := by
  simp only [Overlong, UInt16.le_iff_toNat_le, UInt16.lt_iff_toNat_lt, UInt16.reduceToNat]

/-- A unit with a one-byte form is small. -/
theorem toNat_of_oneByte {byte : UInt8} (range : 0x01 ≤ byte ∧ byte ≤ 0x7F) :
    1 ≤ byte.toUInt16.toNat ∧ byte.toUInt16.toNat ≤ 0x7F := by
  simpa [UInt8.le_iff_toNat_le] using range

/-- The number of a unit in its two-byte form. -/
theorem toNat_unitOfTwo (lead low : UInt8) :
    (unitOfTwo lead low).toNat = lead.toNat % 0x20 * 0x40 + low.toNat % 0x40 :=
  toNat_unit (by omega)

/-- The number of a unit in its three-byte form. -/
theorem toNat_unitOfThree (lead middle low : UInt8) :
    (unitOfThree lead middle low).toNat =
      lead.toNat % 0x10 * 0x1000 + middle.toNat % 0x40 * 0x40 + low.toNat % 0x40 :=
  toNat_unit (by omega)

namespace IsForm

variable {form other : List UInt8} {unit : UInt16}

/-- A unit has one form of each length. -/
theorem shape (isForm : IsForm form unit) :
    form.length = 1 ∧ (1 ≤ unit.toNat ∧ unit.toNat ≤ 0x7F) ∧ form = [unit.toUInt8] ∨
      form.length = 2 ∧ unit.toNat < 0x800 ∧ form = twoBytes unit ∨
      form.length = 3 ∧ form = threeBytes unit := by
  cases isForm with
  | one range =>
      refine .inl ⟨rfl, toNat_of_oneByte range, ?_⟩
      simp
  | @two lead low range lowRange =>
      rw [isContinuation_iff] at lowRange
      simp only [UInt8.le_iff_toNat_le, UInt8.reduceToNat] at range
      have number := toNat_unitOfTwo lead low
      have first : 0xC0 + (unitOfTwo lead low).toNat / 0x40 = lead.toNat := by omega
      have second : 0x80 + (unitOfTwo lead low).toNat % 0x40 = low.toNat := by omega
      refine .inr (.inl ⟨rfl, by omega, ?_⟩)
      rw [twoBytes, first, second, UInt8.ofNat_toNat, UInt8.ofNat_toNat]
  | @three lead middle low range middleRange lowRange =>
      rw [isContinuation_iff] at middleRange lowRange
      simp only [UInt8.le_iff_toNat_le, UInt8.reduceToNat] at range
      have number := toNat_unitOfThree lead middle low
      have first : 0xE0 + (unitOfThree lead middle low).toNat / 0x1000 = lead.toNat := by omega
      have second : 0x80 + (unitOfThree lead middle low).toNat / 0x40 % 0x40 = middle.toNat := by
        omega
      have third : 0x80 + (unitOfThree lead middle low).toNat % 0x40 = low.toNat := by omega
      refine .inr (.inr ⟨rfl, ?_⟩)
      rw [threeBytes, first, second, third, UInt8.ofNat_toNat, UInt8.ofNat_toNat,
        UInt8.ofNat_toNat]

/-- The shortest form of a unit is the only one that is not overlong. -/
theorem encodeUnit_eq_of_not_overlong (isForm : IsForm form unit) (short : ¬Overlong form unit) :
    encodeUnit unit = form := by
  rw [overlong_iff] at short
  rw [encodeUnit_eq]
  rcases isForm.shape with ⟨size, range, written⟩ | ⟨size, small, written⟩ | ⟨size, written⟩
  · rw [if_pos (by omega), written]
  · rw [if_neg (by omega), if_pos small, written]
  · rw [if_neg (by omega), if_neg (by omega), written]

end IsForm

/-- Overlong forms are longer than the shortest one. -/
theorem length_encodeUnit_lt_of_overlong {form : List UInt8} {unit : UInt16}
    (overlong : Overlong form unit) : (encodeUnit unit).length < form.length := by
  rw [overlong_iff] at overlong
  rw [encodeUnit_eq]
  rcases overlong with ⟨size, positive, small⟩ | ⟨size, small⟩
  · rw [if_pos (by omega), size]
    simp
  · rw [if_pos small, size]
    split <;> simp [twoBytes]

/-- Forms of which none is overlong are what their units are written in, and any others are
longer. -/
theorem flatMap_encodeUnit_cases {forms : List (List UInt8)} {units : List UInt16}
    (are : List.Forall₂ IsForm forms units) :
    (∀ pair ∈ forms.zip units, ¬Overlong pair.1 pair.2) ∧
        units.flatMap encodeUnit = forms.flatten ∨
      (∃ pair ∈ forms.zip units, Overlong pair.1 pair.2) ∧
        (units.flatMap encodeUnit).length < forms.flatten.length := by
  induction are with
  | nil => exact .inl ⟨by simp, rfl⟩
  | @cons form unit forms units isForm are ih =>
      rw [List.zip_cons_cons, List.flatMap_cons, List.flatten_cons, List.length_append,
        List.length_append, List.forall_mem_cons]
      have first := isForm.length_encodeUnit_le
      have later := length_flatMap_encodeUnit_le are
      by_cases overlong : Overlong form unit
      · have shorter := length_encodeUnit_lt_of_overlong overlong
        exact .inr ⟨⟨(form, unit), List.mem_cons_self, overlong⟩, by omega⟩
      · rcases ih with ⟨none, same⟩ | ⟨⟨pair, held, overlongLater⟩, shorter⟩
        · rw [isForm.encodeUnit_eq_of_not_overlong overlong, same]
          exact .inl ⟨⟨overlong, none⟩, rfl⟩
        · exact .inr ⟨⟨pair, List.mem_cons_of_mem _ held, overlongLater⟩, by omega⟩

/-- Bytes are read as the text whose units they spell. -/
theorem decode_eq_some_iff {bytes : List UInt8} {text : String} :
    decode bytes = some text ↔
      ∃ forms, IsSpelling bytes forms (text.toList.flatMap Utf16.units) := by
  rw [decode, Option.map_eq_some_iff]
  constructor
  · rintro ⟨chars, read, rfl⟩
    obtain ⟨units, readBytes, readChars⟩ := Option.bind_eq_some_iff.mp read
    obtain ⟨forms, each, joined⟩ := units?_eq_some_iff.mp readBytes
    rw [Utf16.chars?_eq_some_iff.mp readChars] at each
    rw [String.toList_ofList]
    exact ⟨forms, each, joined⟩
  · rintro ⟨forms, each, joined⟩
    refine ⟨text.toList, ?_, String.ofList_toList⟩
    rw [units?_eq_some_iff.mpr ⟨forms, each, joined⟩, Option.bind_some,
      Utf16.chars?_flatMap_units]

/-- Bytes spell the units of one text at most. -/
theorem IsSpelling.units_eq {bytes : List UInt8} {forms others : List (List UInt8)}
    {units otherUnits : List UInt16} (spelling : IsSpelling bytes forms units)
    (other : IsSpelling bytes others otherUnits) : units = otherUnits := by
  have read := units?_eq_some_iff.mpr ⟨forms, spelling.each, spelling.joined⟩
  rw [units?_eq_some_iff.mpr ⟨others, other.each, other.joined⟩, Option.some.injEq] at read
  exact read.symm

/-- Bytes are a stored text exactly when they spell well-formed units, and are read as the text
with these units. They are what the text is written in unless one of their forms is overlong, and
are longer than that then. -/
theorem decode_accepts (bytes : List UInt8) :
    ((∃ text, decode bytes = some text) ↔
      ∃ forms units, IsSpelling bytes forms units ∧ Utf16.WellFormed units) ∧
    (∀ text, decode bytes = some text ↔
      ∃ forms units, IsSpelling bytes forms units ∧ text.toList.flatMap Utf16.units = units) ∧
    ∀ text forms units, decode bytes = some text → IsSpelling bytes forms units →
      (encode text = bytes ↔ ∀ pair ∈ forms.zip units, ¬Overlong pair.1 pair.2) ∧
        (encode text ≠ bytes → (encode text).length < bytes.length) := by
  refine ⟨⟨?_, ?_⟩, fun text => ?_, ?_⟩
  · rintro ⟨text, read⟩
    obtain ⟨forms, spelling⟩ := decode_eq_some_iff.mp read
    exact ⟨forms, _, spelling, Utf16.wellFormed_flatMap_units text.toList⟩
  · rintro ⟨forms, units, spelling, wellFormed⟩
    obtain ⟨chars, readChars⟩ := Utf16.exists_chars?_iff.mpr wellFormed
    rw [Utf16.chars?_eq_some_iff.mp readChars, ← String.toList_ofList (l := chars)] at spelling
    exact ⟨String.ofList chars, decode_eq_some_iff.mpr ⟨forms, spelling⟩⟩
  · rw [decode_eq_some_iff]
    simp only [exists_eq_right']
  · intro text forms units read spelling
    obtain ⟨others, ofText⟩ := decode_eq_some_iff.mp read
    rw [encode_eq, ← spelling.units_eq ofText, spelling.joined]
    rcases flatMap_encodeUnit_cases spelling.each with ⟨none, same⟩ | ⟨⟨pair, held, long⟩, shorter⟩
    · exact ⟨⟨fun _ => none, fun _ => same⟩, fun differ => absurd same differ⟩
    · refine ⟨⟨fun same => ?_, fun none => absurd long (none pair held)⟩, fun _ => shorter⟩
      rw [same] at shorter
      exact absurd shorter (Nat.lt_irrefl _)

/-- A letter in two bytes and a pair of surrogates are read, and written in one byte less. -/
theorem decode_accepts_overlong :
    decode [0xC1, 0x81, 0xED, 0xA0, 0xBD, 0xED, 0xB8, 0x80] = some "A😀" ∧
      IsSpelling [0xC1, 0x81, 0xED, 0xA0, 0xBD, 0xED, 0xB8, 0x80]
        [[0xC1, 0x81], [0xED, 0xA0, 0xBD], [0xED, 0xB8, 0x80]] [0x41, 0xD83D, 0xDE00] ∧
      encode "A😀" ≠ [0xC1, 0x81, 0xED, 0xA0, 0xBD, 0xED, 0xB8, 0x80] ∧
      (encode "A😀").length < 8 := by
  have read : decode [0xC1, 0x81, 0xED, 0xA0, 0xBD, 0xED, 0xB8, 0x80] = some "A😀" := by decide
  have spelling : IsSpelling [0xC1, 0x81, 0xED, 0xA0, 0xBD, 0xED, 0xB8, 0x80]
      [[0xC1, 0x81], [0xED, 0xA0, 0xBD], [0xED, 0xB8, 0x80]] [0x41, 0xD83D, 0xDE00] :=
    ⟨.cons (.two (by decide) (by decide)) (.cons (.three (by decide) (by decide) (by decide))
      (.cons (.three (by decide) (by decide) (by decide)) .nil)), rfl⟩
  obtain ⟨-, -, second⟩ := decode_accepts [0xC1, 0x81, 0xED, 0xA0, 0xBD, 0xED, 0xB8, 0x80]
  obtain ⟨canonical, shorter⟩ := second _ _ _ read spelling
  have differ : encode "A😀" ≠ [0xC1, 0x81, 0xED, 0xA0, 0xBD, 0xED, 0xB8, 0x80] := by
    intro same
    exact canonical.mp same ([0xC1, 0x81], 0x41) List.mem_cons_self (.inl (by decide))
  exact ⟨read, spelling, differ, shorter differ⟩

end ModifiedUtf8

end ClassAccess.Text
