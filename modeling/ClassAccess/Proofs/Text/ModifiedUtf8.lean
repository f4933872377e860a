import ClassAccess.Proofs.Text.Bits
import ClassAccess.Text.ModifiedUtf8
import Mathlib.Data.List.Forall2

/-!
# Stored texts

Every text is read back from the bytes that it is stored as. A form gives its unit
and a character is given by its units, whatever stands in front or behind, so that
neighbouring characters never run together. `IsForm` says which bytes are a form,
and `IsStored` which bytes stand for a character.

Bytes that no text is stored as are not described here.
-/

namespace ClassAccess.Text

/-- A number that fits is not changed by making it a unit. -/
theorem toNat_unit {number : Nat} (fits : number < 0x10000) :
    (UInt16.ofNat number).toNat = number := UInt16.toNat_ofNat_of_lt' fits

/-- A number that fits is not changed by making it a byte. -/
theorem toNat_byte {number : Nat} (fits : number < 0x100) :
    (UInt8.ofNat number).toNat = number := UInt8.toNat_ofNat_of_lt' fits

namespace Utf16

/-- High surrogates as numbers. -/
theorem isHigh_iff {unit : UInt16} :
    isHigh unit = true ↔ 0xD800 ≤ unit.toNat ∧ unit.toNat ≤ 0xDBFF := by
  simp [isHigh, UInt16.le_iff_toNat_le]

/-- Low surrogates as numbers. -/
theorem isLow_iff {unit : UInt16} :
    isLow unit = true ↔ 0xDC00 ≤ unit.toNat ∧ unit.toNat ≤ 0xDFFF := by
  simp [isLow, UInt16.le_iff_toNat_le]

/-- The code point of a character is no surrogate. -/
theorem toNat_valid (c : Char) :
    c.toNat < 0xD800 ∨ 0xDFFF < c.toNat ∧ c.toNat < 0x110000 := c.valid

/-- A high and a low surrogate that stand for a character together. -/
structure IsPair (c : Char) (high low : UInt16) : Prop where
  isHigh : isHigh high = true
  isLow : isLow low = true
  number : c.toNat = 0x10000 + (high.toNat - 0xD800) * 0x400 + (low.toNat - 0xDC00)

/-- The units of a supplementary character are a pair of surrogates. -/
theorem isPair_of_not_lt {c : Char} (supplementary : ¬c.toNat < 0x10000) :
    IsPair c (UInt16.ofNat (0xD800 + (c.toNat - 0x10000) / 0x400))
      (UInt16.ofNat (0xDC00 + (c.toNat - 0x10000) % 0x400)) := by
  have valid := toNat_valid c
  have high := @toNat_unit (0xD800 + (c.toNat - 0x10000) / 0x400) (by omega)
  have low := @toNat_unit (0xDC00 + (c.toNat - 0x10000) % 0x400) (by omega)
  constructor
  · rw [isHigh_iff, high]
    omega
  · rw [isLow_iff, low]
    omega
  · rw [high, low]
    omega

/-- The high surrogate of a character is determined by its number. -/
theorem IsPair.high_eq {c : Char} {high low : UInt16} (isPair : IsPair c high low) :
    high = UInt16.ofNat (0xD800 + (c.toNat - 0x10000) / 0x400) := by
  obtain ⟨first, second, number⟩ := isPair
  rw [isHigh_iff] at first
  rw [isLow_iff] at second
  rw [← UInt16.toNat_inj, toNat_unit (by omega)]
  omega

/-- The low surrogate of a character is determined by its number. -/
theorem IsPair.low_eq {c : Char} {high low : UInt16} (isPair : IsPair c high low) :
    low = UInt16.ofNat (0xDC00 + (c.toNat - 0x10000) % 0x400) := by
  obtain ⟨first, second, number⟩ := isPair
  rw [isHigh_iff] at first
  rw [isLow_iff] at second
  rw [← UInt16.toNat_inj, toNat_unit (by omega)]
  omega

/-- A character is one unit with its number, or else a pair of surrogates. -/
theorem units_cases (c : Char) :
    (c.toNat < 0x10000 ∧ ∃ unit, units c = [unit] ∧ unit.toNat = c.toNat) ∨
      ∃ high low, units c = [high, low] ∧ IsPair c high low := by
  unfold units
  split
  · next single => exact .inl ⟨single, _, rfl, toNat_unit single⟩
  · next double => exact .inr ⟨_, _, rfl, isPair_of_not_lt double⟩

/-- A character is read from its units, whatever follows them. -/
theorem readOnto_units (done : List Char) (c : Char) (rest : List UInt16) :
    readOnto done (units c ++ rest) = readOnto (c :: done) rest := by
  rcases units_cases c with ⟨-, unit, only, number⟩ | ⟨high, low, both, isPair⟩
  · have valid := toNat_valid c
    have notHigh : ¬isHigh unit = true := by
      rw [isHigh_iff]
      omega
    have notLow : ¬isLow unit = true := by
      rw [isLow_iff]
      omega
    rw [only, List.singleton_append, readOnto.eq_def]
    simp only [notHigh, notLow, number, Char.ofNat_toNat]
    rfl
  · have together : pair high low = c := by
      rw [pair, ← isPair.number, Char.ofNat_toNat]
    rw [both, List.cons_append, readOnto.eq_def]
    simp only [isPair.isHigh, isPair.isLow, together, List.singleton_append, if_true]

/-- Characters are read from their units. -/
theorem chars?_flatMap_units (text : List Char) : chars? (text.flatMap units) = some text := by
  have onto : ∀ done, readOnto done (text.flatMap units) = some (done.reverse ++ text) := by
    induction text with
    | nil =>
        intro done
        rw [List.flatMap_nil, readOnto, List.append_nil]
    | cons c later ih =>
        intro done
        rw [List.flatMap_cons, readOnto_units, ih, List.reverse_cons, List.append_assoc,
          List.singleton_append]
  exact onto []

end Utf16

namespace ModifiedUtf8

/-- The two-byte form of a unit. -/
def twoBytes (unit : UInt16) : List UInt8 :=
  [UInt8.ofNat (0xC0 + unit.toNat / 0x40), UInt8.ofNat (0x80 + unit.toNat % 0x40)]

/-- The three-byte form of a unit. -/
def threeBytes (unit : UInt16) : List UInt8 :=
  [UInt8.ofNat (0xE0 + unit.toNat / 0x1000), UInt8.ofNat (0x80 + unit.toNat / 0x40 % 0x40),
   UInt8.ofNat (0x80 + unit.toNat % 0x40)]

/-- The shortest form of a unit. -/
def encodeUnit (unit : UInt16) : List UInt8 :=
  if unit ≠ 0 ∧ unit < 0x80 then [unit.toUInt8]
  else if unit < 0x800 then twoBytes unit
  else threeBytes unit

/-- The bytes that are a form of a unit, be it the shortest one or not. -/
inductive IsForm : List UInt8 → UInt16 → Prop where
  | one {byte : UInt8} (range : 0x01 ≤ byte ∧ byte ≤ 0x7F) : IsForm [byte] byte.toUInt16
  | two {lead low : UInt8} (range : 0xC0 ≤ lead ∧ lead ≤ 0xDF)
      (lowRange : isContinuation low = true) : IsForm [lead, low] (unitOfTwo lead low)
  | three {lead middle low : UInt8} (range : 0xE0 ≤ lead ∧ lead ≤ 0xEF)
      (middleRange : isContinuation middle = true) (lowRange : isContinuation low = true) :
      IsForm [lead, middle, low] (unitOfThree lead middle low)

/-- The unit of a form is read, whatever follows the form. -/
theorem IsForm.unitsOnto_append {form : List UInt8} {unit : UInt16} (isForm : IsForm form unit)
    (done : List UInt16) (rest : List UInt8) :
    unitsOnto done (form ++ rest) = unitsOnto (unit :: done) rest := by
  cases isForm with
  | one range =>
      rw [List.singleton_append, unitsOnto.eq_def]
      simp only [range, and_self, if_true]
  | @two lead low range lowRange =>
      have notOne : ¬(0x01 ≤ lead ∧ lead ≤ 0x7F) := by
        simp only [UInt8.le_iff_toNat_le, UInt8.reduceToNat] at range ⊢
        omega
      rw [List.cons_append, unitsOnto.eq_def]
      simp only [notOne, range, lowRange, and_self, if_true, if_false, List.singleton_append]
  | @three lead middle low range middleRange lowRange =>
      have notOne : ¬(0x01 ≤ lead ∧ lead ≤ 0x7F) := by
        simp only [UInt8.le_iff_toNat_le, UInt8.reduceToNat] at range ⊢
        omega
      have notTwo : ¬(0xC0 ≤ lead ∧ lead ≤ 0xDF) := by
        simp only [UInt8.le_iff_toNat_le, UInt8.reduceToNat] at range ⊢
        omega
      rw [List.cons_append, unitsOnto.eq_def]
      simp only [notOne, notTwo, range, middleRange, lowRange, and_self, if_true, if_false,
        List.cons_append, List.nil_append, Bool.and_self]

/-- Continuations as numbers. -/
theorem isContinuation_iff {byte : UInt8} :
    isContinuation byte = true ↔ 0x80 ≤ byte.toNat ∧ byte.toNat ≤ 0xBF := by
  simp [isContinuation, UInt8.le_iff_toNat_le]

/-- No byte of a form is zero, and none starts a form of more than three bytes. -/
theorem IsForm.range {form : List UInt8} {unit : UInt16} (isForm : IsForm form unit) :
    ∀ byte ∈ form, byte ≠ 0 ∧ byte < 0xF0 := by
  intro byte held
  have inside : 0 < byte.toNat ∧ byte.toNat < 0xF0 := by
    cases isForm with
    | one range =>
        simp only [UInt8.le_iff_toNat_le, UInt8.reduceToNat] at range
        rw [List.mem_singleton] at held
        subst held
        omega
    | two range lowRange =>
        simp only [UInt8.le_iff_toNat_le, UInt8.reduceToNat] at range
        rw [isContinuation_iff] at lowRange
        simp only [List.mem_cons, List.not_mem_nil, or_false] at held
        rcases held with rfl | rfl <;> omega
    | three range middleRange lowRange =>
        simp only [UInt8.le_iff_toNat_le, UInt8.reduceToNat] at range
        rw [isContinuation_iff] at middleRange lowRange
        simp only [List.mem_cons, List.not_mem_nil, or_false] at held
        rcases held with rfl | rfl | rfl <;> omega
  refine ⟨?_, UInt8.lt_iff_toNat_lt.mpr inside.2⟩
  rintro rfl
  cases inside.1

/-- The one-byte form of a small unit other than zero. -/
theorem isForm_oneByte {unit : UInt16} (positive : 0 < unit.toNat) (small : unit.toNat < 0x80) :
    IsForm [unit.toUInt8] unit := by
  have number : unit.toUInt8.toNat = unit.toNat := by
    rw [UInt16.toNat_toUInt8]
    omega
  have same : unit.toUInt8.toUInt16 = unit := by
    rw [← UInt16.toNat_inj, UInt8.toNat_toUInt16, number]
  have range : 0x01 ≤ unit.toUInt8 ∧ unit.toUInt8 ≤ 0x7F := by
    simp only [UInt8.le_iff_toNat_le, UInt8.reduceToNat, number]
    omega
  have form := IsForm.one range
  rwa [same] at form

/-- The two-byte form of a unit below U+0800. -/
theorem isForm_twoBytes {unit : UInt16} (small : unit.toNat < 0x800) :
    IsForm (twoBytes unit) unit := by
  have leadNumber := @toNat_byte (0xC0 + unit.toNat / 0x40) (by omega)
  have lowNumber := @toNat_byte (0x80 + unit.toNat % 0x40) (by omega)
  unfold twoBytes
  generalize UInt8.ofNat (0xC0 + unit.toNat / 0x40) = lead at leadNumber
  generalize UInt8.ofNat (0x80 + unit.toNat % 0x40) = low at lowNumber
  have range : 0xC0 ≤ lead ∧ lead ≤ 0xDF := by
    simp only [UInt8.le_iff_toNat_le, UInt8.reduceToNat, leadNumber]
    omega
  have lowRange : isContinuation low = true := by
    rw [isContinuation_iff, lowNumber]
    omega
  have same : unitOfTwo lead low = unit := by
    rw [← UInt16.toNat_inj, unitOfTwo, toNat_unit (by omega), leadNumber, lowNumber]
    omega
  have form := IsForm.two range lowRange
  rwa [same] at form

/-- The three-byte form of a unit. -/
theorem isForm_threeBytes (unit : UInt16) : IsForm (threeBytes unit) unit := by
  have bound := unit.toNat_lt
  have leadNumber := @toNat_byte (0xE0 + unit.toNat / 0x1000) (by omega)
  have middleNumber := @toNat_byte (0x80 + unit.toNat / 0x40 % 0x40) (by omega)
  have lowNumber := @toNat_byte (0x80 + unit.toNat % 0x40) (by omega)
  unfold threeBytes
  generalize UInt8.ofNat (0xE0 + unit.toNat / 0x1000) = lead at leadNumber
  generalize UInt8.ofNat (0x80 + unit.toNat / 0x40 % 0x40) = middle at middleNumber
  generalize UInt8.ofNat (0x80 + unit.toNat % 0x40) = low at lowNumber
  have range : 0xE0 ≤ lead ∧ lead ≤ 0xEF := by
    simp only [UInt8.le_iff_toNat_le, UInt8.reduceToNat, leadNumber]
    omega
  have middleRange : isContinuation middle = true := by
    rw [isContinuation_iff, middleNumber]
    omega
  have lowRange : isContinuation low = true := by
    rw [isContinuation_iff, lowNumber]
    omega
  have same : unitOfThree lead middle low = unit := by
    rw [← UInt16.toNat_inj, unitOfThree, toNat_unit (by omega), leadNumber, middleNumber,
      lowNumber]
    omega
  have form := IsForm.three range middleRange lowRange
  rwa [same] at form

/-- The shortest form of a unit goes by its number. -/
theorem encodeUnit_eq (unit : UInt16) :
    encodeUnit unit =
      if 0 < unit.toNat ∧ unit.toNat < 0x80 then [unit.toUInt8]
      else if unit.toNat < 0x800 then twoBytes unit
      else threeBytes unit := by
  have positive : unit ≠ 0 ↔ 0 < unit.toNat := by
    rw [ne_eq, ← UInt16.toNat_inj, Nat.pos_iff_ne_zero]
    rfl
  simp only [encodeUnit, positive, UInt16.lt_iff_toNat_lt]
  rfl

/-- The shortest form of a unit is one of its forms. -/
theorem isForm_encodeUnit (unit : UInt16) : IsForm (encodeUnit unit) unit := by
  rw [encodeUnit_eq]
  split
  · next range => exact isForm_oneByte range.1 range.2
  · split
    · next small => exact isForm_twoBytes small
    · exact isForm_threeBytes unit

/-- Units are read from their shortest forms. -/
theorem units?_flatMap_encodeUnit (units : List UInt16) :
    units? (units.flatMap encodeUnit) = some units := by
  have onto : ∀ done, unitsOnto done (units.flatMap encodeUnit) = some (done.reverse ++ units) := by
    induction units with
    | nil =>
        intro done
        rw [List.flatMap_nil, unitsOnto, List.append_nil]
    | cons unit later ih =>
        intro done
        rw [List.flatMap_cons, (isForm_encodeUnit unit).unitsOnto_append, ih, List.reverse_cons,
          List.append_assoc, List.singleton_append]
  exact onto []

/-- The upper bits of a character. -/
theorem toNat_shifted (c : Char) (amount : UInt32) :
    (c.val >>> amount).toNat = c.toNat / 2 ^ (amount.toNat % 32) := by
  rw [UInt32.toNat_shiftRight, Nat.shiftRight_eq_div_pow]
  rfl

/-- The number of bytes goes by the number of the character. -/
theorem byteCount_eq (c : Char) : byteCount c =
    if 0 < c.toNat ∧ c.toNat < 0x80 then 1 else if c.toNat < 0x800 then 2
    else if c.toNat < 0x10000 then 3 else 4 := by
  have zero : c = '\x00' ↔ c.toNat = 0 := by
    rw [← Char.toNat_inj]
    rfl
  have size : c.utf8Size = if c.toNat ≤ 0x7F then 1 else if c.toNat ≤ 0x7FF then 2
      else if c.toNat ≤ 0xFFFF then 3 else 4 := rfl
  rw [byteCount, size]
  simp only [zero]
  grind

/-- A character of one byte is its number. -/
theorem encodeChar_of_one {c : Char} (positive : 0 < c.toNat) (small : c.toNat < 0x80) :
    encodeChar c = [UInt8.ofNat c.toNat] := by
  have count : byteCount c = 1 := by rw [byteCount_eq, if_pos ⟨positive, small⟩]
  have code : c.val.toUInt8 = UInt8.ofNat c.toNat := by
    rw [← UInt8.toNat_inj, UInt32.toNat_toUInt8, UInt8.toNat_ofNat']
    rfl
  rw [encodeChar, count]
  change [c.val.toUInt8] = _
  rw [code]

/-- The null character and those of two bytes take the two-byte form of their number. -/
theorem encodeChar_of_two {c : Char} (large : c.toNat = 0 ∨ 0x80 ≤ c.toNat)
    (small : c.toNat < 0x800) : encodeChar c = twoBytes (UInt16.ofNat c.toNat) := by
  have count : byteCount c = 2 := by rw [byteCount_eq, if_neg (by omega), if_pos small]
  have upper : (c.val >>> 6).toNat % 2 ^ 5 = c.toNat / 0x40 := by
    rw [toNat_shifted]
    change c.toNat / 0x40 % 0x20 = _
    omega
  rw [encodeChar, count, twoBytes, toNat_unit (by omega)]
  change [(c.val >>> 6 &&& 0x1F).toUInt8 ||| 0xC0, (c.val &&& 0x3F).toUInt8 ||| 0x80] = _
  rw [masked_or_mark _ 5 rfl (by decide) (by decide), masked_or_mark _ 6 rfl (by decide) (by decide),
    upper]
  rfl

/-- Characters of three bytes take the three-byte form of their number. -/
theorem encodeChar_of_three {c : Char} (large : 0x800 ≤ c.toNat) (small : c.toNat < 0x10000) :
    encodeChar c = threeBytes (UInt16.ofNat c.toNat) := by
  have count : byteCount c = 3 := by
    rw [byteCount_eq, if_neg (by omega), if_neg (by omega), if_pos small]
  have upper : (c.val >>> 12).toNat % 2 ^ 4 = c.toNat / 0x1000 := by
    rw [toNat_shifted]
    change c.toNat / 0x1000 % 0x10 = _
    omega
  have middle : (c.val >>> 6).toNat % 2 ^ 6 = c.toNat / 0x40 % 0x40 := by
    rw [toNat_shifted]
    rfl
  rw [encodeChar, count, threeBytes, toNat_unit small]
  change [(c.val >>> 12 &&& 0x0F).toUInt8 ||| 0xE0, (c.val >>> 6 &&& 0x3F).toUInt8 ||| 0x80,
    (c.val &&& 0x3F).toUInt8 ||| 0x80] = _
  rw [masked_or_mark _ 4 rfl (by decide) (by decide), masked_or_mark _ 6 rfl (by decide) (by decide),
    masked_or_mark _ 6 rfl (by decide) (by decide), upper, middle]
  rfl

/-- The three-byte form of the high surrogate of a supplementary character. -/
theorem threeBytes_high {offset : Nat} (inside : offset < 0x100000) :
    threeBytes (UInt16.ofNat (0xD800 + offset / 0x400)) =
      [0xED, UInt8.ofNat (0xA0 + offset / 0x10000), UInt8.ofNat (0x80 + offset / 0x400 % 0x40)] := by
  have lead : 0xE0 + (0xD800 + offset / 0x400) / 0x1000 = 0xED := by omega
  have middle : 0x80 + (0xD800 + offset / 0x400) / 0x40 % 0x40 = 0xA0 + offset / 0x10000 := by omega
  have last : (0xD800 + offset / 0x400) % 0x40 = offset / 0x400 % 0x40 := by omega
  rw [threeBytes, toNat_unit (by omega), lead, middle, last]
  rfl

/-- The three-byte form of the low surrogate of a supplementary character. -/
theorem threeBytes_low (offset : Nat) :
    threeBytes (UInt16.ofNat (0xDC00 + offset % 0x400)) =
      [0xED, UInt8.ofNat (0xB0 + offset / 0x40 % 0x10), UInt8.ofNat (0x80 + offset % 0x40)] := by
  have lead : 0xE0 + (0xDC00 + offset % 0x400) / 0x1000 = 0xED := by omega
  have middle : 0x80 + (0xDC00 + offset % 0x400) / 0x40 % 0x40 = 0xB0 + offset / 0x40 % 0x10 := by
    omega
  have last : (0xDC00 + offset % 0x400) % 0x40 = offset % 0x40 := by omega
  rw [threeBytes, toNat_unit (by omega), lead, middle, last]
  rfl

/-- The four uppermost bits of a supplementary character less one, in which borrowing leaves out the
bits above. -/
theorem plane_eq {c : Char} (supplementary : 0x10000 ≤ c.toNat) :
    ((c.val >>> 16 &&& 0x0F).toUInt8 - 1 &&& 0x0F ||| 0xA0) =
      UInt8.ofNat (0xA0 + (c.toNat - 0x10000) / 0x10000) := by
  have valid := Utf16.toNat_valid c
  have upper : (c.val >>> 16 &&& 0x0F).toUInt8.toNat = c.toNat / 0x10000 % 0x10 := by
    rw [toNat_masked _ 4 rfl (by decide), toNat_shifted]
    rfl
  have fifteen : (0x0F : UInt8).toNat = 2 ^ 4 - 1 := rfl
  have plane : ((c.val >>> 16 &&& 0x0F).toUInt8 - 1 &&& 0x0F).toNat =
      (c.toNat - 0x10000) / 0x10000 := by
    rw [UInt8.toNat_and, UInt8.toNat_sub, upper, fifteen, Nat.and_two_pow_sub_one_eq_mod]
    change (0x100 - 1 + c.toNat / 0x10000 % 0x10) % 0x100 % 0x10 = _
    omega
  rw [or_mark 4 (by omega) (by decide), plane]
  rfl

/-- Supplementary characters take the three-byte forms of their surrogates. The upper one holds the
number less 0x10000, which takes one from its four uppermost bits. -/
theorem encodeChar_of_six {c : Char} (supplementary : 0x10000 ≤ c.toNat) :
    encodeChar c = threeBytes (UInt16.ofNat (0xD800 + (c.toNat - 0x10000) / 0x400)) ++
      threeBytes (UInt16.ofNat (0xDC00 + (c.toNat - 0x10000) % 0x400)) := by
  have valid := Utf16.toNat_valid c
  have count : byteCount c = 4 := by
    rw [byteCount_eq, if_neg (by omega), if_neg (by omega), if_neg (by omega)]
  have third : (c.val >>> 10).toNat % 2 ^ 6 = (c.toNat - 0x10000) / 0x400 % 0x40 := by
    rw [toNat_shifted]
    change c.toNat / 0x400 % 0x40 = _
    omega
  have fifth : (c.val >>> 6).toNat % 2 ^ 4 = (c.toNat - 0x10000) / 0x40 % 0x10 := by
    rw [toNat_shifted]
    change c.toNat / 0x40 % 0x10 = _
    omega
  have last : c.val.toNat % 2 ^ 6 = (c.toNat - 0x10000) % 0x40 := by
    change c.toNat % 0x40 = _
    omega
  rw [encodeChar, count, threeBytes_high (by omega), threeBytes_low]
  change ([0xED, (c.val >>> 16 &&& 0x0F).toUInt8 - 1 &&& 0x0F ||| 0xA0,
    (c.val >>> 10 &&& 0x3F).toUInt8 ||| 0x80, 0xED, (c.val >>> 6 &&& 0x0F).toUInt8 ||| 0xB0,
    (c.val &&& 0x3F).toUInt8 ||| 0x80] : List UInt8) = _
  rw [plane_eq supplementary, masked_or_mark (c.val >>> 10) 6 rfl (by decide) (by decide),
    masked_or_mark (c.val >>> 6) 4 rfl (by decide) (by decide),
    masked_or_mark c.val 6 rfl (by decide) (by decide), third, fifth, last]
  rfl

/-- The bytes that a character is stored as. -/
inductive IsStored : Char → List UInt8 → Prop where
  | zero : IsStored (Char.ofNat 0) [0xC0, 0x80]
  | one {c : Char} (positive : 0 < c.toNat) (small : c.toNat < 0x80) :
      IsStored c [UInt8.ofNat c.toNat]
  | two {c : Char} (large : 0x80 ≤ c.toNat) (small : c.toNat < 0x800) :
      IsStored c (twoBytes (UInt16.ofNat c.toNat))
  | three {c : Char} (large : 0x800 ≤ c.toNat) (small : c.toNat < 0x10000) :
      IsStored c (threeBytes (UInt16.ofNat c.toNat))
  | six {c : Char} {high low : UInt16} (supplementary : 0x10000 ≤ c.toNat)
      (isPair : Utf16.IsPair c high low) : IsStored c (threeBytes high ++ threeBytes low)

/-- A single unit is stored by the size of its number. -/
theorem isStored_encodeUnit {c : Char} (single : c.toNat < 0x10000) :
    IsStored c (encodeUnit (UInt16.ofNat c.toNat)) := by
  rw [encodeUnit_eq, toNat_unit single]
  split
  · next small =>
      have byte : (UInt16.ofNat c.toNat).toUInt8 = UInt8.ofNat c.toNat := by
        rw [← UInt8.toNat_inj, UInt16.toNat_toUInt8, toNat_unit single, UInt8.toNat_ofNat']
      rw [byte]
      exact .one small.1 small.2
  · next notSmall =>
      split
      · next middle =>
          by_cases null : c.toNat = 0
          · have zero : c = Char.ofNat 0 := by rw [← null, Char.ofNat_toNat]
            rw [zero]
            exact .zero
          · exact .two (by omega) middle
      · next large => exact .three (by omega) single

/-- A surrogate is stored in three bytes. -/
theorem encodeUnit_of_le {unit : UInt16} (large : 0x800 ≤ unit.toNat) :
    encodeUnit unit = threeBytes unit := by
  rw [encodeUnit_eq, if_neg (by omega), if_neg (by omega)]

/-- A character is stored as the forms of its units. -/
theorem isStored_units (c : Char) : IsStored c ((Utf16.units c).flatMap encodeUnit) := by
  rcases Utf16.units_cases c with ⟨single, unit, only, number⟩ | ⟨high, low, both, isPair⟩
  · have same : unit = UInt16.ofNat c.toNat := by rw [← number, UInt16.ofNat_toNat]
    rw [only, List.flatMap_singleton, same]
    exact isStored_encodeUnit single
  · have highRange := Utf16.isHigh_iff.mp isPair.isHigh
    have lowRange := Utf16.isLow_iff.mp isPair.isLow
    rw [both, List.flatMap_cons, List.flatMap_singleton, encodeUnit_of_le (by omega),
      encodeUnit_of_le (by omega)]
    exact .six (by rw [isPair.number]; omega) isPair

/-- Bytes that a character is stored as are those written for it. -/
theorem IsStored.eq_encodeChar {c : Char} {bytes : List UInt8} (stored : IsStored c bytes) :
    bytes = encodeChar c := by
  cases stored with
  | zero => decide
  | one positive small => exact (encodeChar_of_one positive small).symm
  | two large small => exact (encodeChar_of_two (.inr large) small).symm
  | three large small => exact (encodeChar_of_three large small).symm
  | six supplementary isPair =>
      rw [encodeChar_of_six supplementary, ← isPair.high_eq, ← isPair.low_eq]

/-- A character is written as the shortest forms of its units. -/
theorem encodeChar_eq (c : Char) : encodeChar c = (Utf16.units c).flatMap encodeUnit :=
  (isStored_units c).eq_encodeChar.symm

/-- A text is stored as the shortest forms of its units. -/
theorem encode_eq (text : String) :
    encode text = (text.toList.flatMap Utf16.units).flatMap encodeUnit := by
  rw [encode, List.flatMap_assoc, funext encodeChar_eq]

/-- A stored text is read back. -/
theorem decode_encode (text : String) : decode (encode text) = some text := by
  rw [decode, encode_eq, units?_flatMap_encodeUnit, Option.bind_some, Utf16.chars?_flatMap_units,
    Option.map_some, String.ofList_toList]

/-- A stored text is read back. None of its bytes is zero or starts a form of four bytes, and
it is made up of what its characters are stored as. -/
theorem decode_encode_stored (text : String) :
    decode (encode text) = some text ∧
      (∀ byte ∈ encode text, byte ≠ 0 ∧ byte < 0xF0) ∧
      ∃ forms, List.Forall₂ IsStored text.toList forms ∧ encode text = forms.flatten := by
  refine ⟨decode_encode text, fun byte held => ?_, ?_⟩
  · rw [encode_eq] at held
    obtain ⟨unit, -, within⟩ := List.mem_flatMap.mp held
    exact (isForm_encodeUnit unit).range byte within
  · refine ⟨text.toList.map encodeChar, ?_, ?_⟩
    · rw [List.forall₂_map_right_iff, List.forall₂_same]
      exact fun c _ => encodeChar_eq c ▸ isStored_units c
    · rw [encode, List.flatMap_def]

/-- Characters of every size: the null character, then one, two, three and six bytes. -/
example : encode "\x00aé€😀" =
    [0xC0, 0x80, 0x61, 0xC3, 0xA9, 0xE2, 0x82, 0xAC, 0xED, 0xA0, 0xBD, 0xED, 0xB8, 0x80] := by
  decide

end ModifiedUtf8

end ClassAccess.Text
