import ClassAccess.Proofs.Text.Utf8
import Mathlib.Data.String.Basic

/-!
# Texts in the order of their bytes

A character is stored as a first byte, which also tells how many others there are, and
then the last digits of its number to the base 64. A larger character therefore has
larger bytes, whatever comes behind it. Texts that are in the order of their characters
are in the order of their bytes, and no two texts have the same bytes.
-/

namespace ClassAccess.Text

/-- The last digits of a number to the base 64, each in a byte behind the first one. -/
def continuation : Nat → Nat → List UInt8
  | 0, _ => []
  | digits + 1, number =>
      UInt8.ofNat (number / 64 ^ digits % 64 + 128) :: continuation digits number

/-- A byte is smaller than another one when its number is, which is small enough for a byte. -/
theorem ofNat_lt_ofNat {first second : Nat} (smaller : first < second) (fits : second < 256) :
    UInt8.ofNat first < UInt8.ofNat second := by
  rw [UInt8.lt_iff_toNat_lt, UInt8.toNat_ofNat_of_lt' fits,
    UInt8.toNat_ofNat_of_lt' (smaller.trans fits)]
  exact smaller

/-- Of two numbers that differ in their last digits only, the smaller one has the smaller bytes,
whatever comes behind them. -/
theorem continuation_append_lt {digits first second : Nat} (smaller : first < second)
    (same : first / 64 ^ digits = second / 64 ^ digits) (rest other : List UInt8) :
    continuation digits first ++ rest < continuation digits second ++ other := by
  induction digits with
  | zero =>
      rw [Nat.pow_zero, Nat.div_one, Nat.div_one] at same
      exact absurd same smaller.ne
  | succ digits ih =>
      rw [Nat.pow_succ, ← Nat.div_div_eq_div_mul, ← Nat.div_div_eq_div_mul] at same
      have inOrder : first / 64 ^ digits ≤ second / 64 ^ digits :=
        Nat.div_le_div_right smaller.le
      rw [continuation, continuation, List.cons_append, List.cons_append, List.cons_lt_cons_iff]
      rcases inOrder.lt_or_eq with less | equal
      · exact .inl (ofNat_lt_ofNat (by omega) (by omega))
      · exact .inr ⟨by rw [equal], ih equal⟩

/-- The first byte for a number of a character, and how many others there are. -/
inductive Leads (number : Nat) : Nat → Nat → Prop where
  | one (small : number < 128) : Leads number number 0
  | two (large : 128 ≤ number) (small : number < 2048) : Leads number (number / 64 + 192) 1
  | three (large : 2048 ≤ number) (small : number < 65536) : Leads number (number / 4096 + 224) 2
  | four (large : 65536 ≤ number) (small : number < 1114112) :
      Leads number (number / 262144 + 240) 3

/-- A character is stored as its first byte and its last digits. -/
theorem exists_leads (c : Char) : ∃ lead digits, Leads c.val.toNat lead digits ∧
    String.utf8EncodeChar c = UInt8.ofNat lead :: continuation digits c.val.toNat := by
  have bound : c.val.toNat < 1114112 := by
    rcases c.valid with low | ⟨-, high⟩
    · exact Nat.lt_trans low (by decide)
    · exact high
  rw [String.utf8EncodeChar]
  generalize c.val.toNat = number at *
  split
  · exact ⟨_, _, .one (by omega), rfl⟩
  split
  · refine ⟨_, _, .two (by omega) (by omega), ?_⟩
    rw [Nat.mod_eq_of_lt (by omega : number / 64 < 32)]
    simp [continuation]
  split
  · refine ⟨_, _, .three (by omega) (by omega), ?_⟩
    rw [Nat.mod_eq_of_lt (by omega : number / 4096 < 16)]
    simp [continuation]
  · refine ⟨_, _, .four (by omega) (by omega), ?_⟩
    rw [Nat.mod_eq_of_lt (by omega : number / 262144 < 8)]
    simp [continuation]

/-- A first byte fits into a byte. -/
theorem Leads.lt {number lead digits : Nat} (leads : Leads number lead digits) : lead < 256 := by
  cases leads <;> omega

/-- Of two numbers the smaller one has the smaller first byte, or they differ in the digits behind it
only. -/
theorem Leads.lt_or_same {first second lead other digits more : Nat} (smaller : first < second)
    (leads : Leads first lead digits) (leadsToo : Leads second other more) :
    lead < other ∨ lead = other ∧ digits = more ∧ first / 64 ^ digits = second / 64 ^ digits := by
  cases leads <;> cases leadsToo <;> simp only [Nat.reducePow, true_and] <;> omega

/-- Of two characters the smaller one has the smaller bytes, whatever comes behind them. -/
theorem utf8EncodeChar_append_lt {c d : Char} (smaller : c < d) (rest other : List UInt8) :
    String.utf8EncodeChar c ++ rest < String.utf8EncodeChar d ++ other := by
  obtain ⟨lead, digits, leads, stored⟩ := exists_leads c
  obtain ⟨leadToo, digitsToo, leadsToo, storedToo⟩ := exists_leads d
  rw [stored, storedToo, List.cons_append, List.cons_append, List.cons_lt_cons_iff]
  rcases leads.lt_or_same smaller leadsToo with less | ⟨rfl, rfl, same⟩
  · exact .inl (ofNat_lt_ofNat less leadsToo.lt)
  · exact .inr ⟨rfl, continuation_append_lt smaller same rest other⟩

/-- Lists of characters are in the order of their bytes. -/
theorem flatMap_utf8EncodeChar_lt {first second : List Char} (smaller : first < second) :
    first.flatMap String.utf8EncodeChar < second.flatMap String.utf8EncodeChar := by
  induction first generalizing second with
  | nil =>
      obtain _ | ⟨c, later⟩ := second
      · exact absurd smaller (List.not_lt_nil [])
      · cases bytes : String.utf8EncodeChar c with
        | nil => exact absurd bytes (String.utf8EncodeChar_ne_nil)
        | cons byte rest =>
            rw [List.flatMap_cons, bytes]
            exact List.nil_lt_cons _ _
  | cons c later ih =>
      obtain _ | ⟨d, other⟩ := second
      · exact absurd smaller (List.not_lt_nil _)
      · rw [List.flatMap_cons, List.flatMap_cons]
        rcases List.cons_lt_cons_iff.mp smaller with less | ⟨rfl, behind⟩
        · exact utf8EncodeChar_append_lt less _ _
        · exact List.append_left_lt (ih behind)

/-- Texts are in the order of their bytes. -/
theorem toUtf8_lt {first second : String} (smaller : first < second) :
    toUtf8 first < toUtf8 second := by
  rw [toUtf8_eq, toUtf8_eq]
  exact flatMap_utf8EncodeChar_lt (String.lt_iff_toList_lt.mp smaller)

/-- Texts with the same bytes are the same. -/
theorem toUtf8_injective : Function.Injective toUtf8 := by
  intro first second same
  rcases lt_trichotomy first second with less | equal | greater
  · exact absurd (same ▸ toUtf8_lt less) (List.lt_irrefl _)
  · exact equal
  · exact absurd (same ▸ toUtf8_lt greater) (List.lt_irrefl _)

end ClassAccess.Text
