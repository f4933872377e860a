import ClassAccess.ClassFile.Codec
import Mathlib.Algebra.Ring.Nat
import Mathlib.Data.List.Induction

/-!
# What readers accept

`Reads` relates a reader to a value that it takes from the front of some bytes
and to the bytes that it leaves. A lawful codec takes exactly the stored forms of
its storable values, whatever follows them. From left to right this law says that
nothing else is accepted, from right to left that stored values are read back.

Numbers are storable without a condition, and lists of storable values up to a
length of 65535. This module fixes no format of its own.
-/

namespace ClassAccess.ClassFile

/-- A reader takes a value from the front of some bytes and leaves the rest. -/
def Reads {α : Type} (reader : Reader α) (input : List UInt8) (value : α)
    (rest : List UInt8) : Prop :=
  reader.run input = .ok (value, rest)

variable {α β : Type} {input rest : List UInt8} {value : α}

/-- Without a step to take, the input is left as it is. -/
@[simp] theorem reads_pure {given : α} :
    Reads (pure given) input value rest ↔ value = given ∧ input = rest := by
  simp only [Reads, StateT.run_pure]
  constructor
  · intro taken
    cases taken
    exact ⟨rfl, rfl⟩
  · rintro ⟨rfl, rfl⟩
    rfl

/-- No value is taken by a reader that fails. -/
@[simp] theorem reads_throw {fault : Fault} :
    ¬ Reads (throw fault) input value rest := by
  intro taken
  cases taken

/-- A reader in two steps leaves to its second step what the first one left. -/
@[simp] theorem reads_bind {reader : Reader β} {next : β → Reader α} :
    Reads (reader >>= next) input value rest ↔
      ∃ first middle, Reads reader input first middle ∧ Reads (next first) middle value rest := by
  simp only [Reads, StateT.run_bind]
  cases ran : reader.run input with
  | error fault => simp [bind, Except.bind]
  | ok taken =>
      obtain ⟨first, middle⟩ := taken
      simp only [bind, Except.bind, Except.ok.injEq, Prod.mk.injEq]
      constructor
      · intro continued
        exact ⟨first, middle, ⟨rfl, rfl⟩, continued⟩
      · rintro ⟨_, _, ⟨rfl, rfl⟩, continued⟩
        exact continued

/-- Applying a function to the value leaves the same bytes. -/
@[simp] theorem reads_map {reader : Reader β} {apply : β → α} :
    Reads (apply <$> reader) input value rest ↔
      ∃ taken, Reads reader input taken rest ∧ value = apply taken := by
  rw [map_eq_pure_bind, reads_bind]
  constructor
  · rintro ⟨taken, middle, first, second⟩
    obtain ⟨rfl, rfl⟩ := reads_pure.mp second
    exact ⟨taken, first, rfl⟩
  · rintro ⟨taken, first, rfl⟩
    exact ⟨taken, rest, first, reads_pure.mpr ⟨rfl, rfl⟩⟩

/-- A function and its argument are read one after the other. -/
@[simp] theorem reads_seq {function : Reader (β → α)} {argument : Reader β} :
    Reads (function <*> argument) input value rest ↔
      ∃ apply middle, Reads function input apply middle ∧
        ∃ taken, Reads argument middle taken rest ∧ value = apply taken := by
  rw [seq_eq_bind_map, reads_bind]
  simp only [reads_map]

/-- Exactly the requested number of bytes is taken. -/
@[simp] theorem reads_readBytes {size : Nat} {bytes : List UInt8} :
    Reads (readBytes size) input bytes rest ↔ bytes.length = size ∧ input = bytes ++ rest := by
  constructor
  · intro taken
    simp only [Reads, StateT.run, readBytes] at taken
    split at taken
    · next enough =>
        cases taken
        exact ⟨enough, (List.take_append_drop size input).symm⟩
    · cases taken
  · rintro ⟨rfl, rfl⟩
    exact readBytes_append bytes rest

/-- A number of some bytes is one of as many digits to the base 256. -/
theorem ofBigEndian_lt (bytes : List UInt8) : ofBigEndian bytes < 256 ^ bytes.length := by
  induction bytes using List.reverseRecOn with
  | nil => simp [ofBigEndian]
  | append_singleton front last ih =>
      have digit := last.toNat_lt
      rw [ofBigEndian_append_singleton, List.length_append, List.length_singleton, Nat.pow_succ]
      omega

/-- The digits of a number that some bytes spell are these bytes. -/
theorem bigEndian_ofBigEndian (bytes : List UInt8) :
    bigEndian bytes.length (ofBigEndian bytes) = bytes := by
  induction bytes using List.reverseRecOn with
  | nil => rfl
  | append_singleton front last ih =>
      have digit := last.toNat_lt
      have high : (ofBigEndian front * 256 + last.toNat) / 256 = ofBigEndian front := by omega
      have low : UInt8.ofNat (ofBigEndian front * 256 + last.toNat) = last := by
        apply UInt8.toNat.inj
        simp only [UInt8.toNat_ofNat']
        omega
      rw [ofBigEndian_append_singleton, List.length_append, List.length_singleton, bigEndian,
        high, low, ih]

/-- A number is spelt by its digits, provided that there are enough of them. -/
theorem ofBigEndian_bigEndian {size number : Nat} (fits : number < 256 ^ size) :
    ofBigEndian (bigEndian size number) = number := by
  induction size generalizing number with
  | zero =>
      have zero : number = 0 := by simpa using fits
      simp [zero, bigEndian, ofBigEndian]
  | succ size ih =>
      have high : number / 256 < 256 ^ size := by
        rw [Nat.pow_succ] at fits
        omega
      rw [bigEndian, ofBigEndian_append_singleton, ih high]
      simp only [UInt8.toNat_ofNat']
      omega

/-- A number is taken by its digits, of which there are as many as requested. -/
theorem reads_readNat {size number : Nat} :
    Reads (readNat size) input number rest ↔
      number < 256 ^ size ∧ input = bigEndian size number ++ rest := by
  simp only [readNat, reads_map, reads_readBytes]
  constructor
  · rintro ⟨bytes, ⟨rfl, rfl⟩, rfl⟩
    exact ⟨ofBigEndian_lt bytes, by rw [bigEndian_ofBigEndian]⟩
  · rintro ⟨fits, rfl⟩
    exact ⟨bigEndian size number, ⟨length_bigEndian size number, rfl⟩,
      (ofBigEndian_bigEndian fits).symm⟩

/-- A codec whose reader takes exactly the stored forms of its storable values. -/
class LawfulCodec (α : Type) [Codec α] where
  Storable : α → Prop
  reads_iff : ∀ {input rest : List UInt8} {value : α},
    Reads read input value rest ↔ Storable value ∧ input = write value ++ rest

export LawfulCodec (Storable)

/-- A lawful codec takes exactly the stored forms of its storable values. -/
@[simp] theorem reads_read [Codec α] [LawfulCodec α] :
    Reads read input value rest ↔ Storable value ∧ input = write value ++ rest :=
  LawfulCodec.reads_iff

/-- A word is taken by the digits of its number, of which there are enough for every word. -/
theorem reads_word {ω : Type} {ofNat : Nat → ω} {toNat : ω → Nat} {size : Nat} {word : ω}
    (ofNat_toNat : ∀ {word}, ofNat (toNat word) = word)
    (toNat_ofNat : ∀ number, number < 256 ^ size → toNat (ofNat number) = number)
    (toNat_lt : ∀ word, toNat word < 256 ^ size) :
    Reads (ofNat <$> readNat size) input word rest ↔
      input = bigEndian size (toNat word) ++ rest := by
  simp only [reads_map, reads_readNat]
  constructor
  · rintro ⟨number, ⟨fits, rfl⟩, rfl⟩
    rw [toNat_ofNat number fits]
  · rintro rfl
    exact ⟨toNat word, ⟨toNat_lt word, rfl⟩, ofNat_toNat.symm⟩

instance : LawfulCodec UInt8 where
  Storable _ := True
  reads_iff := by
    intro input rest word
    rw [true_and]
    exact reads_word UInt8.ofNat_toNat (fun _ fits => UInt8.toNat_ofNat_of_lt' fits)
      UInt8.toNat_lt

instance : LawfulCodec UInt16 where
  Storable _ := True
  reads_iff := by
    intro input rest word
    rw [true_and]
    exact reads_word UInt16.ofNat_toNat (fun _ fits => UInt16.toNat_ofNat_of_lt' fits)
      UInt16.toNat_lt

instance : LawfulCodec UInt32 where
  Storable _ := True
  reads_iff := by
    intro input rest word
    rw [true_and]
    exact reads_word UInt32.ofNat_toNat (fun _ fits => UInt32.toNat_ofNat_of_lt' fits)
      UInt32.toNat_lt

instance : LawfulCodec UInt64 where
  Storable _ := True
  reads_iff := by
    intro input rest word
    rw [true_and]
    exact reads_word UInt64.ofNat_toNat (fun _ fits => UInt64.toNat_ofNat_of_lt' fits)
      UInt64.toNat_lt

/-- A value that is stored as another one is taken as that one is. -/
theorem reads_via [Codec β] [LawfulCodec β] {encode : α → β} {decode : β → α}
    (decode_encode : ∀ value, decode (encode value) = value)
    (encode_decode : ∀ stored, encode (decode stored) = stored) :
    Reads (decode <$> read) input value rest ↔
      Storable (encode value) ∧ input = write (encode value) ++ rest := by
  simp only [reads_map, reads_read]
  constructor
  · rintro ⟨stored, taken, rfl⟩
    rw [encode_decode]
    exact taken
  · intro taken
    exact ⟨encode value, taken, (decode_encode value).symm⟩

instance : LawfulCodec Int32 where
  Storable number := Storable number.toUInt32
  reads_iff := reads_via Int32.toInt32_toUInt32 UInt32.toUInt32_toInt32

instance : LawfulCodec Int64 where
  Storable number := Storable number.toUInt64
  reads_iff := reads_via Int64.toInt64_toUInt64 UInt64.toUInt64_toInt64

/-- Reading several values puts storable ones, as many as requested, behind those read before. -/
theorem reads_readManyOnto [Codec α] [LawfulCodec α] {count : Nat} {done values : List α} :
    Reads (readManyOnto done count) input values rest ↔
      ∃ added, values = done.reverse ++ added ∧ added.length = count ∧
        (∀ value ∈ added, Storable value) ∧ input = added.flatMap write ++ rest := by
  induction count generalizing done input with
  | zero => simp [readManyOnto, eq_comm]
  | succ count ih =>
      simp only [readManyOnto, reads_bind, reads_read, ih]
      constructor
      · rintro ⟨first, _, ⟨storable, rfl⟩, added, rfl, rfl, storables, rfl⟩
        refine ⟨first :: added, by simp, by simp, ?_, by simp⟩
        simpa using ⟨storable, storables⟩
      · rintro ⟨added, rfl, size, storables, rfl⟩
        obtain ⟨first, later, rfl⟩ := List.exists_cons_of_length_eq_add_one size
        rw [List.forall_mem_cons] at storables
        exact ⟨first, later.flatMap write ++ rest, ⟨storables.1, by simp⟩, later, by simp,
          by simpa using size, storables.2, rfl⟩

/-- Lists are storable up to the largest length that two bytes can hold. -/
instance [Codec α] [LawfulCodec α] : LawfulCodec (List α) where
  Storable values := values.length ≤ 65535 ∧ ∀ value ∈ values, Storable value
  reads_iff := by
    intro input rest values
    change Reads (read >>= fun count : UInt16 => readMany count.toNat) input values rest ↔ _
    simp only [readMany, reads_bind, reads_read, reads_readManyOnto, List.reverse_nil,
      List.nil_append]
    constructor
    · rintro ⟨count, _, ⟨-, rfl⟩, added, rfl, size, storables, rfl⟩
      have bound := count.toNat_lt
      refine ⟨⟨by omega, storables⟩, ?_⟩
      change _ = write (UInt16.ofNat values.length) ++ values.flatMap write ++ rest
      rw [size, UInt16.ofNat_toNat, List.append_assoc]
    · rintro ⟨⟨bound, storables⟩, rfl⟩
      refine ⟨UInt16.ofNat values.length, values.flatMap write ++ rest, ⟨trivial, ?_⟩, values, rfl,
        ?_, storables, rfl⟩
      · exact List.append_assoc _ _ _
      · exact (UInt16.toNat_ofNat_of_lt' (Nat.lt_succ_of_le bound)).symm

/-- Reading all of some bytes takes a storable value whose stored form they are. -/
theorem readWhole_eq_ok_iff [Codec α] [LawfulCodec α] {bytes : List UInt8} :
    readWhole bytes = .ok value ↔ Storable value ∧ bytes = write value := by
  have law : Reads read bytes value [] ↔ Storable value ∧ bytes = write value := by
    rw [reads_read, List.append_nil]
  rw [← law, Reads, readWhole]
  cases ran : (read : Reader α).run bytes with
  | error fault => simp
  | ok taken =>
      obtain ⟨first, left⟩ := taken
      cases left with
      | nil => simp
      | cons byte later => simp

end ClassAccess.ClassFile
