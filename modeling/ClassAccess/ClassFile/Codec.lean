import ClassAccess.ClassFile.Fault

/-!
# Binary codecs

A codec is a writer and a reader for one type. Numbers are stored with their most
significant byte first. Lists are stored with their length in front of them, in
two bytes; longer lists are written with the length reduced modulo 2^16.
-/

namespace ClassAccess.ClassFile

/-- Reads from the front of some bytes and leaves the rest. -/
abbrev Reader (α : Type) := StateT (List UInt8) (Except Fault) α

/-- A type with a stored form. -/
class Codec (α : Type) where
  write : α → List UInt8
  read : Reader α

export Codec (write read)

/-- The last `size` bytes of a number, most significant first. -/
def bigEndian : Nat → Nat → List UInt8
  | 0, _ => []
  | size + 1, value => bigEndian size (value / 256) ++ [UInt8.ofNat value]

/-- The number that some bytes are the digits of, most significant first. -/
def ofBigEndian (bytes : List UInt8) : Nat :=
  bytes.foldl (fun value byte => value * 256 + byte.toNat) 0

/-- A number takes the size that it is given. -/
@[simp] theorem length_bigEndian (size value : Nat) : (bigEndian size value).length = size := by
  induction size generalizing value with
  | zero => rfl
  | succ size ih => simp [bigEndian, ih]

/-- The last byte counts once, the bytes before it 256 times. -/
theorem ofBigEndian_append_singleton (bytes : List UInt8) (last : UInt8) :
    ofBigEndian (bytes ++ [last]) = ofBigEndian bytes * 256 + last.toNat := by
  simp [ofBigEndian]

/-- Takes exactly `size` bytes. -/
def readBytes (size : Nat) : Reader (List UInt8) := fun input =>
  let taken := input.take size
  if taken.length = size then .ok (taken, input.drop size) else .error .endOfInput

/-- The bytes in front are taken and the rest is left. -/
theorem readBytes_append (front rest : List UInt8) :
    (readBytes front.length).run (front ++ rest) = .ok (front, rest) := by
  simp [readBytes, StateT.run]

/-- Takes a number of `size` bytes. -/
def readNat (size : Nat) : Reader Nat := ofBigEndian <$> readBytes size

instance : Codec UInt8 where
  write value := bigEndian 1 value.toNat
  read := UInt8.ofNat <$> readNat 1

instance : Codec UInt16 where
  write value := bigEndian 2 value.toNat
  read := UInt16.ofNat <$> readNat 2

instance : Codec UInt32 where
  write value := bigEndian 4 value.toNat
  read := UInt32.ofNat <$> readNat 4

instance : Codec UInt64 where
  write value := bigEndian 8 value.toNat
  read := UInt64.ofNat <$> readNat 8

/-- Signed numbers are stored as the unsigned numbers with the same bits. -/
instance : Codec Int32 where
  write value := write value.toUInt32
  read := UInt32.toInt32 <$> read

instance : Codec Int64 where
  write value := write value.toUInt64
  read := UInt64.toInt64 <$> read

/-- Reads `count` values and puts them behind those already read, which are kept in
reverse. -/
def readManyOnto {α : Type} [Codec α] (done : List α) : Nat → Reader (List α)
  | 0 => pure done.reverse
  | count + 1 => do
      let value ← read
      readManyOnto (value :: done) count

/-- Reads `count` values. -/
def readMany {α : Type} [Codec α] (count : Nat) : Reader (List α) := readManyOnto [] count

instance {α : Type} [Codec α] : Codec (List α) where
  write values := write (UInt16.ofNat values.length) ++ values.flatMap write
  read := do
    let count : UInt16 ← read
    readMany count.toNat

/-- Reads a value that takes up all of some bytes. -/
def readWhole {α : Type} [Codec α] (bytes : List UInt8) : Except Fault α :=
  match (read : Reader α).run bytes with
  | .error fault => .error fault
  | .ok (value, []) => .ok value
  | .ok (_, rest) => .error (.trailingBytes rest.length)

end ClassAccess.ClassFile
