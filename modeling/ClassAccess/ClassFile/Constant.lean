import ClassAccess.ClassFile.Codec
import ClassAccess.SlotTable

/-!
# Constants

The constants of a class file are kept as they are stored: texts as their bytes,
floating-point numbers as their bits, references as slots of the pool. Writing a
constant that was read gives back its bytes.
-/

namespace ClassAccess.ClassFile

/-- What a method handle does. -/
inductive HandleKind where
  | getField
  | getStatic
  | putField
  | putStatic
  | invokeVirtual
  | invokeStatic
  | invokeSpecial
  | newInvokeSpecial
  | invokeInterface
deriving DecidableEq, Repr

namespace HandleKind

/-- Every kind, in the order of their codes. -/
def all : List HandleKind :=
  [getField, getStatic, putField, putStatic, invokeVirtual, invokeStatic, invokeSpecial,
   newInvokeSpecial, invokeInterface]

/-- The stored code of a kind. -/
def code : HandleKind → UInt8
  | getField => 1
  | getStatic => 2
  | putField => 3
  | putStatic => 4
  | invokeVirtual => 5
  | invokeStatic => 6
  | invokeSpecial => 7
  | newInvokeSpecial => 8
  | invokeInterface => 9

/-- The kind with a code. -/
def ofCode? (code : UInt8) : Option HandleKind :=
  all.find? fun kind => kind.code == code

/-- Codes stand for their kinds. -/
@[simp] theorem ofCode?_code (kind : HandleKind) : ofCode? kind.code = some kind := by
  cases kind <;> decide

instance : Codec HandleKind where
  write kind := write kind.code
  read := do
    let code ← read
    match ofCode? code with
    | some kind => return kind
    | none => throw (.badHandleKind code)

end HandleKind

/-- A constant of a class file. Slots of the pool are given as they are stored, whether or not
they hold what they should. -/
inductive Constant where
  | text (bytes : List UInt8)
  | integer (value : Int32)
  | float (bits : UInt32)
  | long (value : Int64)
  | double (bits : UInt64)
  | classRef (name : UInt16)
  | string (text : UInt16)
  | fieldRef (owner member : UInt16)
  | methodRef (owner member : UInt16) (ofInterface : Bool)
  | nameAndType (name descriptor : UInt16)
  | methodHandle (kind : HandleKind) (target : UInt16)
  | methodType (descriptor : UInt16)
  | dynamic (bootstrap member : UInt16)
  | invokeDynamic (bootstrap member : UInt16)
  | moduleName (name : UInt16)
  | packageName (name : UInt16)
deriving DecidableEq, Repr

namespace Constant

/-- Numbers of eight bytes occupy two slots, all other constants one. -/
instance : Width Constant where
  width
    | long _ => 2
    | double _ => 2
    | _ => 1

/-- Every constant occupies a slot. -/
theorem width_pos (constant : Constant) : 0 < width constant := by
  cases constant <;> simp [width]

/-- The stored form of a constant: its tag and then its parts. -/
def write : Constant → List UInt8
  | text bytes => 1 :: (Codec.write (UInt16.ofNat bytes.length) ++ bytes)
  | integer value => 3 :: Codec.write value
  | float bits => 4 :: Codec.write bits
  | long value => 5 :: Codec.write value
  | double bits => 6 :: Codec.write bits
  | classRef name => 7 :: Codec.write name
  | string slot => 8 :: Codec.write slot
  | fieldRef owner member => 9 :: (Codec.write owner ++ Codec.write member)
  | methodRef owner member ofInterface =>
      (if ofInterface then 11 else 10) :: (Codec.write owner ++ Codec.write member)
  | nameAndType name descriptor => 12 :: (Codec.write name ++ Codec.write descriptor)
  | methodHandle kind target => 15 :: (Codec.write kind ++ Codec.write target)
  | methodType descriptor => 16 :: Codec.write descriptor
  | dynamic bootstrap member => 17 :: (Codec.write bootstrap ++ Codec.write member)
  | invokeDynamic bootstrap member =>
      18 :: (Codec.write bootstrap ++ Codec.write member)
  | moduleName name => 19 :: Codec.write name
  | packageName name => 20 :: Codec.write name

/-- Reads the parts of a constant with some tag that will occupy `slot`. -/
def readBody (tag : UInt8) (slot : Nat) : Reader Constant :=
  match tag with
  | 1 => do
      let size : UInt16 ← read
      text <$> readBytes size.toNat
  | 3 => integer <$> read
  | 4 => float <$> read
  | 5 => long <$> read
  | 6 => double <$> read
  | 7 => classRef <$> read
  | 8 => string <$> read
  | 9 => fieldRef <$> read <*> read
  | 10 => (methodRef · · false) <$> read <*> read
  | 11 => (methodRef · · true) <$> read <*> read
  | 12 => nameAndType <$> read <*> read
  | 15 => methodHandle <$> read <*> read
  | 16 => methodType <$> read
  | 17 => dynamic <$> read <*> read
  | 18 => invokeDynamic <$> read <*> read
  | 19 => moduleName <$> read
  | 20 => packageName <$> read
  | _ => throw (.unknownTag tag slot)

/-- Reads a constant that will occupy `slot`. -/
def readAt (slot : Nat) : Reader Constant := do
  let tag ← read
  readBody tag slot

end Constant

end ClassAccess.ClassFile
