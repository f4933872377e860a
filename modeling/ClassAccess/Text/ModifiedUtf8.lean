import ClassAccess.Text.Utf16

/-!
# Modified UTF-8

Texts in class files are stored as their UTF-16 units, each in one to three
bytes. The unit zero takes two bytes, so that stored texts have no zero byte,
and surrogates take three bytes each. `encode` writes each character in as few
bytes as this allows; `decode` also accepts longer forms of the units.
-/

namespace ClassAccess.Text.ModifiedUtf8

/-- The number of bytes of a character in UTF-8, or two for the null character. -/
def byteCount (c : Char) : Nat := if c = '\x00' then 2 else c.utf8Size

/-- The stored bytes of a character. Four bytes of UTF-8 become six: those of a high surrogate, whose
uppermost bits are those of the character less one, and those of a low surrogate. -/
def encodeChar (c : Char) : List UInt8 :=
  let code := c.val
  match byteCount c with
  | 1 => [code.toUInt8]
  | 2 => [(code >>> 6 &&& 0x1F).toUInt8 ||| 0xC0, (code &&& 0x3F).toUInt8 ||| 0x80]
  | 3 =>
      [(code >>> 12 &&& 0x0F).toUInt8 ||| 0xE0, (code >>> 6 &&& 0x3F).toUInt8 ||| 0x80,
       (code &&& 0x3F).toUInt8 ||| 0x80]
  | _ =>
      [0xED, ((code >>> 16 &&& 0x0F).toUInt8 - 1) &&& 0x0F ||| 0xA0,
       (code >>> 10 &&& 0x3F).toUInt8 ||| 0x80,
       0xED, (code >>> 6 &&& 0x0F).toUInt8 ||| 0xB0, (code &&& 0x3F).toUInt8 ||| 0x80]

/-- The stored bytes of a text. -/
def encode (text : String) : List UInt8 := text.toList.flatMap encodeChar

/-- Whether a byte continues a longer form. -/
def isContinuation (byte : UInt8) : Bool := 0x80 ≤ byte && byte ≤ 0xBF

/-- The unit of a two-byte form. -/
def unitOfTwo (lead low : UInt8) : UInt16 :=
  UInt16.ofNat (lead.toNat % 0x20 * 0x40 + low.toNat % 0x40)

/-- The unit of a three-byte form. -/
def unitOfThree (lead middle low : UInt8) : UInt16 :=
  UInt16.ofNat (lead.toNat % 0x10 * 0x1000 + middle.toNat % 0x40 * 0x40 + low.toNat % 0x40)

/-- Reads forms and puts their units behind those already read, which are kept in reverse. -/
def unitsOnto (done : List UInt16) : List UInt8 → Option (List UInt16)
  | [] => some done.reverse
  | lead :: rest =>
      if 0x01 ≤ lead ∧ lead ≤ 0x7F then unitsOnto (lead.toUInt16 :: done) rest
      else if 0xC0 ≤ lead ∧ lead ≤ 0xDF then
        match rest with
        | low :: rest =>
            if isContinuation low then unitsOnto (unitOfTwo lead low :: done) rest else none
        | [] => none
      else if 0xE0 ≤ lead ∧ lead ≤ 0xEF then
        match rest with
        | middle :: low :: rest =>
            if isContinuation middle && isContinuation low then
              unitsOnto (unitOfThree lead middle low :: done) rest
            else none
        | _ => none
      else none

/-- The units of a sequence of forms. -/
def units? (bytes : List UInt8) : Option (List UInt16) := unitsOnto [] bytes

/-- The text stored in some bytes, if they are forms of well-formed UTF-16. -/
def decode (bytes : List UInt8) : Option String :=
  ((units? bytes).bind Utf16.chars?).map String.ofList

end ClassAccess.Text.ModifiedUtf8
