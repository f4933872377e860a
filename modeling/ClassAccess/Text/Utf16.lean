/-!
# UTF-16 units

A character below U+10000 is one 16-bit unit; any other is a high surrogate
followed by a low one. `chars?` reads units back and refuses surrogates that do
not pair up.
-/

namespace ClassAccess.Text.Utf16

/-- The units of a character. -/
def units (c : Char) : List UInt16 :=
  if c.toNat < 0x10000 then [UInt16.ofNat c.toNat]
  else
    let offset := c.toNat - 0x10000
    [UInt16.ofNat (0xD800 + offset / 0x400), UInt16.ofNat (0xDC00 + offset % 0x400)]

/-- Whether a unit is the first half of a pair. -/
def isHigh (unit : UInt16) : Bool := 0xD800 ≤ unit && unit ≤ 0xDBFF

/-- Whether a unit is the second half of a pair. -/
def isLow (unit : UInt16) : Bool := 0xDC00 ≤ unit && unit ≤ 0xDFFF

/-- The character of a high and a low surrogate. -/
def pair (high low : UInt16) : Char :=
  Char.ofNat (0x10000 + (high.toNat - 0xD800) * 0x400 + (low.toNat - 0xDC00))

/-- Reads units and puts their characters behind those already read, which are kept in
reverse. -/
def readOnto (done : List Char) : List UInt16 → Option (List Char)
  | [] => some done.reverse
  | unit :: rest =>
      if isHigh unit then
        match rest with
        | low :: rest => if isLow low then readOnto (pair unit low :: done) rest else none
        | [] => none
      else if isLow unit then none
      else readOnto (Char.ofNat unit.toNat :: done) rest

/-- The characters of well-formed UTF-16. -/
def chars? (input : List UInt16) : Option (List Char) := readOnto [] input

end ClassAccess.Text.Utf16
