import ClassAccess.Text.Split

/-!
# Lines of a byte stream

Lines end at the byte 10 only. The bytes after the last line end form a line of
their own unless there are none. A line is text when its bytes are valid UTF-8.
-/

namespace ClassAccess.Text

/-- The pieces between line ends, without a last empty one. -/
def rawLines (bytes : List UInt8) : List (List UInt8) :=
  let all := pieces (· == 10) bytes
  if all.getLast? = some [] then all.dropLast else all

/-- The text of a byte string, if it is valid UTF-8. -/
def ofUtf8? (bytes : List UInt8) : Option String :=
  String.fromUTF8? bytes.toByteArray

/-- The UTF-8 bytes of a text. -/
def toUtf8 (text : String) : List UInt8 :=
  text.toUTF8.data.toList

/-- The bytes of a text are read back as that text. -/
@[simp] theorem ofUtf8?_toUtf8 (text : String) : ofUtf8? (toUtf8 text) = some text := by
  have bytes : (toUtf8 text).toByteArray = text.toUTF8 := by
    apply ByteArray.ext
    simp [toUtf8, List.data_toByteArray]
  simp only [ofUtf8?, bytes, String.fromUTF8?, String.toUTF8_eq_toByteArray,
    dif_pos text.isValidUTF8]
  rfl

end ClassAccess.Text
