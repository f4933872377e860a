/-!
# Access words

An access word is 16 bits. Which of them have a name depends on the place where
the word stands; unnamed bits are kept as they are.
-/

namespace ClassAccess

/-- The places of a class file that hold an access word. -/
inductive AccessPlace where
  | header
  | field
  | method
  | nested
deriving DecidableEq, Repr

namespace AccessPlace

/-- The named bits of a place, lowest first. -/
def namedBits : AccessPlace → List (String × UInt16)
  | header =>
      [("PUBLIC", 0x0001), ("FINAL", 0x0010), ("SUPER", 0x0020), ("INTERFACE", 0x0200),
       ("ABSTRACT", 0x0400), ("SYNTHETIC", 0x1000), ("ANNOTATION", 0x2000), ("ENUM", 0x4000),
       ("MODULE", 0x8000)]
  | field =>
      [("PUBLIC", 0x0001), ("PRIVATE", 0x0002), ("PROTECTED", 0x0004), ("STATIC", 0x0008),
       ("FINAL", 0x0010), ("VOLATILE", 0x0040), ("TRANSIENT", 0x0080), ("SYNTHETIC", 0x1000),
       ("ENUM", 0x4000)]
  | method =>
      [("PUBLIC", 0x0001), ("PRIVATE", 0x0002), ("PROTECTED", 0x0004), ("STATIC", 0x0008),
       ("FINAL", 0x0010), ("SYNCHRONIZED", 0x0020), ("BRIDGE", 0x0040), ("VARARGS", 0x0080),
       ("NATIVE", 0x0100), ("ABSTRACT", 0x0400), ("STRICT", 0x0800), ("SYNTHETIC", 0x1000)]
  | nested =>
      [("PUBLIC", 0x0001), ("PRIVATE", 0x0002), ("PROTECTED", 0x0004), ("STATIC", 0x0008),
       ("FINAL", 0x0010), ("INTERFACE", 0x0200), ("ABSTRACT", 0x0400), ("SYNTHETIC", 0x1000),
       ("ANNOTATION", 0x2000), ("ENUM", 0x4000)]

/-- The names of the set bits of a word, lowest first. -/
def namesIn (place : AccessPlace) (word : UInt16) : List String :=
  (place.namedBits.filter fun named => word &&& named.2 == named.2).map Prod.fst

/-- A word without its unnamed bits. -/
def known (place : AccessPlace) (word : UInt16) : UInt16 :=
  word &&& place.namedBits.foldl (fun bits named => bits ||| named.2) 0

end AccessPlace

/-- The bit that marks the header of an interface. -/
def interfaceBit : UInt16 := 0x0200

end ClassAccess
