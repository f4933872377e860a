/-!
# Access levels

The three lowest bits of an access word encode who may use a class or member. At
most one of them is set on a well-formed word; none stands for the own package.
-/

namespace ClassAccess

/-- Who may use a class or member. -/
inductive AccessLevel where
  | publicAccess
  | protectedAccess
  | packageAccess
  | privateAccess
deriving DecidableEq, Repr

namespace AccessLevel

/-- Without any bit, access is limited to the package. -/
instance : Inhabited AccessLevel := ⟨packageAccess⟩

/-- The bits that encode the level. -/
def mask : UInt16 := 0x0007

/-- Every level, the widest first. -/
def all : List AccessLevel := [publicAccess, protectedAccess, packageAccess, privateAccess]

/-- The keyword of a level in rules. -/
def keyword : AccessLevel → String
  | publicAccess => "public"
  | protectedAccess => "protected"
  | packageAccess => "default"
  | privateAccess => "private"

/-- The level that a keyword stands for. -/
def ofKeyword? (word : String) : Option AccessLevel :=
  all.find? fun level => level.keyword == word

/-- The bit that encodes a level. -/
def bit : AccessLevel → UInt16
  | publicAccess => 0x0001
  | protectedAccess => 0x0004
  | packageAccess => 0x0000
  | privateAccess => 0x0002

/-- The level that an access word encodes; of several bits the widest counts. -/
def ofWord (word : UInt16) : AccessLevel :=
  if word &&& publicAccess.bit ≠ 0 then publicAccess
  else if word &&& protectedAccess.bit ≠ 0 then protectedAccess
  else if word &&& privateAccess.bit ≠ 0 then privateAccess
  else packageAccess

/-- Replaces the level that an access word encodes. -/
def replaceIn (level : AccessLevel) (word : UInt16) : UInt16 :=
  (word &&& ~~~mask) ||| level.bit

/-- Keywords stand for their levels. -/
@[simp] theorem ofKeyword?_keyword (level : AccessLevel) :
    ofKeyword? level.keyword = some level := by
  cases level <;> decide

end AccessLevel

end ClassAccess
