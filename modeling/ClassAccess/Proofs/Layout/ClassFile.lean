import ClassAccess.Proofs.Layout.Pieces
import ClassAccess.Proofs.Walk.Rewritten

/-!
# Layouts of class files

The layout of a class file says at which offsets its access words are stored.
Its bytes are the stored form of the class file, and its words are the access
words. Class files that differ in access words only have layouts that are alike.
-/

namespace ClassAccess

namespace ClassFile

namespace Layout

variable {α : Type}

/-- The layout of a stored list: its count, and then its values. -/
def ofValues (layoutOf : α → Layout) (values : List α) : Layout :=
  .frame (write (UInt16.ofNat values.length)) :: values.flatMap layoutOf

/-- The bytes of two layouts stand behind one another. -/
@[simp] theorem bytes_append (front rest : Layout) :
    bytes (front ++ rest) = bytes front ++ bytes rest :=
  List.flatMap_append

/-- The words of two layouts stand behind one another. -/
@[simp] theorem words_append (front rest : Layout) :
    words (front ++ rest) = words front ++ words rest :=
  List.flatMap_append

/-- A list is stored as its layout says when its values are. -/
theorem bytes_ofValues [Codec α] {layoutOf : α → Layout} {values : List α}
    (stored : ∀ value, (layoutOf value).bytes = write value) :
    (ofValues layoutOf values).bytes = write values := by
  have each : bytes (values.flatMap layoutOf) = values.flatMap write := by
    rw [bytes, List.flatMap_assoc]
    exact List.flatMap_congr fun value _ => stored value
  rw [ofValues, bytes_cons, each]
  rfl

/-- The words of a list are those of its values. -/
theorem words_ofValues (layoutOf : α → Layout) (values : List α) :
    (ofValues layoutOf values).words = values.flatMap fun value => (layoutOf value).words :=
  List.flatMap_assoc

/-- Every layout is like itself. -/
theorem Alike.refl (layout : Layout) : Alike layout layout :=
  List.forall₂_same.mpr fun piece _ => by
    cases piece with
    | frame bytes => exact .frame bytes
    | slot word => exact .slot word word

/-- Layouts behind one another are alike when both parts are. -/
theorem Alike.append {front otherFront rest otherRest : Layout} (fronts : Alike front otherFront)
    (rests : Alike rest otherRest) : Alike (front ++ rest) (otherFront ++ otherRest) :=
  List.rel_append fronts rests

/-- The layouts of lists are alike when those of their values are. -/
theorem Alike.ofValues {layoutOf otherLayoutOf : α → Layout} {before after : List α}
    (pairs : List.Forall₂ (fun value other => Alike (layoutOf value) (otherLayoutOf other))
      before after) : Alike (ofValues layoutOf before) (ofValues otherLayoutOf after) := by
  rw [Layout.ofValues, Layout.ofValues, ← pairs.length_eq, List.flatMap_def, List.flatMap_def]
  refine .cons (.frame _) (List.rel_flatten ?_)
  rw [List.forall₂_map_left_iff, List.forall₂_map_right_iff]
  exact pairs

end Layout

/-- A member starts with its access word. -/
def Member.layout (member : Member) : Layout :=
  [.slot member.access,
    .frame (write member.name ++ write member.descriptor ++ write member.attributes)]

/-- An entry of a nested class ends with its access word. -/
def NestedClass.layout (entry : NestedClass) : Layout :=
  [.frame (write entry.self ++ write entry.outer ++ write entry.simpleName), .slot entry.access]

/-- The words of an attribute are those of its entries. -/
def attributeLayout (pool : Pool) (block : Attribute) : Layout :=
  match nestedEntries? pool block with
  | some entries =>
      .frame (write block.name ++ write (UInt32.ofNat block.info.length))
        :: Layout.ofValues NestedClass.layout entries
  | none => [.frame (write block)]

/-- The pieces that a class file is stored in. -/
def layout (file : ClassFile) : Layout :=
  .frame (write magic ++ write file.version ++ write file.constants) :: .slot file.access
    :: .frame (write file.thisClass ++ write file.superClass ++ write file.interfaces)
    :: (Layout.ofValues Member.layout file.fields ++ Layout.ofValues Member.layout file.methods
      ++ Layout.ofValues (attributeLayout file.constants) file.attributes)

/-- The offsets of the access words of a class file. -/
def accessSlots (file : ClassFile) : List Nat := file.layout.slots

/-- A member is stored as its layout says. -/
theorem Member.bytes_layout (member : Member) : member.layout.bytes = write member := by
  rw [write_member]
  simp [Member.layout, Layout.bytes, Piece.bytes]

/-- An entry of a nested class is stored as its layout says. -/
theorem NestedClass.bytes_layout (entry : NestedClass) : entry.layout.bytes = write entry := by
  rw [write_nestedClass]
  simp [NestedClass.layout, Layout.bytes, Piece.bytes]

/-- An attribute is stored as its layout says, whether or not it holds entries. -/
theorem bytes_attributeLayout (pool : Pool) (block : Attribute) :
    (attributeLayout pool block).bytes = write block := by
  rw [attributeLayout]
  cases kept : nestedEntries? pool block with
  | none => exact List.append_nil _
  | some entries =>
      obtain ⟨-, held⟩ := nestedEntries?_eq_some_iff.mp kept
      have stored : block.info = write entries := (NestedClass.ofInfo_eq_ok_iff.mp held).2
      change _ ++ (Layout.ofValues NestedClass.layout entries).bytes = _
      rw [Layout.bytes_ofValues NestedClass.bytes_layout, ← stored]
      rfl

/-- A class file is stored as its layout says. -/
theorem bytes_layout (file : ClassFile) : file.layout.bytes = file.toBytes := by
  simp only [layout, Layout.bytes_cons, Layout.bytes_append,
    Layout.bytes_ofValues Member.bytes_layout,
    Layout.bytes_ofValues (bytes_attributeLayout file.constants)]
  simp [toBytes, Piece.bytes]

/-- The words of an attribute's layout are those of its entries. -/
theorem words_attributeLayout (pool : Pool) (block : Attribute) :
    (attributeLayout pool block).words =
      ((nestedEntries? pool block).getD []).map NestedClass.access := by
  rw [attributeLayout]
  cases nestedEntries? pool block with
  | none => rfl
  | some entries =>
      change (Layout.ofValues NestedClass.layout entries).words = _
      rw [Layout.words_ofValues]
      exact List.map_eq_flatMap.symm

/-- The words of a class file's layout are its access words. -/
theorem words_layout (file : ClassFile) : file.layout.words = file.accessWords := by
  have ofFields : (Layout.ofValues Member.layout file.fields).words =
      file.fields.map Member.access :=
    (Layout.words_ofValues _ _).trans List.map_eq_flatMap.symm
  have ofMethods : (Layout.ofValues Member.layout file.methods).words =
      file.methods.map Member.access :=
    (Layout.words_ofValues _ _).trans List.map_eq_flatMap.symm
  have ofAttributes : (Layout.ofValues (attributeLayout file.constants) file.attributes).words =
      file.nestedEntries.map NestedClass.access := by
    rw [Layout.words_ofValues, nestedEntries, List.map_flatMap]
    exact List.flatMap_congr fun block _ => words_attributeLayout file.constants block
  rw [layout, Layout.words_cons, Layout.words_cons, Layout.words_cons, Layout.words_append,
    Layout.words_append, ofFields, ofMethods, ofAttributes]
  rfl

/-- A member with another access word has a layout that is alike. -/
theorem MemberRewritten.alike_layout {pool : Pool} {subject : String → String → Subject}
    {answer : Call → UInt16} {before after : Member}
    (rewritten : MemberRewritten pool subject answer before after) :
    Layout.Alike before.layout after.layout := by
  obtain ⟨name, descriptor, -, -, rfl⟩ := rewritten
  exact .cons (.slot _ _) (.cons (.frame _) .nil)

/-- An entry with another access word has a layout that is alike. -/
theorem NestedRewritten.alike_layout {pool : Pool} {answer : Call → UInt16}
    {before after : NestedClass} (rewritten : NestedRewritten pool answer before after) :
    Layout.Alike before.layout after.layout := by
  obtain ⟨name, -, rfl⟩ := rewritten
  exact .cons (.frame _) (.cons (.slot _ _) .nil)

/-- An attribute whose entries have other access words has a layout that is alike, since it
keeps its length. -/
theorem AttributeRewritten.alike_layout {pool : Pool} {answer : Call → UInt16}
    {before after : Attribute} (rewritten : AttributeRewritten pool answer before after) :
    Layout.Alike (attributeLayout pool before) (attributeLayout pool after) := by
  cases rewritten with
  | @nested _ entries others named sameName held holds each =>
      have kept := nestedEntries?_eq_some_iff.mpr ⟨named, held⟩
      have keptAfter : nestedEntries? pool after = some others :=
        nestedEntries?_eq_some_iff.mpr ⟨by rw [sameName]; exact named, holds⟩
      have sameLength : after.info.length = before.info.length := by
        rw [(NestedClass.ofInfo_eq_ok_iff.mp held).2, (NestedClass.ofInfo_eq_ok_iff.mp holds).2,
          NestedClass.length_toInfo, NestedClass.length_toInfo, each.length_eq]
      rw [attributeLayout, attributeLayout, kept, keptAfter, sameName, sameLength]
      exact .cons (.frame _) (Layout.Alike.ofValues (each.imp fun _ _ => (·.alike_layout)))
  | other named differs => exact Layout.Alike.refl _

/-- A class file with other access words has a layout that is alike. -/
theorem Rewritten.alike_layout {answer : Call → UInt16} {before after : ClassFile}
    (rewritten : Rewritten answer before after) : Layout.Alike before.layout after.layout := by
  have fields := rewritten.fields.imp fun _ _ each => each.alike_layout
  have methods := rewritten.methods.imp fun _ _ each => each.alike_layout
  have attributes := rewritten.attributes.imp fun _ _ each => each.alike_layout
  rw [layout, layout, rewritten.version, rewritten.constants, rewritten.thisClass,
    rewritten.superClass, rewritten.interfaces]
  refine .cons (.frame _) (.cons (.slot _ _) (.cons (.frame _) ?_))
  exact ((Layout.Alike.ofValues fields).append (.ofValues methods)).append (.ofValues attributes)

end ClassFile

end ClassAccess
