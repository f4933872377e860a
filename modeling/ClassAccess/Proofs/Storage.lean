import ClassAccess.ClassFile.Basic
import ClassAccess.ClassFile.NestedClass
import ClassAccess.Proofs.Reading
import ClassAccess.Proofs.SlotTable

/-!
# Stored class files

Every part of a class file has a lawful codec, from single constants to whole
files. `parse_eq_ok_iff` puts them together: the bytes that parse are exactly the
stored forms of representable class files. Its two directions are byte exactness
and the round trip.

`Representable` says how long lists, texts and blocks may be, and that slots of
the pool are numbered from 1 on. It asks nothing of the slots that other parts
name, which may lead nowhere.
-/

namespace ClassAccess

namespace ClassFile

variable {input rest : List UInt8}

/-- How a kind of handle is read. -/
theorem read_handleKind :
    (read : Reader HandleKind) = (do
      let code ← read
      match HandleKind.ofCode? code with
      | some kind => return kind
      | none => throw (.badHandleKind code)) := rfl

instance : LawfulCodec HandleKind where
  Storable _ := True
  reads_iff := by
    intro input rest kind
    change Reads read input kind rest ↔ True ∧ input = write kind.code ++ rest
    rw [read_handleKind, true_and, reads_bind]
    constructor
    · rintro ⟨code, middle, taken, known⟩
      obtain ⟨-, rfl⟩ := reads_read.mp taken
      split at known
      · next found =>
          obtain ⟨rfl, rfl⟩ := reads_pure.mp known
          have same := List.find?_some found
          rw [beq_iff_eq.mp same]
      · exact absurd known reads_throw
    · rintro rfl
      refine ⟨kind.code, rest, reads_read.mpr ⟨trivial, rfl⟩, ?_⟩
      rw [HandleKind.ofCode?_code]
      exact reads_pure.mpr ⟨rfl, rfl⟩

namespace Constant

/-- The bytes of a text are no more than their stored length can count. -/
def Storable : Constant → Prop
  | text bytes => bytes.length ≤ 65535
  | _ => True

/-- Only texts are limited in length. -/
theorem storable_iff {constant : Constant} :
    constant.Storable ↔ ∀ bytes, constant = text bytes → bytes.length ≤ 65535 := by
  cases constant <;> simp [Storable]

/-- A constant is taken by its tag and its parts, whatever slot it will occupy. -/
theorem reads_readBody {tag : UInt8} {slot : Nat} {constant : Constant} :
    Reads (readBody tag slot) input constant rest ↔
      constant.Storable ∧ tag :: input = constant.write ++ rest := by
  constructor
  · intro taken
    unfold readBody at taken
    -- One case for each tag of the format, and one for all other tags.
    split at taken
    case h_18 => exact absurd taken reads_throw
    all_goals simp [LawfulCodec.Storable] at taken
    case h_1 =>
      obtain ⟨size, bytes, rfl, sized, rfl⟩ := taken
      have bound := size.toNat_lt
      refine ⟨show bytes.length ≤ 65535 by omega, ?_⟩
      simp [write, sized]
    case h_2 | h_3 | h_4 | h_5 | h_6 | h_7 | h_13 | h_16 | h_17 =>
      obtain ⟨part, rfl, rfl⟩ := taken
      exact ⟨trivial, rfl⟩
    all_goals
      obtain ⟨second, first, rfl, rfl⟩ := taken
      exact ⟨trivial, by simp [write]⟩
  · rintro ⟨storable, stored⟩
    cases constant with
    | text bytes =>
        obtain ⟨rfl, rfl⟩ := List.cons.inj stored
        have size : (UInt16.ofNat bytes.length).toNat = bytes.length :=
          UInt16.toNat_ofNat_of_lt' (Nat.lt_succ_of_le storable)
        have parts : ∃ count : UInt16, ClassFile.write (UInt16.ofNat bytes.length) =
            ClassFile.write count ∧ bytes.length = count.toNat := ⟨_, rfl, size.symm⟩
        simpa [readBody, LawfulCodec.Storable] using parts
    | methodRef owner member ofInterface =>
        cases ofInterface <;>
          obtain ⟨rfl, rfl⟩ := List.cons.inj stored <;>
          simp [readBody, LawfulCodec.Storable]
    | _ =>
        obtain ⟨rfl, rfl⟩ := List.cons.inj stored
        simp [readBody, LawfulCodec.Storable]

/-- A byte is stored as itself. -/
theorem write_byte (byte : UInt8) : ClassFile.write byte = [byte] := by
  simp [ClassFile.write, bigEndian]

/-- A constant is taken from its stored form, whatever slot it will occupy. -/
theorem reads_readAt {slot : Nat} {constant : Constant} :
    Reads (readAt slot) input constant rest ↔
      constant.Storable ∧ input = constant.write ++ rest := by
  simp only [readAt, reads_bind, reads_read, reads_readBody, write_byte]
  constructor
  · rintro ⟨tag, middle, ⟨-, rfl⟩, storable, stored⟩
    exact ⟨storable, stored⟩
  · rintro ⟨storable, rfl⟩
    have tagged : ∃ tag parts, constant.write = tag :: parts := by
      cases constant <;> exact ⟨_, _, rfl⟩
    obtain ⟨tag, parts, stored⟩ := tagged
    exact ⟨tag, parts ++ rest, ⟨trivial, by rw [stored]; rfl⟩, storable, by rw [stored]; rfl⟩

end Constant

namespace Pool

/-- Reading behind a pool adds storable constants, and their stored forms are what is taken. -/
theorem exists_of_reads_readOnto {count : Nat} {pool result : Pool}
    (taken : Reads (readOnto count pool) input result rest) :
    ∃ added, result = pool.pushAll added ∧ (∀ constant ∈ added, constant.Storable) ∧
      input = added.flatMap Constant.write ++ rest := by
  fun_induction readOnto count pool generalizing input with
  | case1 pool room ih =>
      obtain ⟨constant, middle, first, later⟩ := reads_bind.mp taken
      obtain ⟨storable, rfl⟩ := Constant.reads_readAt.mp first
      obtain ⟨added, rfl, storables, rfl⟩ := ih constant later
      refine ⟨constant :: added, rfl, ?_, ?_⟩
      · rw [List.forall_mem_cons]
        exact ⟨storable, storables⟩
      · simp
  | case2 pool full =>
      obtain ⟨rfl, rfl⟩ := reads_pure.mp taken
      exact ⟨[], rfl, by simp, rfl⟩

/-- Storable constants that end exactly at the count are read behind a pool. -/
theorem reads_readOnto_pushAll {pool : Pool} {added : List Constant}
    (storables : ∀ constant ∈ added, constant.Storable) :
    Reads (readOnto (pool.pushAll added).nextSlot pool) (added.flatMap Constant.write ++ rest)
      (pool.pushAll added) rest := by
  induction added generalizing pool with
  | nil =>
      have full : ¬ pool.nextSlot < (pool.pushAll []).nextSlot := Nat.lt_irrefl _
      rw [readOnto, if_neg full]
      exact reads_pure.mpr ⟨rfl, rfl⟩
  | cons constant later ih =>
      rw [List.forall_mem_cons] at storables
      have room : pool.nextSlot < (pool.pushAll (constant :: later)).nextSlot := by
        have positive := Constant.width_pos constant
        simp only [SlotTable.nextSlot_pushAll, List.map_cons, List.sum_cons]
        omega
      rw [readOnto, if_pos room, reads_bind]
      refine ⟨constant, later.flatMap Constant.write ++ rest, ?_, ih storables.2⟩
      exact Constant.reads_readAt.mpr ⟨storables.1, by simp⟩

/-- A pool that was built from its first slot on, whose count can be stored, and whose
constants can. -/
structure Storable (pool : Pool) : Prop where
  built : ∃ constants, pool = SlotTable.ofList 1 constants
  counted : pool.nextSlot ≤ 65535
  constants : ∀ constant ∈ pool.values, constant.Storable

/-- The constants of a pool that starts empty are those that were added. -/
theorem values_pushAll_empty (constants : List Constant) :
    (empty.pushAll constants).values = constants := by
  simp [empty]

/-- A pool is taken from its stored form, provided that it can be stored. -/
theorem reads_pool {pool : Pool} :
    Reads Pool.read input pool rest ↔ pool.Storable ∧ input = pool.write ++ rest := by
  simp only [Pool.read, reads_bind, reads_read]
  constructor
  · rintro ⟨count, _, ⟨-, rfl⟩, read, middle, taken, ended⟩
    obtain ⟨added, rfl, storables, rfl⟩ := exists_of_reads_readOnto taken
    split at ended
    · next exact =>
        obtain ⟨rfl, rfl⟩ := reads_pure.mp ended
        have bound := count.toNat_lt
        refine ⟨⟨⟨added, rfl⟩, by omega, ?_⟩, ?_⟩
        · rw [values_pushAll_empty]
          exact storables
        · rw [write, exact, UInt16.ofNat_toNat, values_pushAll_empty, List.append_assoc]
    · exact absurd ended reads_throw
  · rintro ⟨⟨⟨constants, built⟩, counted, storables⟩, rfl⟩
    replace built : pool = empty.pushAll constants := built
    subst built
    have count : (UInt16.ofNat (empty.pushAll constants).nextSlot).toNat =
        (empty.pushAll constants).nextSlot :=
      UInt16.toNat_ofNat_of_lt' (Nat.lt_succ_of_le counted)
    rw [values_pushAll_empty] at storables
    refine ⟨UInt16.ofNat (empty.pushAll constants).nextSlot,
      constants.flatMap Constant.write ++ rest, ⟨trivial, ?_⟩, empty.pushAll constants, rest,
      ?_, ?_⟩
    · rw [write, values_pushAll_empty, List.append_assoc]
    · rw [count]
      exact reads_readOnto_pushAll storables
    · rw [if_pos count.symm]
      exact reads_pure.mpr ⟨rfl, rfl⟩

end Pool

instance : LawfulCodec Pool where
  Storable := Pool.Storable
  reads_iff := Pool.reads_pool

/-- How a version is read. -/
theorem read_version :
    (read : Reader Version) = (do
      let minor ← read
      let major ← read
      return { major, minor }) := rfl

instance : LawfulCodec Version where
  Storable _ := True
  reads_iff := by
    intro input rest version
    change Reads read input version rest ↔
      True ∧ input = write version.minor ++ write version.major ++ rest
    rw [read_version]
    simp only [reads_bind, reads_read, reads_pure, List.append_assoc]
    constructor
    · rintro ⟨minor, _, ⟨-, rfl⟩, major, _, ⟨-, rfl⟩, rfl, rfl⟩
      exact ⟨trivial, rfl⟩
    · rintro ⟨-, rfl⟩
      exact ⟨_, _, ⟨trivial, rfl⟩, _, _, ⟨trivial, rfl⟩, rfl, rfl⟩

/-- How an entry of a nested class is read. -/
theorem read_nestedClass :
    (read : Reader NestedClass) = (do
      let self ← read
      let outer ← read
      let simpleName ← read
      let access ← read
      return { self, outer, simpleName, access }) := rfl

/-- The stored form of an entry ends with its access word. -/
theorem write_nestedClass (entry : NestedClass) :
    write entry = write entry.self ++ write entry.outer ++ write entry.simpleName
      ++ write entry.access := rfl

instance : LawfulCodec NestedClass where
  Storable _ := True
  reads_iff := by
    intro input rest entry
    rw [read_nestedClass, write_nestedClass]
    simp only [reads_bind, reads_read, reads_pure, List.append_assoc]
    constructor
    · rintro ⟨self, _, ⟨-, rfl⟩, outer, _, ⟨-, rfl⟩, simpleName, _, ⟨-, rfl⟩, access, _,
        ⟨-, rfl⟩, rfl, rfl⟩
      exact ⟨trivial, rfl⟩
    · rintro ⟨-, rfl⟩
      exact ⟨_, _, ⟨trivial, rfl⟩, _, _, ⟨trivial, rfl⟩, _, _, ⟨trivial, rfl⟩, _, _,
        ⟨trivial, rfl⟩, rfl, rfl⟩

/-- The bytes that hold entries of nested classes are exactly the stored forms of few enough. -/
theorem NestedClass.ofInfo_eq_ok_iff {info : List UInt8} {entries : List NestedClass} :
    NestedClass.ofInfo info = .ok entries ↔ entries.length ≤ 65535 ∧ info = toInfo entries := by
  have whole : readWhole info = .ok entries ↔ entries.length ≤ 65535 ∧ info = toInfo entries := by
    rw [readWhole_eq_ok_iff]
    constructor
    · rintro ⟨storable, stored⟩
      exact ⟨storable.1, stored⟩
    · rintro ⟨few, stored⟩
      exact ⟨⟨few, fun _ _ => trivial⟩, stored⟩
  rw [← whole, ofInfo]
  cases readWhole (α := List NestedClass) info with
  | error fault => simp [Except.mapError]
  | ok held => simp [Except.mapError]

/-- How an attribute is read. -/
theorem read_attribute :
    (read : Reader Attribute) = (do
      let name ← read
      let size : UInt32 ← read
      let info ← readBytes size.toNat
      return { name, info }) := rfl

/-- The stored form of an attribute ends with its bytes. -/
theorem write_attribute (block : Attribute) :
    write block = write block.name ++ write (UInt32.ofNat block.info.length) ++ block.info := rfl

instance : LawfulCodec Attribute where
  Storable block := block.info.length < 2 ^ 32
  reads_iff := by
    intro input rest block
    rw [read_attribute, write_attribute]
    simp only [reads_bind, reads_read, reads_readBytes, reads_pure, List.append_assoc]
    constructor
    · rintro ⟨name, _, ⟨-, rfl⟩, size, _, ⟨-, rfl⟩, info, _, ⟨sized, rfl⟩, rfl, rfl⟩
      rw [sized, UInt32.ofNat_toNat]
      exact ⟨size.toNat_lt, rfl⟩
    · rintro ⟨bound, rfl⟩
      have size : (UInt32.ofNat block.info.length).toNat = block.info.length :=
        UInt32.toNat_ofNat_of_lt' bound
      exact ⟨_, _, ⟨trivial, rfl⟩, _, _, ⟨trivial, rfl⟩, _, _, ⟨size.symm, rfl⟩, rfl, rfl⟩

/-- How a member is read. -/
theorem read_member :
    (read : Reader Member) = (do
      let access ← read
      let name ← read
      let descriptor ← read
      let attributes ← read
      return { access, name, descriptor, attributes }) := rfl

/-- The stored form of a member starts with its access word. -/
theorem write_member (member : Member) :
    write member = write member.access ++ write member.name ++ write member.descriptor
      ++ write member.attributes := rfl

instance : LawfulCodec Member where
  Storable member := Storable member.attributes
  reads_iff := by
    intro input rest member
    rw [read_member, write_member]
    simp only [reads_bind, reads_read, reads_pure, List.append_assoc]
    constructor
    · rintro ⟨access, _, ⟨-, rfl⟩, name, _, ⟨-, rfl⟩, descriptor, _, ⟨-, rfl⟩, attributes, _,
        ⟨storable, rfl⟩, rfl, rfl⟩
      exact ⟨storable, rfl⟩
    · rintro ⟨storable, rfl⟩
      exact ⟨_, _, ⟨trivial, rfl⟩, _, _, ⟨trivial, rfl⟩, _, _, ⟨trivial, rfl⟩, _, _,
        ⟨storable, rfl⟩, rfl, rfl⟩

/-- A class file whose lists, texts and blocks are no longer than their stored lengths can count,
and whose pool was built from its first slot on. Its slots may refer to anything. -/
structure Representable (file : ClassFile) : Prop where
  pool : ∃ constants, file.constants = SlotTable.ofList 1 constants
  slots : file.constants.nextSlot ≤ 65535
  texts : ∀ bytes, Constant.text bytes ∈ file.constants.values → bytes.length ≤ 65535
  interfaces : file.interfaces.length ≤ 65535
  fields : file.fields.length ≤ 65535
  methods : file.methods.length ≤ 65535
  attributes : file.attributes.length ≤ 65535
  memberAttributes : ∀ member ∈ file.fields ++ file.methods, member.attributes.length ≤ 65535
  infos : ∀ block ∈ file.attributes ++ (file.fields ++ file.methods).flatMap Member.attributes,
    block.info.length < 2 ^ 32

/-- A class file is representable exactly when all its parts can be stored. -/
theorem representable_iff {file : ClassFile} :
    file.Representable ↔ Storable file.constants ∧ Storable file.interfaces ∧
      Storable file.fields ∧ Storable file.methods ∧ Storable file.attributes := by
  constructor
  · intro fits
    have members : ∀ member ∈ file.fields ++ file.methods, Storable member := by
      intro member declared
      refine ⟨fits.memberAttributes member declared, fun block held => fits.infos block ?_⟩
      exact List.mem_append_right _ (List.mem_flatMap_of_mem declared held)
    refine ⟨⟨fits.pool, fits.slots, ?_⟩, ⟨fits.interfaces, fun _ _ => trivial⟩,
      ⟨fits.fields, ?_⟩, ⟨fits.methods, ?_⟩, ⟨fits.attributes, ?_⟩⟩
    · intro constant held
      rw [Constant.storable_iff]
      rintro bytes rfl
      exact fits.texts bytes held
    · exact fun member declared => members member (List.mem_append_left _ declared)
    · exact fun member declared => members member (List.mem_append_right _ declared)
    · exact fun block held => fits.infos block (List.mem_append_left _ held)
  · rintro ⟨pool, interfaces, fields, methods, attributes⟩
    have members : ∀ member ∈ file.fields ++ file.methods, Storable member := by
      intro member declared
      rcases List.mem_append.mp declared with field | method
      · exact fields.2 member field
      · exact methods.2 member method
    refine ⟨pool.built, pool.counted, ?_, interfaces.1, fields.1, methods.1, attributes.1, ?_, ?_⟩
    · exact fun bytes held => pool.constants _ held
    · exact fun member declared => (members member declared).1
    · intro block held
      rcases List.mem_append.mp held with own | nested
      · exact attributes.2 block own
      · obtain ⟨member, declared, held⟩ := List.mem_flatMap.mp nested
        exact (members member declared).2 block held

/-- A class file is taken from its stored form, provided that it can be represented. -/
theorem reads_readPrefix {input rest : List UInt8} {file : ClassFile} :
    Reads readPrefix input file rest ↔ file.Representable ∧ input = file.toBytes ++ rest := by
  rw [representable_iff]
  simp only [readPrefix, toBytes, reads_bind, reads_read, List.append_assoc]
  constructor
  · rintro ⟨number, _, ⟨-, rfl⟩, taken⟩
    split at taken
    · obtain ⟨_, _, thrown, -⟩ := reads_bind.mp taken
      exact absurd thrown reads_throw
    · next genuine =>
        simp only [reads_bind, reads_read, reads_pure] at taken
        obtain ⟨version, _, ⟨-, rfl⟩, constants, _, ⟨pool, rfl⟩, access, _, ⟨-, rfl⟩,
          thisClass, _, ⟨-, rfl⟩, superClass, _, ⟨-, rfl⟩, interfaces, _, ⟨few, rfl⟩,
          fields, _, ⟨fieldsFit, rfl⟩, methods, _, ⟨methodsFit, rfl⟩,
          attributes, _, ⟨attributesFit, rfl⟩, rfl, rfl⟩ := taken
        rw [Decidable.not_not.mp genuine]
        exact ⟨⟨pool, few, fieldsFit, methodsFit, attributesFit⟩, rfl⟩
  · rintro ⟨⟨pool, few, fieldsFit, methodsFit, attributesFit⟩, rfl⟩
    refine ⟨magic, _, ⟨trivial, rfl⟩, ?_⟩
    rw [if_neg (fun differs => differs rfl)]
    simp only [reads_bind, reads_read, reads_pure]
    exact ⟨_, _, ⟨trivial, rfl⟩, _, _, ⟨pool, rfl⟩, _, _, ⟨trivial, rfl⟩, _, _, ⟨trivial, rfl⟩,
      _, _, ⟨trivial, rfl⟩, _, _, ⟨few, rfl⟩, _, _, ⟨fieldsFit, rfl⟩, _, _, ⟨methodsFit, rfl⟩,
      _, _, ⟨attributesFit, rfl⟩, rfl, rfl⟩

instance : LawfulCodec ClassFile where
  Storable := Representable
  reads_iff := reads_readPrefix

/-- The bytes that parse are exactly the stored forms of representable class files. -/
theorem parse_eq_ok_iff {bytes : List UInt8} {file : ClassFile} :
    parse bytes = .ok file ↔ file.Representable ∧ bytes = file.toBytes :=
  readWhole_eq_ok_iff

/-- A class file that was parsed is written back byte for byte. -/
theorem toBytes_of_parse {bytes : List UInt8} {file : ClassFile} (parsed : parse bytes = .ok file) :
    file.toBytes = bytes :=
  (parse_eq_ok_iff.mp parsed).2.symm

/-- A representable class file is read back as it is, slots and all. -/
theorem parse_toBytes {file : ClassFile} (fits : file.Representable) :
    parse file.toBytes = .ok file :=
  parse_eq_ok_iff.mpr ⟨fits, rfl⟩

/-- A class file with a constant of every kind, a text that is no modified UTF-8, bits without a
name, and slots that lead nowhere. -/
def sample : ClassFile where
  version := ⟨52, 3⟩
  constants := SlotTable.ofList 1
    [.text [65], .classRef 1, .text [73, 110, 110, 101, 114, 67, 108, 97, 115, 115, 101, 115],
     .long (-2), .text [120], .text [73], .text [0xED, 0xA0, 0x80], .double 0x7FF8000000000001,
     .integer (-1), .float 0x7FC00001, .string 8, .fieldRef 2 16, .methodRef 2 16 false,
     .methodRef 2 999 true, .nameAndType 6 7, .methodHandle .invokeInterface 15, .methodType 0,
     .dynamic 0 16, .invokeDynamic 1 16, .moduleName 5, .packageName 65535]
  access := 0x8020
  thisClass := 2
  superClass := 0
  interfaces := [2, 700]
  fields := [⟨0x1002, 6, 7, [⟨9, [1, 2, 3]⟩]⟩]
  methods := []
  attributes := [⟨3, [0, 1, 0, 2, 0, 0, 0, 0, 0, 2]⟩]

/-- The stored form of `sample`. -/
def sampleBytes : List UInt8 :=
  [202, 254, 186, 190, 0, 3, 0, 52, 0, 24, 1, 0, 1, 65, 7, 0, 1, 1, 0, 12, 73, 110, 110, 101, 114,
   67, 108, 97, 115, 115, 101, 115, 5, 255, 255, 255, 255, 255, 255, 255, 254, 1, 0, 1, 120, 1, 0,
   1, 73, 1, 0, 3, 237, 160, 128, 6, 127, 248, 0, 0, 0, 0, 0, 1, 3, 255, 255, 255, 255, 4, 127,
   192, 0, 1, 8, 0, 8, 9, 0, 2, 0, 16, 10, 0, 2, 0, 16, 11, 0, 2, 3, 231, 12, 0, 6, 0, 7, 15, 9, 0,
   15, 16, 0, 0, 17, 0, 0, 0, 16, 18, 0, 1, 0, 16, 19, 0, 5, 20, 255, 255, 128, 32, 0, 2, 0, 0, 0,
   2, 0, 2, 2, 188, 0, 1, 16, 2, 0, 6, 0, 7, 0, 1, 0, 9, 0, 0, 0, 3, 1, 2, 3, 0, 0, 0, 1, 0, 3, 0,
   0, 0, 10, 0, 1, 0, 2, 0, 0, 0, 0, 0, 2]

/-- No text, list or block of `sample` is too long. -/
theorem representable_sample : sample.Representable := by
  refine ⟨⟨_, rfl⟩, by decide, ?_, by decide, by decide, by decide, by decide, by decide, by decide⟩
  intro bytes held
  have texts : bytes = [65] ∨ bytes = [73, 110, 110, 101, 114, 67, 108, 97, 115, 115, 101, 115] ∨
      bytes = [120] ∨ bytes = [73] ∨ bytes = [0xED, 0xA0, 0x80] := by
    simpa [sample, SlotTable.ofList] using held
  obtain rfl | rfl | rfl | rfl | rfl := texts <;> decide

/-- The bytes of `sample` are parsed. -/
theorem parse_sampleBytes : parse sampleBytes = .ok sample :=
  parse_eq_ok_iff.mpr ⟨representable_sample, rfl⟩

/-- The bytes of `sample` parse, and are written back. -/
theorem toBytes_of_parse_sample :
    parse sampleBytes = .ok sample ∧ sample.toBytes = sampleBytes :=
  ⟨parse_sampleBytes, toBytes_of_parse parse_sampleBytes⟩

/-- The file `sample` is read back from its stored form. -/
theorem parse_toBytes_sample : sample.Representable ∧ parse sample.toBytes = .ok sample :=
  ⟨representable_sample, parse_toBytes representable_sample⟩

end ClassFile

end ClassAccess
