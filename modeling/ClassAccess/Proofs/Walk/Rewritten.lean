import ClassAccess.Proofs.Fallible
import ClassAccess.Proofs.NestedClass
import ClassAccess.Proofs.Storage
import ClassAccess.Proofs.Walk.Calls

/-!
# Class files with other access words

`Rewritten` says, place by place, that one class file is another one in which
some answer stands for each call. This module proves it of `withAccess`, and
with it that such a class file is still representable, that its access words are
the answers, and that the words of a class file itself give the class file back.
-/

namespace ClassAccess

namespace ClassFile

/-- One member is another one with the answer to its call. -/
def MemberRewritten (pool : Pool) (subject : String → String → Subject) (answer : Call → UInt16)
    (before after : Member) : Prop :=
  ∃ name descriptor, pool.text before.name = .ok name ∧
    pool.text before.descriptor = .ok descriptor ∧
    after = before.withAccess (answer ⟨subject name descriptor, before.access⟩)

/-- One entry of a nested class is another one with the answer to its call. -/
def NestedRewritten (pool : Pool) (answer : Call → UInt16) (before after : NestedClass) : Prop :=
  ∃ name, pool.className before.self = .ok name ∧
    after = before.withAccess (answer ⟨.nested name, before.access⟩)

/-- One attribute is another one with the answers to the calls for its entries. -/
inductive AttributeRewritten (pool : Pool) (answer : Call → UInt16) :
    Attribute → Attribute → Prop where
  /-- The entries of nested classes are rewritten one by one. -/
  | nested {before after : Attribute} {entries rewritten : List NestedClass}
      (named : pool.text before.name = .ok NestedClass.attributeName)
      (sameName : after.name = before.name)
      (held : NestedClass.ofInfo before.info = .ok entries)
      (holds : NestedClass.ofInfo after.info = .ok rewritten)
      (each : List.Forall₂ (NestedRewritten pool answer) entries rewritten) :
      AttributeRewritten pool answer before after
  /-- Attributes with other names are the same. -/
  | other {block : Attribute} {name : String} (named : pool.text block.name = .ok name)
      (differs : name ≠ NestedClass.attributeName) :
      AttributeRewritten pool answer block block

/-- One class file is another one with the answers to all calls, and otherwise the same. -/
structure Rewritten (answer : Call → UInt16) (before after : ClassFile) : Prop where
  version : after.version = before.version
  constants : after.constants = before.constants
  thisClass : after.thisClass = before.thisClass
  superClass : after.superClass = before.superClass
  interfaces : after.interfaces = before.interfaces
  header : ∃ name, before.name = .ok name ∧
    after.access = answer ⟨.header name, before.access⟩
  fields : List.Forall₂ (MemberRewritten before.constants .field answer) before.fields after.fields
  methods : List.Forall₂ (MemberRewritten before.constants .method answer)
    before.methods after.methods
  attributes : List.Forall₂ (AttributeRewritten before.constants answer)
    before.attributes after.attributes

/-- The entries of nested classes of a class file, in stored order. -/
def nestedEntries (file : ClassFile) : List NestedClass :=
  file.attributes.flatMap fun block => (nestedEntries? file.constants block).getD []

/-- The entries of an attribute are rewritten in order. -/
theorem AttributeRewritten.entries {pool : Pool} {answer : Call → UInt16}
    {before after : Attribute} (rewritten : AttributeRewritten pool answer before after) :
    List.Forall₂ (NestedRewritten pool answer) ((nestedEntries? pool before).getD [])
      ((nestedEntries? pool after).getD []) := by
  cases rewritten with
  | nested named sameName held holds each =>
      have namedAfter := named
      rw [← sameName] at namedAfter
      rw [nestedEntries?_eq_some_iff.mpr ⟨named, held⟩,
        nestedEntries?_eq_some_iff.mpr ⟨namedAfter, holds⟩]
      exact each
  | other named differs =>
      rw [nestedEntries?_of_ne named differs]
      exact .nil

/-- The entries of a class file are rewritten in order. -/
theorem Rewritten.entries {answer : Call → UInt16} {before after : ClassFile}
    (rewritten : Rewritten answer before after) :
    List.Forall₂ (NestedRewritten before.constants answer) before.nestedEntries
      after.nestedEntries := by
  rw [nestedEntries, nestedEntries, rewritten.constants, List.flatMap_def, List.flatMap_def]
  refine List.rel_flatten (List.forall₂_map_left_iff.mpr (List.forall₂_map_right_iff.mpr ?_))
  exact rewritten.attributes.imp fun _ _ block => block.entries

/-- The access words of a class file, in stored order. -/
def accessWords (file : ClassFile) : List UInt16 :=
  file.access :: (file.fields.map Member.access ++ file.methods.map Member.access
    ++ file.nestedEntries.map NestedClass.access)

section Lists

variable {α β γ δ : Type} {values : List α} {calls : List γ}
  {matched : α → γ → Prop} {put : α → β → α} {answer : γ → β}

/-- What stands at some position is related to what stands there in the other list. -/
theorem exists_getElem?_of_forall₂ (pairs : List.Forall₂ matched values calls) {position : Nat}
    {value : α} (stands : values[position]? = some value) :
    ∃ call, calls[position]? = some call ∧ matched value call := by
  induction pairs generalizing position with
  | nil => cases stands
  | cons first _ ih =>
      cases position with
      | zero =>
          cases stands
          exact ⟨_, rfl, first⟩
      | succ position => exact ih stands

/-- What is in one list is related to something in the other one. -/
theorem exists_mem_of_forall₂ (pairs : List.Forall₂ matched values calls) {call : γ}
    (held : call ∈ calls) : ∃ value ∈ values, matched value call := by
  induction pairs with
  | nil => cases held
  | cons first _ ih =>
      rcases List.mem_cons.mp held with rfl | later
      · exact ⟨_, List.mem_cons_self, first⟩
      · obtain ⟨value, among, related⟩ := ih later
        exact ⟨value, List.mem_cons_of_mem _ among, related⟩

/-- Putting in the answers to calls relates each value to the result as it does for one value. -/
theorem forall₂_zipWith {related : α → α → Prop} (pairs : List.Forall₂ matched values calls)
    (each : ∀ value call, matched value call → related value (put value (answer call))) :
    List.Forall₂ related values (values.zipWith put (calls.map answer)) := by
  induction pairs with
  | nil => exact .nil
  | cons first _ ih => exact .cons (each _ _ first) ih

/-- Putting in the answers to calls gives results that match other calls, if it does for one
value. -/
theorem forall₂_zipWith_answered {matchedAfter : α → γ → Prop} {answered : γ → γ}
    (pairs : List.Forall₂ matched values calls)
    (each : ∀ value call, matched value call →
      matchedAfter (put value (answer call)) (answered call)) :
    List.Forall₂ matchedAfter (values.zipWith put (calls.map answer)) (calls.map answered) := by
  induction pairs with
  | nil => exact .nil
  | cons first _ ih => exact .cons (each _ _ first) ih

/-- What is read from the results depends on the calls alone, if it does for one value. -/
theorem map_zipWith_answers {get : α → δ} {result : γ → δ}
    (pairs : List.Forall₂ matched values calls)
    (each : ∀ value call, matched value call → get (put value (answer call)) = result call) :
    (values.zipWith put (calls.map answer)).map get = calls.map result := by
  induction pairs with
  | nil => rfl
  | cons first _ ih =>
      rw [List.map_cons, List.zipWith_cons_cons, List.map_cons, List.map_cons, ih,
        each _ _ first]

/-- Values that are left as they are by each answer are left so by all of them. -/
theorem zipWith_eq_self (pairs : List.Forall₂ matched values calls)
    (each : ∀ value call, matched value call → put value (answer call) = value) :
    values.zipWith put (calls.map answer) = values := by
  have same : List.Forall₂ (· = ·) values (values.zipWith put (calls.map answer)) :=
    forall₂_zipWith pairs fun value call pair => (each value call pair).symm
  rw [List.forall₂_eq_eq_eq] at same
  exact same.symm

/-- Lists of storable values stay so when each value does. -/
theorem storable_zipWith [Codec α] [LawfulCodec α] {words : List β}
    (each : ∀ value word, Storable value → Storable (put value word))
    (storable : Storable values) : Storable (values.zipWith put words) := by
  refine ⟨?_, ?_⟩
  · rw [List.length_zipWith]
    exact Nat.le_trans (Nat.min_le_left _ _) storable.1
  · intro result made
    obtain ⟨value, word, both, rfl⟩ : ∃ value word, (value, word) ∈ values.zip words ∧
        put value word = result := by
      rw [← List.map_uncurry_zip_eq_zipWith] at made
      obtain ⟨⟨value, word⟩, both, same⟩ := List.mem_map.mp made
      exact ⟨value, word, both, same⟩
    exact each value word (storable.2 value (List.of_mem_zip both).1)

end Lists

/-- An attribute with other access words holds the same entries with these words. -/
theorem nestedEntries?_attributeWithAccess {pool : Pool} {block : Attribute}
    {entries : List NestedClass} (kept : nestedEntries? pool block = some entries)
    (words : List UInt16) :
    nestedEntries? pool (attributeWithAccess pool block words) =
      some (entries.zipWith NestedClass.withAccess words) := by
  obtain ⟨named, held⟩ := nestedEntries?_eq_some_iff.mp kept
  have few := (NestedClass.ofInfo_eq_ok_iff.mp held).1
  rw [attributeWithAccess_of_entries kept, nestedEntries?_eq_some_iff]
  refine ⟨named, NestedClass.ofInfo_eq_ok_iff.mpr ⟨?_, rfl⟩⟩
  rw [List.length_zipWith]
  omega

/-- An attribute with other access words can be stored when the attribute can. -/
theorem storable_attributeWithAccess {pool : Pool} {block : Attribute} (storable : Storable block)
    (words : List UInt16) : Storable (attributeWithAccess pool block words) := by
  cases kept : nestedEntries? pool block with
  | none =>
      rw [attributeWithAccess_of_none kept]
      exact storable
  | some entries =>
      obtain ⟨-, held⟩ := nestedEntries?_eq_some_iff.mp kept
      have few := (NestedClass.ofInfo_eq_ok_iff.mp held).1
      rw [attributeWithAccess_of_entries kept]
      change (NestedClass.toInfo _).length < 2 ^ 32
      rw [NestedClass.length_toInfo, List.length_zipWith]
      omega

/-- A class file with other access words is representable when the class file is. -/
theorem Representable.withAccess {file : ClassFile} (fits : file.Representable)
    (words : PerPlace UInt16) : (file.withAccess words).Representable := by
  obtain ⟨pool, interfaces, fields, methods, attributes⟩ := representable_iff.mp fits
  refine representable_iff.mpr ⟨pool, interfaces, ?_, ?_, ?_⟩
  · exact storable_zipWith (fun _ _ storable => storable) fields
  · exact storable_zipWith (fun _ _ storable => storable) methods
  · exact storable_zipWith (fun _ words storable => storable_attributeWithAccess storable words)
      attributes

variable {file : ClassFile} {calls : PerPlace Call}

/-- A member whose call was planned is rewritten by the answer. -/
theorem memberRewritten_of_call {pool : Pool} {subject : String → String → Subject}
    (answer : Call → UInt16) {member : Member} {call : Call}
    (resolved : memberCall pool subject member = .ok call) :
    MemberRewritten pool subject answer member (member.withAccess (answer call)) := by
  obtain ⟨name, descriptor, named, described, rfl⟩ := memberCall_eq_ok_iff.mp resolved
  exact ⟨name, descriptor, named, described, rfl⟩

/-- An entry of a nested class whose call was planned is rewritten by the answer. -/
theorem nestedRewritten_of_call {pool : Pool} (answer : Call → UInt16) {entry : NestedClass}
    {call : Call} (resolved : nestedCall pool entry = .ok call) :
    NestedRewritten pool answer entry (entry.withAccess (answer call)) := by
  obtain ⟨name, named, rfl⟩ := nestedCall_eq_ok_iff.mp resolved
  exact ⟨name, named, rfl⟩

/-- An attribute whose calls were planned is rewritten by the answers. -/
theorem attributeRewritten_of_calls {pool : Pool} (answer : Call → UInt16) {block : Attribute}
    {calls : List Call} (resolved : attributeCalls pool block = .ok calls) :
    AttributeRewritten pool answer block
      (attributeWithAccess pool block (calls.map answer)) := by
  rcases attributeCalls_cases resolved with
    ⟨entries, named, held, kept, resolved⟩ | ⟨name, named, differs, kept, rfl⟩
  · have rewritten := nestedEntries?_attributeWithAccess kept (calls.map answer)
    obtain ⟨-, holds⟩ := nestedEntries?_eq_some_iff.mp rewritten
    refine .nested named ?_ held holds ?_
    · rw [attributeWithAccess_of_entries kept]
    · exact forall₂_zipWith (mapM_eq_ok_iff.mp resolved)
        fun _ _ planned => nestedRewritten_of_call answer planned
  · rw [attributeWithAccess_of_none kept]
    exact .other named differs

/-- With the answers to its calls put into place, a class file is rewritten. -/
theorem rewritten_withAccess (resolved : file.calls = .ok calls) (answer : Call → UInt16) :
    Rewritten answer file (file.withAccess (calls.map answer)) := by
  obtain ⟨⟨name, named, header⟩, fields, methods, nested⟩ := calls_eq_ok_iff.mp resolved
  exact {
    version := rfl
    constants := rfl
    thisClass := rfl
    superClass := rfl
    interfaces := rfl
    header := ⟨name, named, congrArg answer header⟩
    fields := forall₂_zipWith fields fun _ _ planned => memberRewritten_of_call answer planned
    methods := forall₂_zipWith methods fun _ _ planned => memberRewritten_of_call answer planned
    attributes := forall₂_zipWith nested fun _ _ planned =>
      attributeRewritten_of_calls answer planned }

/-- The word of a planned call is that of the member. -/
theorem word_of_memberCall {pool : Pool} {subject : String → String → Subject} {member : Member}
    {call : Call} (resolved : memberCall pool subject member = .ok call) :
    call.word = member.access := by
  obtain ⟨name, descriptor, named, described, rfl⟩ := memberCall_eq_ok_iff.mp resolved
  rfl

/-- The word of a planned call is that of the entry. -/
theorem word_of_nestedCall {pool : Pool} {entry : NestedClass} {call : Call}
    (resolved : nestedCall pool entry = .ok call) : call.word = entry.access := by
  obtain ⟨name, named, rfl⟩ := nestedCall_eq_ok_iff.mp resolved
  rfl

/-- The calls for nested classes are planned entry by entry. -/
theorem forall₂_nestedEntries (resolved : file.calls = .ok calls) :
    List.Forall₂ (fun entry call => nestedCall file.constants entry = .ok call)
      file.nestedEntries calls.nested.flatten := by
  obtain ⟨-, -, -, nested⟩ := calls_eq_ok_iff.mp resolved
  rw [nestedEntries, List.flatMap_def]
  refine List.rel_flatten (List.forall₂_map_left_iff.mpr (nested.imp fun block calls planned => ?_))
  rcases attributeCalls_cases planned with
    ⟨entries, -, -, kept, resolved⟩ | ⟨name, -, -, kept, rfl⟩
  · rw [kept]
    exact mapM_eq_ok_iff.mp resolved
  · rw [kept]
    exact .nil

/-- A call is about the header, a member, or an entry of a nested class. -/
theorem subject_cases (resolved : file.calls = .ok calls) {call : Call}
    (made : call ∈ calls.toList) :
    (∃ owner, file.name = .ok owner ∧ call.subject = .header owner) ∨
      (∃ name descriptor, call.subject = .field name descriptor) ∨
      (∃ name descriptor, call.subject = .method name descriptor) ∨
      ∃ entry ∈ file.nestedEntries, ∃ name,
        file.constants.className entry.self = .ok name ∧ call.subject = .nested name := by
  obtain ⟨⟨owner, named, header⟩, fields, methods, -⟩ := calls_eq_ok_iff.mp resolved
  simp only [PerPlace.toList, List.mem_cons, List.mem_append] at made
  rcases made with rfl | (field | method) | nested
  · exact .inl ⟨owner, named, congrArg Call.subject header⟩
  · obtain ⟨member, -, planned⟩ := exists_mem_of_forall₂ fields field
    obtain ⟨name, descriptor, -, -, rfl⟩ := memberCall_eq_ok_iff.mp planned
    exact .inr (.inl ⟨name, descriptor, rfl⟩)
  · obtain ⟨member, -, planned⟩ := exists_mem_of_forall₂ methods method
    obtain ⟨name, descriptor, -, -, rfl⟩ := memberCall_eq_ok_iff.mp planned
    exact .inr (.inr (.inl ⟨name, descriptor, rfl⟩))
  · obtain ⟨entry, among, planned⟩ :=
      exists_mem_of_forall₂ (forall₂_nestedEntries resolved) nested
    obtain ⟨name, named, rfl⟩ := nestedCall_eq_ok_iff.mp planned
    exact .inr (.inr (.inr ⟨entry, among, name, named, rfl⟩))

/-- The answers to planned calls are the words of the attribute that they are put into. -/
theorem words_attributeWithAccess {pool : Pool} {block : Attribute} {calls : List Call}
    (resolved : attributeCalls pool block = .ok calls) (answer : Call → UInt16) :
    ((nestedEntries? pool (attributeWithAccess pool block (calls.map answer))).getD []).map
      NestedClass.access = calls.map answer := by
  rcases attributeCalls_cases resolved with
    ⟨entries, -, -, kept, resolved⟩ | ⟨name, -, -, kept, rfl⟩
  · rw [nestedEntries?_attributeWithAccess kept, Option.getD_some]
    exact map_zipWith_answers (mapM_eq_ok_iff.mp resolved) fun _ _ _ => rfl
  · rw [attributeWithAccess_of_none kept, kept]
    rfl

/-- An attribute stays as it is when its own words are put into it. -/
theorem attributeWithAccess_words {pool : Pool} {block : Attribute} {calls : List Call}
    (resolved : attributeCalls pool block = .ok calls) :
    attributeWithAccess pool block (calls.map Call.word) = block := by
  rcases attributeCalls_cases resolved with
    ⟨entries, -, held, kept, resolved⟩ | ⟨name, -, -, kept, rfl⟩
  · have same : entries.zipWith NestedClass.withAccess (calls.map Call.word) = entries := by
      refine zipWith_eq_self (mapM_eq_ok_iff.mp resolved) fun entry call planned => ?_
      rw [word_of_nestedCall planned]
      rfl
    rw [attributeWithAccess_of_entries kept, same, ← (NestedClass.ofInfo_eq_ok_iff.mp held).2]
  · exact attributeWithAccess_of_none kept _

/-- A class file stays as it is when its own words are put into it. -/
theorem withAccess_words (resolved : file.calls = .ok calls) :
    file.withAccess (calls.map Call.word) = file := by
  obtain ⟨⟨name, -, header⟩, fields, methods, nested⟩ := calls_eq_ok_iff.mp resolved
  have ofFields : file.fields.zipWith Member.withAccess (calls.fields.map Call.word) =
      file.fields := by
    refine zipWith_eq_self fields fun member call planned => ?_
    rw [word_of_memberCall planned]
    rfl
  have ofMethods : file.methods.zipWith Member.withAccess (calls.methods.map Call.word) =
      file.methods := by
    refine zipWith_eq_self methods fun member call planned => ?_
    rw [word_of_memberCall planned]
    rfl
  have ofAttributes : file.attributes.zipWith (attributeWithAccess file.constants)
      (calls.nested.map (List.map Call.word)) = file.attributes :=
    zipWith_eq_self nested fun _ _ planned => attributeWithAccess_words planned
  simp only [withAccess, PerPlace.map, ofFields, ofMethods, ofAttributes, header]

/-- The access words of a class file with answers put into it are these answers. -/
theorem accessWords_withAccess (resolved : file.calls = .ok calls) (answer : Call → UInt16) :
    (file.withAccess (calls.map answer)).accessWords = calls.toList.map answer := by
  obtain ⟨-, fields, methods, nested⟩ := calls_eq_ok_iff.mp resolved
  have ofFields : (file.fields.zipWith Member.withAccess (calls.fields.map answer)).map
      Member.access = calls.fields.map answer :=
    map_zipWith_answers fields fun _ _ _ => rfl
  have ofMethods : (file.methods.zipWith Member.withAccess (calls.methods.map answer)).map
      Member.access = calls.methods.map answer :=
    map_zipWith_answers methods fun _ _ _ => rfl
  have ofAttributes : (file.attributes.zipWith (attributeWithAccess file.constants)
      (calls.nested.map (List.map answer))).map (fun block =>
        ((nestedEntries? file.constants block).getD []).map NestedClass.access) =
      calls.nested.map (List.map answer) :=
    map_zipWith_answers nested fun _ _ planned => words_attributeWithAccess planned answer
  have ofNested : (file.withAccess (calls.map answer)).nestedEntries.map NestedClass.access =
      calls.nested.flatten.map answer := by
    rw [nestedEntries, List.map_flatMap, List.flatMap_def, List.map_flatten, ← ofAttributes]
    rfl
  rw [accessWords, ofNested]
  simp only [withAccess, PerPlace.map, PerPlace.toList, ofFields, ofMethods, List.map_cons,
    List.map_append]

/-- The call for an access word that was replaced by the answer to a call. -/
def Call.answered (answer : Call → UInt16) (call : Call) : Call := ⟨call.subject, answer call⟩

/-- The entries of nested classes are visited one by one. -/
theorem attributeCalls_of_entries {pool : Pool} {block : Attribute} {entries : List NestedClass}
    (kept : nestedEntries? pool block = some entries) :
    attributeCalls pool block = entries.mapM (nestedCall pool) := by
  obtain ⟨named, held⟩ := nestedEntries?_eq_some_iff.mp kept
  rw [attributeCalls, named, held]
  rfl

/-- An attribute with the answers to its calls has the same calls with these words. -/
theorem attributeCalls_attributeWithAccess {pool : Pool} {block : Attribute} {calls : List Call}
    (resolved : attributeCalls pool block = .ok calls) (answer : Call → UInt16) :
    attributeCalls pool (attributeWithAccess pool block (calls.map answer)) =
      .ok (calls.map (Call.answered answer)) := by
  rcases attributeCalls_cases resolved with
    ⟨entries, -, -, kept, planned⟩ | ⟨name, -, -, kept, rfl⟩
  · rw [attributeCalls_of_entries (nestedEntries?_attributeWithAccess kept _), mapM_eq_ok_iff]
    refine forall₂_zipWith_answered (mapM_eq_ok_iff.mp planned) fun entry call resolved => ?_
    obtain ⟨name, named, rfl⟩ := nestedCall_eq_ok_iff.mp resolved
    exact nestedCall_eq_ok_iff.mpr ⟨name, named, rfl⟩
  · rw [attributeWithAccess_of_none kept]
    exact resolved

/-- A class file with the answers to its calls has the same calls with these words. -/
theorem calls_withAccess (resolved : file.calls = .ok calls) (answer : Call → UInt16) :
    (file.withAccess (calls.map answer)).calls = .ok (calls.map (Call.answered answer)) := by
  obtain ⟨⟨name, named, header⟩, fields, methods, nested⟩ := calls_eq_ok_iff.mp resolved
  have ofMember {subject : String → String → Subject} (member : Member) (call : Call)
      (planned : memberCall file.constants subject member = .ok call) :
      memberCall file.constants subject (member.withAccess (answer call)) =
        .ok (call.answered answer) := by
    obtain ⟨name, descriptor, named, described, rfl⟩ := memberCall_eq_ok_iff.mp planned
    exact memberCall_eq_ok_iff.mpr ⟨name, descriptor, named, described, rfl⟩
  refine calls_eq_ok_iff.mpr ⟨⟨name, named, ?_⟩, ?_, ?_, ?_⟩
  · change calls.header.answered answer = ⟨.header name, answer calls.header⟩
    rw [header]
    rfl
  · exact forall₂_zipWith_answered fields ofMember
  · exact forall₂_zipWith_answered methods ofMember
  · exact forall₂_zipWith_answered nested fun _ _ planned =>
      attributeCalls_attributeWithAccess planned answer

/-- The access words of a class file are those of its calls. -/
theorem accessWords_eq (resolved : file.calls = .ok calls) :
    file.accessWords = calls.toList.map Call.word := by
  rw [← accessWords_withAccess resolved, withAccess_words resolved]

end ClassFile

end ClassAccess
