import ClassAccess.Proofs.Scanning

/-!
# Slots within elements

From the first slot of a table on, an element starts at a slot, or the slot lies within an
element, or it lies behind all of them. A look-up does not know how wide elements are. At
a slot within an element it names the element behind that one, and if there is none, it
answers as it does behind all elements.

`NamesHolder` describes answers that name the element in which a slot lies, `NamesNext`
those that are given. `lookup_namesNext` says so, and that the two descriptions come to
the same exactly at the slots that lie within no element.
-/

namespace ClassAccess

namespace SlotTable

variable {α : Type} [Width α] {start slot position : Nat} {values : List α} {value : α}
  {entry : Nat × α}

/-- A slot lies within an element that starts before it and ends behind it. -/
def Within (entry : Nat × α) (slot : Nat) : Prop :=
  entry.1 < slot ∧ slot < entry.1 + width entry.2

instance (entry : Nat × α) (slot : Nat) : Decidable (Within entry slot) :=
  inferInstanceAs (Decidable (_ ∧ _))

/-- An answer that names the element in which a slot lies. -/
inductive NamesHolder (table : SlotTable α) (slot : Nat) : Lookup α → Prop where
  | starts {position : Nat} {value : α} (held : table.entries[position]? = some (slot, value)) :
      NamesHolder table slot (.found position value)
  | within {position : Nat} {entry : Nat × α} (held : table.entries[position]? = some entry)
      (inside : Within entry slot) : NamesHolder table slot (.missing position)
  | behind (ended : table.nextSlot ≤ slot) : NamesHolder table slot .beyond

/-- An answer that names the element behind the one in which a slot lies, if there is one. -/
inductive NamesNext (table : SlotTable α) (slot : Nat) : Lookup α → Prop where
  | starts {position : Nat} {value : α} (held : table.entries[position]? = some (slot, value)) :
      NamesNext table slot (.found position value)
  | within {position : Nat} {entry : Nat × α} (held : table.entries[position]? = some entry)
      (inside : Within entry slot) (followed : position + 1 < table.size) :
      NamesNext table slot (.missing (position + 1))
  | withinLast {position : Nat} {entry : Nat × α}
      (held : table.entries[position]? = some entry) (inside : Within entry slot)
      (last : position + 1 = table.size) : NamesNext table slot .beyond
  | behind (ended : table.nextSlot ≤ slot) : NamesNext table slot .beyond

/-- For a slot that lies within no element the two descriptions come to the same. -/
theorem namesNext_iff_namesHolder {table : SlotTable α}
    (outside : ∀ entry ∈ table.entries.toList, ¬Within entry slot) {result : Lookup α} :
    table.NamesNext slot result ↔ table.NamesHolder slot result := by
  have among {position : Nat} {entry : Nat × α} (held : table.entries[position]? = some entry) :
      ¬Within entry slot := outside entry (mem_entries_iff.mpr ⟨position, held⟩)
  constructor
  · intro names
    cases names with
    | starts held => exact .starts held
    | within held inside _ => exact absurd inside (among held)
    | withinLast held inside _ => exact absurd inside (among held)
    | behind ended => exact .behind ended
  · intro names
    cases names with
    | starts held => exact .starts held
    | within held inside => exact absurd inside (among held)
    | behind ended => exact .behind ended

/-- A value starts where the one in front of it ends. -/
theorem start_of_next {next : Nat × α} (held : (placed start values)[position]? = some entry)
    (follows : (placed start values)[position + 1]? = some next) :
    next.1 = entry.1 + width entry.2 := by
  rw [getElem?_placed, Option.map_eq_some_iff] at held follows
  obtain ⟨value, found, rfl⟩ := held
  obtain ⟨after, -, rfl⟩ := follows
  simp [List.take_add_one, found, Nat.add_assoc]

/-- From the first slot on, an element starts at a slot, or the slot lies within one or behind all
of them. -/
theorem exists_namesNext (reached : start ≤ slot) :
    ∃ result, (ofList start values).NamesNext slot result := by
  rcases Nat.lt_or_ge slot (ofList start values).nextSlot with before | ended
  · rw [nextSlot_ofList] at before
    obtain ⟨⟨first, value⟩, among, started, ended⟩ := exists_takesUp reached before
    rw [← entries_ofList] at among
    obtain ⟨position, held⟩ := mem_entries_iff.mp among
    have bound : position + 1 ≤ (ofList start values).size :=
      (Array.getElem?_eq_some_iff.mp held).1
    dsimp only at started
    rcases Nat.eq_or_lt_of_le started with rfl | inside
    · exact ⟨_, .starts held⟩
    · rcases Nat.lt_or_eq_of_le bound with followed | last
      · exact ⟨_, .within held ⟨inside, ended⟩ followed⟩
      · exact ⟨_, .withinLast held ⟨inside, ended⟩ last⟩
  · exact ⟨_, .behind ended⟩

section Wide

variable (wide : ∀ value ∈ values, 0 < width value)

include wide

/-- At a slot within an element the next position is named, unless the element is the last one. -/
theorem lookup_of_within (held : (ofList start values).entries[position]? = some entry)
    (inside : Within entry slot) :
    (ofList start values).lookup slot =
      if position + 1 = (ofList start values).size then .beyond else .missing (position + 1) := by
  have ordered : (ofList start values).Ordered := ordered_ofList wide
  have bound := (Array.getElem?_eq_some_iff.mp held).1
  have whole : (ofList start values).size = (ofList start values).entries.size := rfl
  have upTo : ∀ (i : Nat) (other : Nat × α), (ofList start values).entries[i]? = some other →
      i < position + 1 → other.1 < slot := by
    intro i other among small
    rcases Nat.lt_succ_iff_lt_or_eq.mp small with before | rfl
    · exact (ordered.start_lt before among held).trans inside.1
    · cases held.symm.trans among
      exact inside.1
  rw [ordered.lookup_eq_scan]
  cases next : (ofList start values).entries[position + 1]? with
  | none =>
      have short := Array.getElem?_eq_none_iff.mp next
      rw [if_pos (by omega), scan_of_before fun i other among => upTo i other among (by
        have small := (Array.getElem?_eq_some_iff.mp among).1
        omega)]
  | some after =>
      have more := (Array.getElem?_eq_some_iff.mp next).1
      have follows : after.1 = entry.1 + width entry.2 := by
        rw [← Array.getElem?_toList, entries_ofList] at held next
        exact start_of_next held next
      have behind : slot < after.1 := follows ▸ inside.2
      rw [if_neg (by omega), scan_of_stops next upTo behind.le, if_neg behind.ne']

/-- A look-up answers by naming the next element. -/
theorem lookup_of_namesNext {result : Lookup α}
    (names : (ofList start values).NamesNext slot result) :
    (ofList start values).lookup slot = result := by
  have ordered : (ofList start values).Ordered := ordered_ofList wide
  cases names with
  | starts held => exact ordered.lookup_eq_iff_scanned.mpr (.found held)
  | within held inside followed => rw [lookup_of_within wide held inside, if_neg followed.ne]
  | withinLast held inside last => rw [lookup_of_within wide held inside, if_pos last]
  | behind ended =>
      refine ordered.lookup_eq_iff_scanned.mpr (.beyond fun entry among => ?_)
      exact (ordered.below entry among).trans_le ended

/-- From the first slot on, a look-up answers by naming the next element and in no other way. -/
theorem lookup_eq_iff_namesNext (reached : start ≤ slot) {result : Lookup α} :
    (ofList start values).lookup slot = result ↔
      (ofList start values).NamesNext slot result := by
  constructor
  · rintro rfl
    obtain ⟨result, names⟩ : ∃ result, (ofList start values).NamesNext slot result :=
      exists_namesNext reached
    rwa [lookup_of_namesNext wide names]
  · exact lookup_of_namesNext wide

/-- From the first slot on, look-ups name the element in which a slot lies exactly where the slot
lies in none. -/
theorem namesHolder_iff (reached : start ≤ slot) :
    (∀ result, (ofList start values).lookup slot = result ↔
        (ofList start values).NamesHolder slot result) ↔
      ∀ entry ∈ (ofList start values).entries.toList, ¬Within entry slot := by
  constructor
  · intro names entry among inside
    obtain ⟨position, held⟩ := mem_entries_iff.mp among
    have named := (names (.missing position)).mpr (.within held inside)
    rw [lookup_of_within wide held inside] at named
    -- The answer is either none or the next position.
    split at named
    · cases named
    · exact Nat.succ_ne_self position (Lookup.missing.inj named)
  · intro outside result
    rw [lookup_eq_iff_namesNext wide reached, namesNext_iff_namesHolder outside]

end Wide

/-- From the first slot of a table on, a look-up finds the element that starts at a slot. Within an
element it names the one behind it, and within the last one or behind all of them it names none. So
it names the element in which the slot lies exactly at slots that lie within no element. -/
theorem lookup_namesNext {start slot : Nat} {values : List α}
    (wide : ∀ value ∈ values, 0 < width value) (reached : start ≤ slot) :
    (∀ result, (ofList start values).lookup slot = result ↔
        (ofList start values).NamesNext slot result) ∧
      ((∀ result, (ofList start values).lookup slot = result ↔
          (ofList start values).NamesHolder slot result) ↔
        ∀ entry ∈ (ofList start values).entries.toList, ¬Within entry slot) :=
  ⟨fun _ => lookup_eq_iff_namesNext wide reached, namesHolder_iff wide reached⟩

/-- Of two wide elements the second one is named at the second slot of the first one, and none at
the second slot of the other. -/
theorem lookup_namesNext_wide :
    let values : List ClassFile.Constant := [.long 7, .double 0]
    let table : SlotTable ClassFile.Constant := ofList 1 values
    (∀ value ∈ values, 0 < width value) ∧ 1 ≤ 2 ∧ 1 ≤ 4 ∧
      table.NamesNext 2 (.missing 1) ∧ table.NamesNext 4 .beyond ∧
      ∀ result, table.lookup 3 = result ↔ table.NamesHolder 3 result := by
  intro values table
  have wide : ∀ value ∈ values, 0 < width value := by decide
  have outside : ∀ entry ∈ table.entries.toList, ¬Within entry 3 := by decide
  exact ⟨wide, by decide, by decide,
    ((lookup_namesNext wide (show 1 ≤ 2 by decide)).1 _).mp (by cbv),
    ((lookup_namesNext wide (show 1 ≤ 4 by decide)).1 _).mp (by cbv),
    (lookup_namesNext wide (show 1 ≤ 3 by decide)).2.mpr outside⟩

/-- Neither of the two is named at its second slot. So look-ups do not always name the element in
which a slot lies. -/
theorem holder_not_named :
    let table : SlotTable ClassFile.Constant := ofList 1 [.long 7, .double 0]
    (table.NamesHolder 2 (.missing 0) ∧ table.lookup 2 = .missing 1) ∧
      (table.NamesHolder 4 (.missing 1) ∧ table.lookup 4 = .beyond) ∧
      ¬∀ (start : Nat) (values : List ClassFile.Constant),
        (∀ value ∈ values, 0 < width value) → ∀ slot, start ≤ slot → ∀ result,
          (ofList start values).lookup slot = result ↔
            (ofList start values).NamesHolder slot result := by
  intro table
  have long : table.entries[0]? = some (1, .long 7) := rfl
  have double : table.entries[1]? = some (3, .double 0) := rfl
  have first : table.NamesHolder 2 (.missing 0) := .within long (by decide)
  have second : table.NamesHolder 4 (.missing 1) := .within double (by decide)
  have next : table.lookup 2 = .missing 1 := by cbv
  refine ⟨⟨first, next⟩, ⟨second, by cbv⟩, fun named => ?_⟩
  have holder := (named 1 _ (by decide) 2 (by decide) _).mpr first
  cases next.symm.trans holder

end SlotTable

end ClassAccess
