import ClassAccess.Proofs.SlotTable

/-!
# Where elements start

`placed` puts values one behind the other from a slot on. A table holds the values
that were added to it where `placed` puts them, so that what a slot stands for is a
question about a list: it lies before the first element, behind the last one, or
within exactly one element, at its start or further on.

Elements without width may share a slot; only the look-up needs them to have one.
-/

namespace ClassAccess

namespace SlotTable

variable {α : Type} [Width α] {start slot : Nat} {values : List α} {value : α}

/-- Values one behind the other from a slot on, each with the slot at which it starts. -/
def placed : Nat → List α → List (Nat × α)
  | _, [] => []
  | start, value :: later => (start, value) :: placed (start + width value) later

/-- Values further back start behind those in front. -/
theorem placed_append (start : Nat) (front back : List α) :
    placed start (front ++ back) =
      placed start front ++ placed (start + (front.map width).sum) back := by
  induction front generalizing start with
  | nil => simp [placed]
  | cons value later ih => simp [placed, ih, Nat.add_assoc]

/-- Added values stand behind the others, from the next free slot on. -/
theorem entries_pushAll (table : SlotTable α) (added : List α) :
    (table.pushAll added).entries.toList =
      table.entries.toList ++ placed table.nextSlot added := by
  induction added generalizing table with
  | nil => simp [pushAll, placed]
  | cons value later ih =>
      have tail := ih (table.push value)
      simp only [pushAll, List.foldl_cons] at tail ⊢
      rw [tail]
      simp [push, placed]

/-- A table of some values has no others. -/
@[simp] theorem values_ofList (start : Nat) (values : List α) :
    (ofList start values).values = values := by
  simp [ofList]

/-- A table ends where its values have used up all slots from the first one on. -/
@[simp] theorem nextSlot_ofList (start : Nat) (values : List α) :
    (ofList start values).nextSlot = start + (values.map width).sum := by
  rw [ofList, nextSlot_pushAll]
  rfl

/-- A table holds its values from its first slot on. -/
theorem entries_ofList (start : Nat) (values : List α) :
    (ofList start values).entries.toList = placed start values := by
  rw [ofList, entries_pushAll]
  rfl

/-- The value at a position starts behind those at the positions before it. -/
theorem getElem?_placed (start : Nat) (values : List α) (position : Nat) :
    (placed start values)[position]? =
      values[position]?.map fun value =>
        (start + ((values.take position).map width).sum, value) := by
  induction values generalizing start position with
  | nil => simp [placed]
  | cons first later ih =>
      cases position with
      | zero => simp [placed]
      | succ position => simp [placed, ih, Nat.add_assoc]

/-- A value starts at a slot when those in front of it use up the slots before. -/
theorem mem_placed_iff :
    (slot, value) ∈ placed start values ↔
      ∃ before after, values = before ++ value :: after ∧
        slot = start + (before.map width).sum := by
  constructor
  · intro held
    obtain ⟨position, found⟩ := List.mem_iff_getElem?.mp held
    rw [getElem?_placed, Option.map_eq_some_iff] at found
    obtain ⟨same, found, started⟩ := found
    obtain ⟨rfl, rfl⟩ := Prod.mk.inj started
    obtain ⟨inside, rfl⟩ := List.getElem?_eq_some_iff.mp found
    exact ⟨values.take position, values.drop (position + 1), by simp, rfl⟩
  · rintro ⟨before, after, rfl, rfl⟩
    rw [placed_append, placed]
    exact List.mem_append_right _ List.mem_cons_self

/-- All values start at the first slot or behind it. -/
theorem le_of_mem_placed {entry : Nat × α} (held : entry ∈ placed start values) :
    start ≤ entry.1 := by
  obtain ⟨before, after, -, started⟩ := mem_placed_iff.mp held
  omega

/-- All values end before the slots behind them. -/
theorem le_end_of_mem_placed {entry : Nat × α} (held : entry ∈ placed start values) :
    entry.1 + width entry.2 ≤ start + (values.map width).sum := by
  obtain ⟨before, after, rfl, started⟩ := mem_placed_iff.mp held
  simp only [List.map_append, List.map_cons, List.sum_append, List.sum_cons]
  omega

/-- An element that starts at a slot takes up another one. -/
def TakesUp (entry : Nat × α) (slot : Nat) : Prop :=
  entry.1 ≤ slot ∧ slot < entry.1 + width entry.2

/-- An element takes up the slot at which it starts. -/
theorem takesUp_start {entry : Nat × α} (wide : 0 < width entry.2) : TakesUp entry entry.1 :=
  ⟨le_rfl, Nat.lt_add_of_pos_right wide⟩

/-- No slot is taken up by two elements. -/
theorem eq_of_takesUp {first second : Nat × α} (held : first ∈ placed start values)
    (heldToo : second ∈ placed start values) (takes : TakesUp first slot)
    (takesToo : TakesUp second slot) : first = second := by
  induction values generalizing start with
  | nil => cases held
  | cons value later ih =>
      obtain ⟨started, within⟩ := takes
      obtain ⟨startedToo, withinToo⟩ := takesToo
      rw [placed, List.mem_cons] at held heldToo
      rcases held with rfl | held <;> rcases heldToo with rfl | heldToo
      · rfl
      · have behind := le_of_mem_placed heldToo
        dsimp only at within
        omega
      · have behind := le_of_mem_placed held
        dsimp only at withinToo
        omega
      · exact ih held heldToo

/-- Every slot from the first one up to the end is taken up. -/
theorem exists_takesUp (started : start ≤ slot)
    (within : slot < start + (values.map width).sum) :
    ∃ entry ∈ placed start values, TakesUp entry slot := by
  induction values generalizing start with
  | nil =>
      simp only [List.map_nil, List.sum_nil] at within
      omega
  | cons value later ih =>
      rw [placed]
      rcases Nat.lt_or_ge slot (start + width value) with inside | behind
      · exact ⟨_, List.mem_cons_self, started, inside⟩
      · rw [List.map_cons, List.sum_cons, ← Nat.add_assoc] at within
        obtain ⟨entry, held, takes⟩ := ih behind within
        exact ⟨entry, List.mem_cons_of_mem _ held, takes⟩

/-- Of values with a width, the one that starts at a slot is found there, and no other. -/
theorem get?_ofList_eq_some_iff (wide : ∀ value ∈ values, 0 < width value) :
    (ofList start values).get? slot = some value ↔ (slot, value) ∈ placed start values := by
  have ordered : (ofList start values).Ordered := (ordered_startingAt start).pushAll wide
  rw [ordered.get?_eq_some_iff, entries_ofList]

end SlotTable

end ClassAccess
