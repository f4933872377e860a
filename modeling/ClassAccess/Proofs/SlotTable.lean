import ClassAccess.SlotTable
import Mathlib.Algebra.Ring.Nat
import Mathlib.Data.List.TakeWhile
import Mathlib.Tactic.Conv

/-!
# Slots of a table

Elements use up slots from the start of a table on, each as many as it is wide. If
none of them is without width, they start one after the other, and the binary search
finds what a linear scan finds: `get?_eq_some_iff` says that an element is found at a
slot exactly when it starts there.
-/

namespace ClassAccess

namespace SlotTable

variable {α : Type} {table : SlotTable α} {slot : Nat}

/-- Adding several elements uses up the slots that they are wide together. -/
@[simp] theorem nextSlot_pushAll [Width α] (table : SlotTable α) (added : List α) :
    (table.pushAll added).nextSlot = table.nextSlot + (added.map width).sum := by
  induction added generalizing table with
  | nil => simp [pushAll]
  | cons value rest ih =>
      have tail := ih (table.push value)
      simp only [pushAll, List.foldl_cons] at tail ⊢
      rw [tail, nextSlot_push, List.map_cons, List.sum_cons, Nat.add_assoc]

/-- The elements start one after the other, and all of them before the next free slot. -/
structure Ordered (table : SlotTable α) : Prop where
  ascending : table.entries.toList.Pairwise fun earlier later => earlier.1 < later.1
  below : ∀ entry ∈ table.entries.toList, entry.1 < table.nextSlot

/-- A table without elements is in order. -/
theorem ordered_startingAt (start : Nat) : (startingAt start : SlotTable α).Ordered where
  ascending := .nil
  below := by simp [startingAt]

/-- Adding an element that is not without width keeps the order. -/
theorem Ordered.push [Width α] (ordered : table.Ordered) {value : α} (wide : 0 < width value) :
    (table.push value).Ordered where
  ascending := by
    rw [SlotTable.push, Array.toList_push, List.pairwise_append]
    refine ⟨ordered.ascending, List.pairwise_singleton _ _, fun entry held last isLast => ?_⟩
    rw [List.mem_singleton.mp isLast]
    exact ordered.below entry held
  below := by
    intro entry held
    rw [SlotTable.push, Array.toList_push, List.mem_append, List.mem_singleton] at held
    rw [nextSlot_push]
    rcases held with earlier | rfl
    · have before := ordered.below entry earlier
      omega
    · change table.nextSlot < table.nextSlot + width value
      omega

/-- Adding several such elements does. -/
theorem Ordered.pushAll [Width α] (ordered : table.Ordered) {added : List α}
    (wide : ∀ value ∈ added, 0 < width value) : (table.pushAll added).Ordered := by
  induction added generalizing table with
  | nil => exact ordered
  | cons value rest ih =>
      rw [List.forall_mem_cons] at wide
      exact ih (ordered.push wide.1) wide.2

/-- Of two elements the one at the earlier position starts first. -/
theorem Ordered.start_lt (ordered : table.Ordered) {i j : Nat} {first second : Nat × α}
    (before : i < j) (atFirst : table.entries[i]? = some first)
    (atSecond : table.entries[j]? = some second) : first.1 < second.1 := by
  obtain ⟨inside, rfl⟩ := Array.getElem?_eq_some_iff.mp atFirst
  obtain ⟨insideToo, rfl⟩ := Array.getElem?_eq_some_iff.mp atSecond
  exact List.pairwise_iff_getElem.mp ordered.ascending i j inside insideToo before

/-- A position behind which every element starts after a slot. The element at the position itself
does not, unless it is the first one. -/
structure Parts (table : SlotTable α) (slot position : Nat) : Prop where
  behind : ∀ later entry, table.entries[later]? = some entry → position < later → slot < entry.1
  reached : position = 0 ∨ ∃ entry, table.entries[position]? = some entry ∧ entry.1 ≤ slot

/-- The binary search ends at such a position, if its window has one. -/
theorem Ordered.parts_probe (ordered : table.Ordered) {first count : Nat}
    (within : first + count ≤ table.size)
    (outside : ∀ later entry, table.entries[later]? = some entry → first + count ≤ later →
      slot < entry.1)
    (reached : first = 0 ∨ ∃ entry, table.entries[first]? = some entry ∧ entry.1 ≤ slot) :
    table.Parts slot (table.probe slot first count) := by
  fun_induction probe table slot first count with
  | case1 first count small =>
      refine ⟨fun later entry found after => outside later entry found ?_, reached⟩
      omega
  | case2 first count large half middle above ih =>
      have isMiddle : middle = first + count / 2 := rfl
      have isHalf : half = count / 2 := rfl
      obtain ⟨entry, atMiddle, after⟩ : ∃ entry, table.entries[middle]? = some entry ∧
          slot < entry.1 := by
        cases atMiddle : table.entries[middle]? with
        | none => simp [atMiddle] at above
        | some entry => exact ⟨entry, rfl, by simpa [atMiddle] using above⟩
      refine ih (by omega) (fun later other atLater behind => ?_) reached
      rcases Nat.lt_or_eq_of_le (show middle ≤ later by omega) with beyond | rfl
      · exact after.trans (ordered.start_lt beyond atMiddle atLater)
      · rw [atMiddle] at atLater
        cases atLater
        exact after
  | case3 first count large half middle notAbove ih =>
      have isMiddle : middle = first + count / 2 := rfl
      have isHalf : half = count / 2 := rfl
      have inside : middle < table.entries.size := by
        have whole : table.size = table.entries.size := rfl
        omega
      have atMiddle := Array.getElem?_eq_getElem inside
      rw [atMiddle, Option.map_some, Option.any_some, decide_eq_true_eq] at notAbove
      refine ih (by omega) (fun later entry found behind => outside later entry found ?_)
        (.inr ⟨_, atMiddle, Nat.le_of_not_lt notAbove⟩)
      omega

/-- As many elements are passed over by a scan as start before the slot. -/
theorem length_takeWhile_starts {position : Nat} (within : position ≤ table.size)
    (before : ∀ i entry, table.entries[i]? = some entry → i < position → entry.1 < slot)
    (stops : ∀ entry, table.entries[position]? = some entry → slot ≤ entry.1) :
    (table.entries.toList.takeWhile fun entry => entry.1 < slot).length = position := by
  have front : ∀ entry ∈ table.entries.toList.take position,
      decide (entry.1 < slot) = true := by
    intro entry held
    obtain ⟨i, small, rfl⟩ := List.mem_iff_getElem.mp held
    rw [List.length_take] at small
    rw [List.getElem_take, decide_eq_true_eq]
    exact before i _ (by simp) (by omega)
  have back : (table.entries.toList.drop position).takeWhile
      (fun entry => decide (entry.1 < slot)) = [] := by
    cases behind : table.entries.toList.drop position with
    | nil => rfl
    | cons entry later =>
        have atPosition : table.entries.toList[position]? = some entry := by
          rw [← List.head?_drop, behind, List.head?_cons]
        have stopped := stops entry (by simpa using atPosition)
        rw [List.takeWhile_cons_of_neg (by simpa using stopped)]
  have length : table.entries.toList.length = table.size := rfl
  conv_lhs => rw [← List.take_append_drop position table.entries.toList]
  rw [List.takeWhile_append_of_pos front, back, List.append_nil, List.length_take]
  omega

/-- A scan answers by the first element that does not start before the slot. -/
theorem scan_of_stops {position start : Nat} {value : α}
    (found : table.entries[position]? = some (start, value))
    (before : ∀ i entry, table.entries[i]? = some entry → i < position → entry.1 < slot)
    (notBefore : slot ≤ start) :
    table.scan slot = if start = slot then .found position value else .missing position := by
  have inside := (Array.getElem?_eq_some_iff.mp found).1
  have skipped := length_takeWhile_starts inside.le before
    (fun entry again => by rw [found] at again; cases again; exact notBefore)
  simp only [scan, skipped, found]

/-- A scan passes over all elements when each starts before the slot. -/
theorem scan_of_before
    (before : ∀ (i : Nat) (entry : Nat × α), table.entries[i]? = some entry → entry.1 < slot) :
    table.scan slot = .beyond := by
  have none : table.entries[table.size]? = none := Array.getElem?_eq_none le_rfl
  have skipped := @length_takeWhile_starts _ table slot _ (le_refl table.size)
    (fun i entry found _ => before i entry found)
    (fun entry impossible => by rw [none] at impossible; cases impossible)
  simp only [scan, skipped, none]

/-- The binary search answers by the position at which it ends. -/
theorem lookup_of_probe {position start : Nat} {value : α}
    (ended : table.probe slot 0 table.size = position)
    (found : table.entries[position]? = some (start, value)) :
    table.lookup slot =
      if start = slot then .found position value
      else
        let next := if start < slot then position + 1 else position
        if next = table.size then .beyond else .missing next := by
  simp only [lookup, ended, found]

/-- The binary search finds what a scan of all elements finds. -/
theorem Ordered.lookup_eq_scan (ordered : table.Ordered) (slot : Nat) :
    table.lookup slot = table.scan slot := by
  have whole : table.size = table.entries.size := rfl
  have parts : table.Parts slot (table.probe slot 0 table.size) := by
    refine ordered.parts_probe (by omega) (fun later entry found beyond => ?_) (.inl rfl)
    have inside := (Array.getElem?_eq_some_iff.mp found).1
    omega
  generalize ended : table.probe slot 0 table.size = position at parts
  cases found : table.entries[position]? with
  | none =>
      -- Nothing stands at the position only if it is the first one of a table without elements.
      have first : position = 0 := by
        rcases parts.reached with first | ⟨entry, atPosition, -⟩
        · exact first
        · rw [found] at atPosition
          cases atPosition
      have bare := Array.getElem?_eq_none_iff.mp found
      rw [scan_of_before fun i entry held => by
        have inside := (Array.getElem?_eq_some_iff.mp held).1
        omega]
      simp only [lookup, ended, found]
  | some entry =>
      obtain ⟨start, value⟩ := entry
      have inside := (Array.getElem?_eq_some_iff.mp found).1
      have earlier : ∀ i entry, table.entries[i]? = some entry → i < position → entry.1 < start :=
        fun i entry atEarlier before => ordered.start_lt before atEarlier found
      rw [lookup_of_probe ended found]
      rcases Nat.lt_trichotomy start slot with before | same | after
      · have upTo : ∀ i entry, table.entries[i]? = some entry → i < position + 1 →
            entry.1 < slot := by
          intro i entry atEarlier within
          rcases Nat.lt_succ_iff_lt_or_eq.mp within with strictly | rfl
          · exact (earlier i entry atEarlier strictly).trans before
          · rw [found] at atEarlier
            cases atEarlier
            exact before
        rw [if_neg before.ne, if_pos before]
        cases next : table.entries[position + 1]? with
        | none =>
            have last := Array.getElem?_eq_none_iff.mp next
            rw [if_pos (by omega), scan_of_before fun i entry held => upTo i entry held (by
              have inside := (Array.getElem?_eq_some_iff.mp held).1
              omega)]
        | some entry =>
            have more := (Array.getElem?_eq_some_iff.mp next).1
            have behind := parts.behind _ entry next (Nat.lt_succ_self _)
            rw [if_neg (by omega), scan_of_stops next upTo behind.le, if_neg behind.ne']
      · subst same
        rw [scan_of_stops found earlier le_rfl, if_pos rfl, if_pos rfl]
      · have first : position = 0 := by
          rcases parts.reached with first | ⟨entry, atPosition, notAfter⟩
          · exact first
          · rw [found] at atPosition
            cases atPosition
            exact absurd after notAfter.not_gt
        subst first
        have noneBefore : ∀ i entry, table.entries[i]? = some entry → i < 0 → entry.1 < slot :=
          fun i entry _ impossible => absurd impossible (Nat.not_lt_zero i)
        rw [scan_of_stops found noneBefore after.le, if_neg after.ne', if_neg after.not_gt,
          if_neg after.ne', if_neg (by omega)]

/-- An element is found at a slot exactly when it starts there. -/
theorem Ordered.get?_eq_some_iff (ordered : table.Ordered) {value : α} :
    table.get? slot = some value ↔ (slot, value) ∈ table.entries.toList := by
  rw [get?, ordered.lookup_eq_scan]
  constructor
  · intro got
    simp only [scan] at got
    split at got
    · cases got
    · next start held found =>
        split at got
        · next same =>
            cases got
            subst same
            exact Array.mem_toList_iff.mpr (Array.mem_of_getElem? found)
        · cases got
  · intro held
    obtain ⟨position, small, atPosition⟩ := List.mem_iff_getElem.mp held
    have found : table.entries[position]? = some (slot, value) := by
      rw [← atPosition]
      simp
    rw [scan_of_stops found (fun i entry earlier before => ordered.start_lt before earlier found)
      le_rfl, if_pos rfl]
    rfl

/-- Added elements leave the others at their slots. -/
theorem mem_entries_pushAll [Width α] {entry : Nat × α} (held : entry ∈ table.entries.toList)
    (added : List α) : entry ∈ (table.pushAll added).entries.toList := by
  induction added generalizing table with
  | nil => exact held
  | cons value rest ih =>
      have stays : entry ∈ (table.push value).entries.toList := by
        rw [SlotTable.push, Array.toList_push]
        exact List.mem_append_left _ held
      exact ih stays

/-- What is found at a slot is found there after elements are added. -/
theorem Ordered.get?_pushAll [Width α] (ordered : table.Ordered) {added : List α}
    (wide : ∀ value ∈ added, 0 < width value) {value : α} (found : table.get? slot = some value) :
    (table.pushAll added).get? slot = some value := by
  rw [(ordered.pushAll wide).get?_eq_some_iff]
  exact mem_entries_pushAll (ordered.get?_eq_some_iff.mp found) added

/-- An added element is found at the slot that was free before. -/
theorem Ordered.get?_push [Width α] (ordered : table.Ordered) {value : α}
    (wide : 0 < width value) : (table.push value).get? table.nextSlot = some value := by
  rw [(ordered.push wide).get?_eq_some_iff, SlotTable.push, Array.toList_push]
  exact List.mem_append_right _ List.mem_cons_self

end SlotTable

end ClassAccess
