import ClassAccess.ClassFile.Constant
import ClassAccess.Proofs.Placing

/-!
# Scanning a table

`Scanned` says what comparing a slot with every element of a table comes to: the element
that starts there, or else that all of them start before it, or else how many do. It
does not rely on the order of the elements. `lookup_scans` says that in a table made from
elements with a width these stand in order, and that the binary search answers for every
slot, also one before the first element, as such a scan does.
-/

namespace ClassAccess

namespace SlotTable

variable {α : Type} {table : SlotTable α} {slot : Nat}

/-- The elements are those at the positions. -/
theorem mem_entries_iff {entry : Nat × α} :
    entry ∈ table.entries.toList ↔
      ∃ position : Nat, table.entries[position]? = some entry := by
  rw [Array.mem_toList_iff, Array.mem_iff_getElem?]

/-- The number of elements that start before a slot. -/
def countBefore (table : SlotTable α) (slot : Nat) : Nat :=
  table.entries.toList.countP fun entry => entry.1 < slot

/-- What comparing a slot with every element comes to. -/
inductive Scanned (table : SlotTable α) (slot : Nat) : Lookup α → Prop where
  | found {position : Nat} {value : α}
      (starts : table.entries[position]? = some (slot, value)) :
      Scanned table slot (.found position value)
  | beyond (before : ∀ entry ∈ table.entries.toList, entry.1 < slot) :
      Scanned table slot .beyond
  | missing (elsewhere : ∀ entry ∈ table.entries.toList, entry.1 ≠ slot)
      (notBeyond : ¬∀ entry ∈ table.entries.toList, entry.1 < slot) :
      Scanned table slot (.missing (table.countBefore slot))

/-- Where entries start one after the other, those that start before a slot are in front. -/
theorem lt_countP_starts_iff {entries : List (Nat × α)}
    (ascending : entries.Pairwise fun earlier later => earlier.1 < later.1) {position : Nat}
    {entry : Nat × α} (held : entries[position]? = some entry) :
    position < (entries.countP fun entry => entry.1 < slot) ↔ entry.1 < slot := by
  induction entries generalizing position with
  | nil => cases held
  | cons first later ih =>
      obtain ⟨before, ascending⟩ := List.pairwise_cons.mp ascending
      by_cases starts : first.1 < slot
      · rw [List.countP_cons_of_pos (by simpa using starts)]
        cases position with
        | zero =>
            cases held
            simpa using starts
        | succ position =>
            rw [Nat.succ_lt_succ_iff]
            exact ih ascending held
      · -- Nothing behind an element that does not start before the slot does.
        have none : (first :: later).countP (fun entry => entry.1 < slot) = 0 := by
          rw [List.countP_eq_zero]
          intro other among
          rcases List.mem_cons.mp among with rfl | behind
          · simpa using starts
          · have after := before other behind
            rw [decide_eq_true_eq]
            omega
        have counted := List.countP_eq_zero.mp none entry (List.mem_of_getElem? held)
        rw [decide_eq_true_eq] at counted
        rw [none]
        exact iff_of_false (Nat.not_lt_zero position) counted

/-- In a table in order, an element starts before a slot exactly when its position is less than the
number of those that do. -/
theorem Ordered.lt_countBefore_iff (ordered : table.Ordered) {position : Nat}
    {entry : Nat × α} (held : table.entries[position]? = some entry) :
    position < table.countBefore slot ↔ entry.1 < slot :=
  lt_countP_starts_iff ordered.ascending (by rwa [Array.getElem?_toList])

/-- Unless all elements start before a slot, another one stands behind those that do. -/
theorem Ordered.exists_stop (ordered : table.Ordered)
    (notBeyond : ¬∀ entry ∈ table.entries.toList, entry.1 < slot) :
    ∃ entry, table.entries[table.countBefore slot]? = some entry ∧ slot ≤ entry.1 := by
  cases held : table.entries[table.countBefore slot]? with
  | none =>
      refine absurd (fun entry among => ?_) notBeyond
      obtain ⟨position, found⟩ := mem_entries_iff.mp among
      have inside := (Array.getElem?_eq_some_iff.mp found).1
      have short := Array.getElem?_eq_none_iff.mp held
      exact (ordered.lt_countBefore_iff found).mp (by omega)
  | some entry =>
      have stops := mt (ordered.lt_countBefore_iff held).mpr (Nat.lt_irrefl _)
      exact ⟨entry, rfl, Nat.le_of_not_lt stops⟩

/-- What the binary search answers is what comparing a slot with every element comes to. -/
theorem Ordered.scanned_lookup (ordered : table.Ordered) :
    table.Scanned slot (table.lookup slot) := by
  by_cases before : ∀ entry ∈ table.entries.toList, entry.1 < slot
  · rw [ordered.lookup_eq_scan, scan_of_before fun i entry held =>
      before entry (mem_entries_iff.mpr ⟨i, held⟩)]
    exact .beyond before
  · obtain ⟨⟨start, value⟩, stops, notBefore⟩ := ordered.exists_stop before
    have inFront : ∀ (i : Nat) (entry : Nat × α), table.entries[i]? = some entry →
        i < table.countBefore slot → entry.1 < slot :=
      fun i entry held small => (ordered.lt_countBefore_iff held).mp small
    rw [ordered.lookup_eq_scan, scan_of_stops stops inFront notBefore]
    by_cases same : start = slot
    · rw [if_pos same]
      subst same
      exact .found stops
    · rw [if_neg same]
      refine .missing (fun entry among => ?_) before
      obtain ⟨position, held⟩ := mem_entries_iff.mp among
      rcases Nat.lt_trichotomy position (table.countBefore slot) with front | rfl | behind
      · exact (inFront position entry held front).ne
      · cases stops.symm.trans held
        exact same
      · have after := ordered.start_lt behind stops held
        dsimp only at after notBefore
        omega

/-- Comparing a slot with elements in order comes to one thing only. -/
theorem Scanned.unique (ordered : table.Ordered) {first second : Lookup α}
    (scanned : table.Scanned slot first) (scannedToo : table.Scanned slot second) :
    first = second := by
  have among {position : Nat} {entry : Nat × α} (held : table.entries[position]? = some entry) :
      entry ∈ table.entries.toList := mem_entries_iff.mpr ⟨position, held⟩
  cases scanned with
  | @found position value starts =>
      cases scannedToo with
      | @found other _ startsToo =>
          rcases Nat.lt_trichotomy position other with before | rfl | after
          · exact absurd (ordered.start_lt before starts startsToo) (Nat.lt_irrefl _)
          · cases starts.symm.trans startsToo
            rfl
          · exact absurd (ordered.start_lt after startsToo starts) (Nat.lt_irrefl _)
      | beyond before => exact absurd (before _ (among starts)) (Nat.lt_irrefl _)
      | missing elsewhere _ => exact absurd rfl (elsewhere _ (among starts))
  | beyond before =>
      cases scannedToo with
      | found starts => exact absurd (before _ (among starts)) (Nat.lt_irrefl _)
      | beyond _ => rfl
      | missing _ notBeyond => exact absurd before notBeyond
  | missing elsewhere notBeyond =>
      cases scannedToo with
      | found starts => exact absurd rfl (elsewhere _ (among starts))
      | beyond before => exact absurd before notBeyond
      | missing _ _ => rfl

/-- The binary search answers what a comparison with every element comes to, and nothing else. -/
theorem Ordered.lookup_eq_iff_scanned (ordered : table.Ordered) {result : Lookup α} :
    table.lookup slot = result ↔ table.Scanned slot result := by
  constructor
  · rintro rfl
    exact ordered.scanned_lookup
  · exact ordered.scanned_lookup.unique ordered

/-- The elements are listed with their slots and positions. -/
theorem getElem?_toList (table : SlotTable α) (position : Nat) :
    table.toList[position]? =
      table.entries[position]?.map fun entry => (entry.1, position, entry.2) := by
  simp [toList, List.getElem?_zipIdx, Function.comp_def]

/-- Elements with a width start one after the other when they are added to a table without any. -/
theorem ordered_ofList [Width α] {start : Nat} {values : List α}
    (wide : ∀ value ∈ values, 0 < width value) : (ofList start values).Ordered :=
  (ordered_startingAt start).pushAll wide

end SlotTable

end ClassAccess
