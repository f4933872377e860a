import ClassAccess.Proofs.Placing
import ClassAccess.Proofs.Storage

/-!
# What the slots of a pool stand for

A slot of a pool stands for the constant that starts there, if one does: the
constants before it have used up the slots from 1 on. `Lacks` lists the four
reasons why no constant of a kind is found at a slot, `ReadsText` and
`ReadsClassName` what a slot is resolved to. `resolves_of_read` says that in every
pool that was read, resolving a slot has the results that these two allow and no
others.

How the bytes of a text are decoded is not looked into here.
-/

namespace ClassAccess.ClassFile

open Text SlotTable

/-- The kind of constant that others refer to by name, if it is of one. -/
def Constant.kind? : Constant → Option ReferenceKind
  | text _ => some .text
  | classRef _ => some .className
  | _ => none

/-- A constant that leaves a second slot behind its own. -/
inductive Constant.IsWide : Constant → Prop where
  | long (value : Int64) : IsWide (.long value)
  | double (bits : UInt64) : IsWide (.double bits)

/-- A wide constant occupies two slots. -/
theorem Constant.IsWide.width_eq {constant : Constant} (wide : constant.IsWide) :
    width constant = 2 := by
  cases wide <;> rfl

/-- A constant occupies two slots if it is wide, and otherwise one. -/
theorem Constant.isWide_or_width_eq (constant : Constant) :
    constant.IsWide ∨ width constant = 1 := by
  cases constant with
  | long value => exact .inl (.long value)
  | double bits => exact .inl (.double bits)
  | _ => exact .inr rfl

namespace Pool

variable {pool : Pool} {slot : Nat} {constant : Constant} {kind : ReferenceKind}

/-- A constant starts at a slot when those before it use up the slots from 1 on. -/
def HoldsAt (pool : Pool) (slot : Nat) (constant : Constant) : Prop :=
  ∃ before after, pool.values = before ++ constant :: after ∧
    slot = 1 + (before.map width).sum

/-- Why no constant of a kind is found at a slot: there is no slot 0, the slot is the second one
of a wide constant, it lies behind all constants, or a constant of another kind starts there. -/
inductive Lacks (pool : Pool) (kind : ReferenceKind) : Nat → Prop where
  | zero : Lacks pool kind 0
  | within {start : Nat} {constant : Constant} (held : pool.HoldsAt start constant)
      (wide : constant.IsWide) : Lacks pool kind (start + 1)
  | beyond {slot : Nat} (behind : pool.nextSlot ≤ slot) : Lacks pool kind slot
  | otherKind {slot : Nat} {constant : Constant} (held : pool.HoldsAt slot constant)
      (other : constant.kind? ≠ some kind) : Lacks pool kind slot

/-- What the text at a slot comes to. -/
inductive ReadsText (pool : Pool) (slot : UInt16) : Except Fault String → Prop where
  | decoded {bytes : List UInt8} {text : String} (held : pool.HoldsAt slot.toNat (.text bytes))
      (spelt : ModifiedUtf8.decode bytes = some text) : ReadsText pool slot (.ok text)
  | undecoded {bytes : List UInt8} (held : pool.HoldsAt slot.toNat (.text bytes))
      (misspelt : ModifiedUtf8.decode bytes = none) :
      ReadsText pool slot (.error (.badText slot))
  | lacking (lacks : pool.Lacks .text slot.toNat) :
      ReadsText pool slot (.error (.badReference slot .text))

/-- What the class name at a slot comes to. A fault of the name itself is one of its own slot. -/
inductive ReadsClassName (pool : Pool) (slot : UInt16) : Except Fault String → Prop where
  | named {name : UInt16} {result : Except Fault String}
      (held : pool.HoldsAt slot.toNat (.classRef name)) (read : pool.ReadsText name result) :
      ReadsClassName pool slot result
  | lacking (lacks : pool.Lacks .className slot.toNat) :
      ReadsClassName pool slot (.error (.badReference slot .className))

/-- A constant starts where it is placed. -/
theorem holdsAt_ofList_iff {constants : List Constant} :
    HoldsAt (SlotTable.ofList 1 constants) slot constant ↔ (slot, constant) ∈ placed 1 constants := by
  rw [HoldsAt, values_ofList, mem_placed_iff]

section Built

variable (built : ∃ constants, pool = SlotTable.ofList 1 constants)

include built

/-- The look-up finds the constant that starts at a slot. -/
theorem get?_eq_some_iff_holdsAt :
    pool.get? slot = some constant ↔ pool.HoldsAt slot constant := by
  obtain ⟨constants, rfl⟩ := built
  rw [get?_ofList_eq_some_iff fun constant _ => constant.width_pos, holdsAt_ofList_iff]

/-- No slot of a pool is taken up by two constants. -/
theorem eq_of_holdsAt {first second : Nat} {constant other : Constant}
    (held : pool.HoldsAt first constant) (heldToo : pool.HoldsAt second other)
    (takes : TakesUp (first, constant) slot) (takesToo : TakesUp (second, other) slot) :
    first = second ∧ constant = other := by
  obtain ⟨constants, rfl⟩ := built
  rw [holdsAt_ofList_iff] at held heldToo
  exact Prod.mk.inj (eq_of_takesUp held heldToo takes takesToo)

/-- A constant ends before the slots behind the pool. -/
theorem HoldsAt.lt_nextSlot (held : pool.HoldsAt slot constant) : slot < pool.nextSlot := by
  obtain ⟨constants, rfl⟩ := built
  have ended := le_end_of_mem_placed (holdsAt_ofList_iff.mp held)
  have positive := constant.width_pos
  rw [nextSlot_ofList]
  dsimp only at ended
  omega

/-- Where a constant of a kind is lacking, none starts. -/
theorem Lacks.kind?_ne (lacks : pool.Lacks kind slot) (held : pool.HoldsAt slot constant) :
    constant.kind? ≠ some kind := by
  cases lacks with
  | zero =>
      obtain ⟨before, after, -, started⟩ := held
      omega
  | @within start earlier heldBefore wide =>
      -- The second slot of the wide constant would be taken up twice.
      have takes : TakesUp (start, earlier) (start + 1) :=
        ⟨Nat.le_succ start, by simp [wide.width_eq]⟩
      have same :=
        (eq_of_holdsAt built heldBefore held takes (takesUp_start constant.width_pos)).1
      omega
  | beyond behind =>
      have before := HoldsAt.lt_nextSlot built held
      omega
  | @otherKind _ there heldThere other =>
      have same := (eq_of_holdsAt built heldThere held (takesUp_start there.width_pos)
        (takesUp_start constant.width_pos)).2
      rwa [← same]

/-- Where no constant of a kind starts, one is lacking. -/
theorem lacks_of_kind?_ne
    (none : ∀ constant, pool.HoldsAt slot constant → constant.kind? ≠ some kind) :
    pool.Lacks kind slot := by
  obtain ⟨constants, rfl⟩ := built
  by_cases first : slot = 0
  · rw [first]
    exact .zero
  by_cases behind : (SlotTable.ofList 1 constants).nextSlot ≤ slot
  · exact .beyond behind
  -- Some constant takes up the slot, with its first slot or with its second one.
  rw [nextSlot_ofList, Nat.not_le] at behind
  obtain ⟨⟨start, constant⟩, entry, before, after⟩ :=
    exists_takesUp (Nat.one_le_iff_ne_zero.mpr first) behind
  have held := holdsAt_ofList_iff.mpr entry
  dsimp only at before after
  rcases Nat.eq_or_lt_of_le before with rfl | later
  · exact .otherKind held (none constant held)
  · rcases constant.isWide_or_width_eq with wide | one
    · have two := wide.width_eq
      obtain rfl : slot = start + 1 := by omega
      exact .within held wide
    · omega

/-- A constant of a kind is lacking at a slot exactly when none starts there. -/
theorem lacks_iff : pool.Lacks kind slot ↔
    ∀ constant, pool.HoldsAt slot constant → constant.kind? ≠ some kind := by
  constructor
  · intro lacks constant held
    exact Lacks.kind?_ne built lacks held
  · exact lacks_of_kind?_ne built

/-- A text is resolved to what its slot stands for. -/
theorem text_eq_iff {slot : UInt16} {result : Except Fault String} :
    pool.text slot = result ↔ pool.ReadsText slot result := by
  constructor
  · rintro rfl
    unfold text
    split
    · next bytes found =>
        have held := (get?_eq_some_iff_holdsAt built).mp found
        split
        · next text spelt => exact .decoded held spelt
        · next misspelt => exact .undecoded held misspelt
    · next other =>
        refine .lacking ((lacks_iff built).mpr fun constant held => ?_)
        have found := (get?_eq_some_iff_holdsAt built).mpr held
        cases constant with
        | text bytes => exact absurd found (other bytes)
        | _ => simp [Constant.kind?]
  · rintro (⟨held, spelt⟩ | ⟨held, misspelt⟩ | lacks)
    · rw [text, (get?_eq_some_iff_holdsAt built).mpr held]
      simp only [spelt]
    · rw [text, (get?_eq_some_iff_holdsAt built).mpr held]
      simp only [misspelt]
    · unfold text
      split
      · next bytes found =>
          have held := (get?_eq_some_iff_holdsAt built).mp found
          exact absurd rfl ((lacks_iff built).mp lacks _ held)
      · rfl

/-- A class name is resolved to what its slot stands for. -/
theorem className_eq_iff {slot : UInt16} {result : Except Fault String} :
    pool.className slot = result ↔ pool.ReadsClassName slot result := by
  constructor
  · rintro rfl
    unfold className
    split
    · next name found =>
        exact .named ((get?_eq_some_iff_holdsAt built).mp found) ((text_eq_iff built).mp rfl)
    · next other =>
        refine .lacking ((lacks_iff built).mpr fun constant held => ?_)
        have found := (get?_eq_some_iff_holdsAt built).mpr held
        cases constant with
        | classRef name => exact absurd found (other name)
        | _ => simp [Constant.kind?]
  · rintro (⟨held, read⟩ | lacks)
    · rw [className, (get?_eq_some_iff_holdsAt built).mpr held]
      exact (text_eq_iff built).mpr read
    · unfold className
      split
      · next name found =>
          have held := (get?_eq_some_iff_holdsAt built).mp found
          exact absurd rfl ((lacks_iff built).mp lacks _ held)
      · rfl

end Built

/-- Resolving a slot has the results that it should have, and no constant of a kind is found there
for one of the four reasons exactly when none starts there. -/
structure Resolves (pool : Pool) (slot : UInt16) : Prop where
  texts : ∀ result, pool.text slot = result ↔ pool.ReadsText slot result
  classNames : ∀ result, pool.className slot = result ↔ pool.ReadsClassName slot result
  reasons : ∀ kind, pool.Lacks kind slot.toNat ↔
    ∀ constant, pool.HoldsAt slot.toNat constant → constant.kind? ≠ some kind

/-- All slots of a pool that was read are resolved to what they stand for. -/
theorem resolves_of_read {input rest : List UInt8} (read : Reads Pool.read input pool rest)
    (slot : UInt16) : pool.Resolves slot :=
  have built := (reads_pool.mp read).1.built
  ⟨fun _ => text_eq_iff built, fun _ => className_eq_iff built, fun _ => lacks_iff built⟩

/-- A pool with a wide constant, a text that cannot be decoded, and classes that lead to either. -/
def sample : Pool :=
  SlotTable.ofList 1 [.text [65], .long 7, .classRef 1, .text [255], .classRef 5, .classRef 3]

/-- The pool is read back from its stored form. -/
theorem reads_sample : Reads Pool.read sample.write sample [] := by
  refine reads_pool.mpr ⟨⟨⟨_, rfl⟩, by decide, ?_⟩, (List.append_nil _).symm⟩
  simp [sample, Constant.Storable]

/-- Its classes are named by a text, by one that cannot be decoded, and by the second slot of a
wide constant. -/
theorem resolves_of_read_sample :
    Reads Pool.read sample.write sample [] ∧ sample.ReadsClassName 4 (.ok "A") ∧
      sample.ReadsClassName 6 (.error (.badText 5)) ∧
      sample.ReadsClassName 7 (.error (.badReference 3 .text)) ∧
      sample.ReadsClassName 3 (.error (.badReference 3 .className)) :=
  ⟨reads_sample, ((resolves_of_read reads_sample 4).classNames _).mp (by decide +kernel),
    ((resolves_of_read reads_sample 6).classNames _).mp (by decide +kernel),
    ((resolves_of_read reads_sample 7).classNames _).mp (by decide +kernel),
    ((resolves_of_read reads_sample 3).classNames _).mp (by decide +kernel)⟩

end Pool

end ClassAccess.ClassFile
