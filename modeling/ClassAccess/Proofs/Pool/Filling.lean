import ClassAccess.Proofs.Pool.Lookup
import ClassAccess.Proofs.ReadingFaults

/-!
# How a pool is read

A pool is read one constant at a time, as long as slots are left below the count in
front of it. `Fills` is a run of such turns and `Stops` says why there is no further
one. For all bytes there is a run that stops, with what the reader gives.

`readsExactly` draws from it what the reader answers: a pool that ends at its count
and is stored as the bytes that were taken, an unknown tag with the slot that its
constant was to occupy, or an end that the last constant overruns by one slot. The
other faults, of bytes that end too early and of unknown kinds of handles, are those
of the parts of a constant and are not located.
-/

namespace ClassAccess.ClassFile

open SlotTable

namespace Pool

variable {count : Nat} {constants : List Constant} {pool last : Pool}
  {input left : List UInt8} {outcome : Except Fault (Pool × List UInt8)}

/-- Turns that read constants behind those of a pool, each with a slot left below the count. -/
inductive Fills (count : Nat) :
    List Constant → Pool → List UInt8 → Pool → List UInt8 → Prop where
  | done {pool : Pool} {input : List UInt8} : Fills count [] pool input pool input
  | turn {constant : Constant} {constants : List Constant} {pool last : Pool}
      {input middle left : List UInt8} (room : pool.nextSlot < count)
      (read : Reads (Constant.readAt pool.nextSlot) input constant middle)
      (later : Fills count constants (pool.push constant) middle last left) :
      Fills count (constant :: constants) pool input last left

/-- Why no further constant is read: the counted slots are used, or there is a fault. -/
inductive Stops (count : Nat) (pool : Pool) (input : List UInt8) :
    Except Fault (Pool × List UInt8) → Prop where
  | full (used : count ≤ pool.nextSlot) : Stops count pool input (.ok (pool, input))
  | broken {fault : Fault} (room : pool.nextSlot < count)
      (failed : (Constant.readAt pool.nextSlot).run input = .error fault) :
      Stops count pool input (.error fault)

/-- For all bytes there are turns up to a stop, with the outcome of the reader. -/
theorem exists_fills (count : Nat) (pool : Pool) (input : List UInt8) :
    ∃ constants last left, Fills count constants pool input last left ∧
      Stops count last left ((readOnto count pool).run input) := by
  fun_induction readOnto count pool generalizing input with
  | case1 pool room ih =>
      cases ran : (Constant.readAt pool.nextSlot).run input with
      | error fault =>
          refine ⟨[], pool, input, .done, ?_⟩
          rw [StateT.run_bind, ran]
          exact .broken room ran
      | ok taken =>
          obtain ⟨constant, middle⟩ := taken
          obtain ⟨constants, last, left, fills, stops⟩ := ih constant middle
          refine ⟨constant :: constants, last, left, .turn room ran fills, ?_⟩
          rw [StateT.run_bind, ran]
          exact stops
  | case2 pool full => exact ⟨[], pool, input, .done, .full (Nat.le_of_not_lt full)⟩

/-- Turns up to a stop are those of the reader. -/
theorem Fills.run_readOnto (fills : Fills count constants pool input last left)
    (stops : Stops count last left outcome) : (readOnto count pool).run input = outcome := by
  induction fills with
  | @done pool input =>
      rw [readOnto]
      cases stops with
      | full used =>
          rw [if_neg (Nat.not_lt.mpr used)]
          rfl
      | broken room failed =>
          rw [if_pos room]
          exact run_bind_eq_error_iff.mpr (.inl failed)
  | @turn constant constants pool last input middle left room read later ih =>
      have ran := read
      rw [readOnto, if_pos room, StateT.run_bind, show _ = _ from ran]
      exact ih stops

/-- The outcome of the reader is that of a stop which turns lead to. -/
theorem run_readOnto_eq_iff : (readOnto count pool).run input = outcome ↔
    ∃ constants last left, Fills count constants pool input last left ∧
      Stops count last left outcome := by
  constructor
  · rintro rfl
    exact exists_fills count pool input
  · rintro ⟨constants, last, left, fills, stops⟩
    exact fills.run_readOnto stops

/-- Turns lead to a pool exactly when it has the constants behind the others, their stored forms
are what is taken, and each of them found a slot left below the count. -/
theorem fills_iff : Fills count constants pool input last left ↔
    last = pool.pushAll constants ∧ input = constants.flatMap Constant.write ++ left ∧
      (∀ constant ∈ constants, constant.Storable) ∧
      ∀ before constant after, constants = before ++ constant :: after →
        (pool.pushAll before).nextSlot < count := by
  constructor
  · intro fills
    induction fills with
    | done => exact ⟨rfl, rfl, List.forall_mem_nil _, by simp⟩
    | @turn constant constants pool last input middle left room read later ih =>
        obtain ⟨storable, rfl⟩ := Constant.reads_readAt.mp read
        obtain ⟨rfl, rfl, storables, rooms⟩ := ih
        refine ⟨rfl, by simp, List.forall_mem_cons.mpr ⟨storable, storables⟩, ?_⟩
        rintro (_ | ⟨first, before⟩) other after whole
        · exact room
        · obtain ⟨rfl, same⟩ := List.cons.inj whole
          exact rooms before other after same
  · rintro ⟨rfl, rfl, storables, rooms⟩
    induction constants generalizing pool with
    | nil => exact .done
    | cons constant later ih =>
        rw [List.forall_mem_cons] at storables
        refine .turn (rooms [] constant later rfl) ?_ (ih storables.2 fun before other after whole => ?_)
        · exact Constant.reads_readAt.mpr ⟨storables.1, by simp⟩
        · exact rooms (constant :: before) other after (by rw [whole, List.cons_append])

/-- No more turns are taken than slots are left. -/
theorem Fills.length_le (fills : Fills count constants pool input last left) :
    constants.length ≤ count - pool.nextSlot := by
  induction fills with
  | done => exact Nat.zero_le _
  | @turn constant constants pool last input middle left room read later ih =>
      have positive := constant.width_pos
      rw [nextSlot_push] at ih
      rw [List.length_cons]
      omega

variable {rest : List UInt8} {slot : Nat}

/-- Bytes with a count in front and then the stored forms of constants that use up the slots before
one, with other bytes behind them. -/
structure Begins (input : List UInt8) (count : UInt16) (constants : List Constant) (slot : Nat)
    (rest : List UInt8) : Prop where
  stored : input = Codec.write count ++ constants.flatMap Constant.write ++ rest
  storable : ∀ constant ∈ constants, constant.Storable
  slots : slot = 1 + (constants.map width).sum

/-- Constants take their pool from 1 on to the slot that is given with them. -/
theorem Begins.nextSlot_eq {count : UInt16} (begins : Begins input count constants slot rest) :
    (empty.pushAll constants).nextSlot = slot := by
  rw [nextSlot_pushAll, begins.slots]
  rfl

/-- A pool has a further slot for every constant that is added to it. -/
theorem nextSlot_pushAll_lt (pool : Pool) (before : List Constant) (constant : Constant)
    (after : List Constant) :
    (pool.pushAll before).nextSlot < (pool.pushAll (before ++ constant :: after)).nextSlot := by
  have positive := constant.width_pos
  simp only [nextSlot_pushAll, List.map_append, List.map_cons, List.sum_append, List.sum_cons]
  omega

/-- The last constant that is added uses up the slots that it is wide. -/
theorem nextSlot_pushAll_singleton (pool : Pool) (constants : List Constant) (last : Constant) :
    (pool.pushAll (constants ++ [last])).nextSlot =
      (pool.pushAll constants).nextSlot + width last := by
  simp [Nat.add_assoc]

/-- No constant starts behind the last one. -/
theorem nextSlot_pushAll_le (pool : Pool) {before after : List Constant} {last constant : Constant}
    (whole : constants ++ [last] = before ++ constant :: after) :
    (pool.pushAll before).nextSlot ≤ (pool.pushAll constants).nextSlot := by
  rcases List.eq_nil_or_concat' after with rfl | ⟨more, final, rfl⟩
  · obtain ⟨rfl, -⟩ := List.append_inj' whole rfl
    exact le_rfl
  · rw [← List.cons_append, ← List.append_assoc] at whole
    obtain ⟨rfl, -⟩ := List.append_inj' whole rfl
    exact (nextSlot_pushAll_lt pool before constant more).le

/-- Constants in front are read, if there is a slot for each of them. -/
theorem Begins.fills {count : UInt16} (begins : Begins input count constants slot rest)
    (rooms : ∀ before constant after, constants = before ++ constant :: after →
      (empty.pushAll before).nextSlot < count.toNat) :
    ∃ body, input = Codec.write count ++ body ∧
      Fills count.toNat constants empty body (empty.pushAll constants) rest := by
  refine ⟨constants.flatMap Constant.write ++ rest, ?_, ?_⟩
  · rw [begins.stored, List.append_assoc]
  · exact fills_iff.mpr ⟨rfl, rfl, begins.storable, rooms⟩

/-- Constants that were read stand in front. -/
theorem Fills.begins {count : UInt16} {limit : Nat} {body : List UInt8}
    (fills : Fills limit constants empty body last left) :
    Begins (Codec.write count ++ body) count constants last.nextSlot left := by
  obtain ⟨rfl, rfl, storables, -⟩ := fills_iff.mp fills
  refine ⟨(List.append_assoc ..).symm, storables, ?_⟩
  rw [nextSlot_pushAll]
  rfl

/-- An unknown tag behind some constants, with a slot left below the count. -/
inductive MeetsUnknownTag (input : List UInt8) (tag : UInt8) (slot : Nat) : Prop where
  | intro {count : UInt16} {constants : List Constant} {rest : List UInt8}
      (begins : Begins input count constants slot (tag :: rest)) (room : slot < count.toNat)
      (unknown : ¬ Constant.IsTag tag) : MeetsUnknownTag input tag slot

/-- An end behind the counted slots: not even slot 0 is counted, or the last constant is wide and
starts at the last counted slot. -/
inductive Overruns (input : List UInt8) : UInt16 → Nat → Prop where
  | uncounted {rest : List UInt8} (begins : Begins input 0 [] 1 rest) : Overruns input 0 1
  | wide {count : UInt16} {constants : List Constant} {last : Constant} {start : Nat}
      {rest : List UInt8} (begins : Begins input count (constants ++ [last]) (start + 2) rest)
      (wide : last.IsWide) (starts : start + 1 = count.toNat) :
      Overruns input count (count.toNat + 1)

/-- Turns that end behind the counted slots leave such an end. -/
theorem Fills.overruns {count : UInt16} {body : List UInt8}
    (fills : Fills count.toNat constants empty body last left) (behind : count.toNat < last.nextSlot) :
    Overruns (Codec.write count ++ body) count last.nextSlot := by
  have begins : Begins (Codec.write count ++ body) count constants last.nextSlot left :=
    fills.begins
  obtain ⟨rfl, -, -, rooms⟩ := fills_iff.mp fills
  rcases List.eq_nil_or_concat' constants with rfl | ⟨front, final, rfl⟩
  · obtain rfl : count = 0 := UInt16.toNat.inj (Nat.lt_one_iff.mp behind)
    exact .uncounted begins
  · have room := rooms front final [] rfl
    have step := nextSlot_pushAll_singleton empty front final
    rcases final.isWide_or_width_eq with wide | one
    · have two := wide.width_eq
      -- Of the two slots of the last constant the first one is the last that is counted.
      have starts : (empty.pushAll front).nextSlot + 1 = count.toNat := by omega
      have ended : (empty.pushAll (front ++ [final])).nextSlot = count.toNat + 1 := by omega
      rw [step, two] at begins
      rw [ended]
      exact .wide begins wide starts
    · omega

/-- Such an end is reached in turns. -/
theorem Overruns.exists_fills {count : UInt16} {ending : Nat} (overruns : Overruns input count ending) :
    ∃ body constants last left, input = Codec.write count ++ body ∧
      Fills count.toNat constants empty body last left ∧ count.toNat < last.nextSlot ∧
      ending = last.nextSlot := by
  cases overruns with
  | uncounted begins =>
      obtain ⟨body, stored, fills⟩ := begins.fills (by simp)
      exact ⟨body, _, _, _, stored, fills, Nat.one_pos, rfl⟩
  | @wide count constants final start rest begins wide starts =>
      have ended := begins.nextSlot_eq
      have step := nextSlot_pushAll_singleton empty constants final
      rw [wide.width_eq] at step
      obtain ⟨body, stored, fills⟩ := begins.fills fun before constant after whole => by
        have reached := nextSlot_pushAll_le empty whole
        omega
      exact ⟨body, _, _, _, stored, fills, by omega, by omega⟩

/-- At its end a pool is refused exactly when that is not the end that was counted. -/
theorem run_ended_eq_error_iff {count : UInt16} {fault : Fault} :
    StateT.run (if last.nextSlot = count.toNat then return last
      else throw (.poolOverrun count last.nextSlot) : Reader Pool) left = .error fault ↔
    last.nextSlot ≠ count.toNat ∧ fault = .poolOverrun count last.nextSlot := by
  by_cases exact : last.nextSlot = count.toNat
  · rw [if_pos exact]
    constructor
    · intro failed
      cases failed
    · rintro ⟨inexact, -⟩
      exact absurd exact inexact
  · rw [if_neg exact]
    constructor
    · intro failed
      cases failed
      exact ⟨exact, rfl⟩
    · rintro ⟨-, rfl⟩
      rfl

/-- Reading a pool fails in its count, in a constant, or at an end behind the counted slots. -/
theorem run_read_eq_error_iff {fault : Fault} : Pool.read.run input = .error fault ↔
    (Codec.read : Reader UInt16).run input = .error fault ∨
      ∃ (count : UInt16) (body : List UInt8), input = Codec.write count ++ body ∧
        ((readOnto count.toNat empty).run body = .error fault ∨
          ∃ last left, (readOnto count.toNat empty).run body = .ok (last, left) ∧
            last.nextSlot ≠ count.toNat ∧ fault = .poolOverrun count last.nextSlot) := by
  rw [Pool.read, run_bind_eq_error_iff]
  refine or_congr_right (exists_congr fun count => exists_congr fun body => ?_)
  rw [run_bind_eq_error_iff]
  simp only [run_ended_eq_error_iff]
  constructor
  · rintro ⟨taken, failed⟩
    exact ⟨(reads_read.mp taken).2, failed⟩
  · rintro ⟨stored, failed⟩
    exact ⟨reads_read.mpr ⟨trivial, stored⟩, failed⟩

/-- A tag is reported as unknown exactly when it is met, with the slot that its constant was to
occupy. -/
theorem run_read_eq_unknownTag_iff {tag : UInt8} :
    Pool.read.run input = .error (.unknownTag tag slot) ↔ MeetsUnknownTag input tag slot := by
  constructor
  · intro failed
    rcases run_read_eq_error_iff.mp failed with short | ⟨count, body, rfl, broken | overrun⟩
    · cases PartCodec.failsWith _ _ short
    · obtain ⟨constants, last, left, fills, stops⟩ := exists_fills count.toNat empty body
      rw [broken] at stops
      cases stops with
      | broken room failed =>
          obtain ⟨rfl, unknown, rest, rfl⟩ := Constant.run_readAt_eq_unknownTag_iff.mp failed
          exact ⟨fills.begins, room, unknown⟩
    · obtain ⟨_, _, -, -, impossible⟩ := overrun
      cases impossible
  · rintro ⟨begins, room, unknown⟩
    obtain rfl := begins.nextSlot_eq
    obtain ⟨body, rfl, fills⟩ := begins.fills fun before constant after whole =>
      (whole ▸ nextSlot_pushAll_lt empty before constant after).trans room
    refine run_read_eq_error_iff.mpr (.inr ⟨_, body, rfl, .inl (fills.run_readOnto ?_)⟩)
    exact .broken room (Constant.run_readAt_eq_unknownTag_iff.mpr ⟨rfl, unknown, _, rfl⟩)

/-- An end behind the counted slots is reported exactly when there is one, with the slot after it. -/
theorem run_read_eq_poolOverrun_iff {count : UInt16} {ending : Nat} :
    Pool.read.run input = .error (.poolOverrun count ending) ↔ Overruns input count ending := by
  constructor
  · intro failed
    rcases run_read_eq_error_iff.mp failed with short | ⟨declared, body, rfl, broken | overrun⟩
    · cases PartCodec.failsWith _ _ short
    · obtain ⟨constants, last, left, fills, stops⟩ := exists_fills declared.toNat empty body
      rw [broken] at stops
      cases stops with
      | broken room failed =>
          rcases Constant.run_readAt_eq_error failed with ofPart | ⟨_, _, -, -, impossible⟩
          · cases ofPart
          · cases impossible
    · obtain ⟨last, left, ran, inexact, same⟩ := overrun
      obtain ⟨constants, _, _, fills, stops⟩ := run_readOnto_eq_iff.mp ran
      cases stops with
      | full used =>
          cases same
          exact fills.overruns (Nat.lt_of_le_of_ne used inexact.symm)
  · intro overruns
    obtain ⟨body, constants, last, left, rfl, fills, behind, reached⟩ := overruns.exists_fills
    refine run_read_eq_error_iff.mpr (.inr ⟨count, body, rfl, .inr ⟨last, left, ?_, ?_, ?_⟩⟩)
    · exact fills.run_readOnto (.full behind.le)
    · exact behind.ne'
    · rw [reached]

/-- A pool that was read with some count in front: it ends at the count, its constants stand one
behind the other from slot 1 on, and it is stored as the bytes that were taken. -/
structure Filled (input : List UInt8) (count : UInt16) (pool : Pool) (rest : List UInt8) : Prop where
  declared : ∃ body, input = Codec.write count ++ body
  counted : 1 ≤ count.toNat
  ended : pool.nextSlot = count.toNat
  placed : ∀ position : Nat, pool.entries.toList[position]? =
    pool.values[position]?.map fun constant =>
      (1 + ((pool.values.take position).map width).sum, constant)
  stored : input = pool.write ++ rest

/-- What is read was filled. -/
theorem filled_of_reads (read : Reads Pool.read input pool rest) :
    ∃ count, Filled input count pool rest := by
  obtain ⟨storable, stored⟩ := reads_pool.mp read
  have bound := storable.counted
  have exact : (UInt16.ofNat pool.nextSlot).toNat = pool.nextSlot :=
    UInt16.toNat_ofNat_of_lt' (Nat.lt_succ_of_le bound)
  obtain ⟨constants, rfl⟩ := storable.built
  refine ⟨UInt16.ofNat (SlotTable.ofList 1 constants).nextSlot, ?_, ?_, exact.symm, ?_, stored⟩
  · exact ⟨_, by rw [stored, write, List.append_assoc]⟩
  · rw [exact, nextSlot_ofList]
    omega
  · intro position
    rw [entries_ofList, values_ofList, getElem?_placed]

/-- The loop behind a count: some turns lead to a stop with the outcome of the reader, no turns are
more than the count allows, and each of their slots is a number of two bytes. -/
structure Terminates (count : UInt16) (body : List UInt8) : Prop where
  ends : ∃ constants last left, Fills count.toNat constants empty body last left ∧
    Stops count.toNat last left ((readOnto count.toNat empty).run body)
  bounded : ∀ constants last left, Fills count.toNat constants empty body last left →
    constants.length ≤ count.toNat - 1
  numbered : ∀ constants last left, Fills count.toNat constants empty body last left →
    last.nextSlot < count.toNat → (UInt16.ofNat last.nextSlot).toNat = last.nextSlot

/-- The loop ends behind every count. -/
theorem terminates (count : UInt16) (body : List UInt8) : Terminates count body where
  ends := exists_fills count.toNat empty body
  bounded _ _ _ fills := fills.length_le
  numbered _ _ _ _ room := UInt16.toNat_ofNat_of_lt' (room.trans count.toNat_lt)

/-- What reading a pool from some bytes comes to. -/
structure ReadsExactly (input : List UInt8) : Prop where
  filled : ∀ pool rest, Reads Pool.read input pool rest → ∃ count, Filled input count pool rest
  unknownTag : ∀ tag slot,
    Pool.read.run input = .error (.unknownTag tag slot) ↔ MeetsUnknownTag input tag slot
  poolOverrun : ∀ count ending,
    Pool.read.run input = .error (.poolOverrun count ending) ↔ Overruns input count ending
  terminates : ∀ (count : UInt16) (body : List UInt8), input = Codec.write count ++ body →
    Terminates count body

/-- Pools are read exactly, whatever the bytes. -/
theorem readsExactly (input : List UInt8) : ReadsExactly input where
  filled _ _ := filled_of_reads
  unknownTag _ _ := run_read_eq_unknownTag_iff
  poolOverrun _ _ := run_read_eq_poolOverrun_iff
  terminates count body _ := Pool.terminates count body

/-- A count of 3 holds an integer and lets a tag 2 stand at slot 2. It does not hold an integer and
a wide constant behind it, and a count of 0 holds nothing. -/
theorem readsExactly_counts :
    MeetsUnknownTag [0, 3, 3, 0, 0, 0, 7, 2] 2 2 ∧
      Overruns [0, 3, 3, 0, 0, 0, 7, 6, 0, 0, 0, 0, 0, 0, 0, 0] 3 4 ∧ Overruns [0, 0, 9] 0 1 :=
  ⟨((readsExactly _).unknownTag 2 2).mp (by with_unfolding_all rfl),
    ((readsExactly _).poolOverrun 3 4).mp (by with_unfolding_all rfl),
    ((readsExactly _).poolOverrun 0 1).mp (by with_unfolding_all rfl)⟩

end Pool

end ClassAccess.ClassFile
