import Mathlib.Data.List.Forall2

/-!
# Steps that may fail

A sequence of steps succeeds exactly when each step does, and fails with the
fault of the first step that fails. `EndsWithFirst` says this of a sequence whose
faults are listed in the order of its steps. This module is about results with a
fault of any type; it knows no step of its own.
-/

namespace ClassAccess

variable {ε α β : Type}

/-- Two steps succeed when the first one does, and the second one on its result. -/
theorem bind_eq_ok_iff {first : Except ε α} {next : α → Except ε β} {result : β} :
    (first >>= next) = .ok result ↔ ∃ value, first = .ok value ∧ next value = .ok result := by
  cases first with
  | error fault => simp [bind, Except.bind]
  | ok value => simp [bind, Except.bind]

/-- Two steps fail with the fault of the first one, or else with that of the second one. -/
theorem bind_eq_error_iff {first : Except ε α} {next : α → Except ε β} {fault : ε} :
    (first >>= next) = .error fault ↔
      first = .error fault ∨ ∃ value, first = .ok value ∧ next value = .error fault := by
  cases first with
  | error fault => simp [bind, Except.bind]
  | ok value => simp [bind, Except.bind]

/-- A step whose result is put into another form succeeds when the step does. -/
theorem map_eq_ok_iff {step : Except ε α} {apply : α → β} {result : β} :
    step.map apply = .ok result ↔ ∃ value, step = .ok value ∧ apply value = result := by
  cases step <;> simp [Except.map]

/-- A step whose fault is put into another form succeeds as the step does. -/
theorem mapError_eq_ok_iff {ω : Type} {step : Except ε α} {apply : ε → ω} {value : α} :
    step.mapError apply = .ok value ↔ step = .ok value := by
  cases step <;> simp [Except.mapError]

/-- A step whose result is put into another form fails as the step does. -/
theorem map_eq_error_iff {step : Except ε α} {apply : α → β} {fault : ε} :
    step.map apply = .error fault ↔ step = .error fault := by
  cases step <;> simp [Except.map]

/-- A step whose fault is put into another form fails with that form of the fault. -/
theorem mapError_eq_error_iff {ω : Type} {step : Except ε α} {apply : ε → ω} {fault : ω} :
    step.mapError apply = .error fault ↔ ∃ first, step = .error first ∧ apply first = fault := by
  cases step <;> simp [Except.mapError]

/-- A step succeeds unless it has a fault. -/
theorem exists_eq_ok_iff {step : Except ε α} :
    (∃ value, step = .ok value) ↔ ∀ fault, step ≠ .error fault := by
  cases step <;> simp

/-- When the second step fails in the same way on every result of the first, it fails when the
first one does not. -/
theorem bind_eq_error_iff_of_forall {first : Except ε α} {next : α → Except ε β}
    {fault : ε} {failed : Prop} (same : ∀ value, next value = .error fault ↔ failed) :
    (first >>= next) = .error fault ↔
      first = .error fault ∨ (∀ other, first ≠ .error other) ∧ failed := by
  simp only [bind_eq_error_iff, same, exists_and_right, exists_eq_ok_iff]

/-- Steps over a list succeed when each of them does, and give the results in order. -/
theorem mapM_eq_ok_iff {step : α → Except ε β} {values : List α} {results : List β} :
    values.mapM step = .ok results ↔
      List.Forall₂ (fun value result => step value = .ok result) values results := by
  induction values generalizing results with
  | nil =>
      rw [List.mapM_nil, List.forall₂_nil_left_iff]
      constructor
      · intro same
        cases same
        rfl
      · rintro rfl
        rfl
  | cons value values ih =>
      rw [List.mapM_cons, List.forall₂_cons_left_iff]
      simp only [bind_eq_ok_iff, ih]
      constructor
      · rintro ⟨first, head, later, tail, same⟩
        cases same
        exact ⟨first, later, head, tail, rfl⟩
      · rintro ⟨first, later, head, tail, rfl⟩
        exact ⟨first, head, later, tail, rfl⟩

/-- The results of steps over a list are the results of the steps. -/
theorem mem_of_mapM_eq_ok {step : α → Except ε β} {values : List α} {results : List β}
    (ran : values.mapM step = .ok results) {result : β} :
    result ∈ results ↔ ∃ value ∈ values, step value = .ok result := by
  induction mapM_eq_ok_iff.mp ran with
  | nil => simp
  | cons head tail ih =>
      rw [List.mem_cons, ih (mapM_eq_ok_iff.mpr tail), List.exists_mem_cons_iff, head,
        Except.ok.injEq, eq_comm]

/-- Steps over a list succeed together when each of them does. -/
theorem exists_mapM_eq_ok_iff {step : α → Except ε β} {values : List α} :
    (∃ results, values.mapM step = .ok results) ↔
      ∀ value ∈ values, ∃ result, step value = .ok result := by
  simp only [mapM_eq_ok_iff]
  induction values with
  | nil => exact ⟨fun _ => List.forall_mem_nil _, fun _ => ⟨[], .nil⟩⟩
  | cons value values ih =>
      simp only [List.forall_mem_cons, ← ih, List.forall₂_cons_left_iff]
      constructor
      · rintro ⟨_, result, results, head, tail, rfl⟩
        exact ⟨⟨result, head⟩, results, tail⟩
      · rintro ⟨⟨result, head⟩, results, tail⟩
        exact ⟨_, result, results, head, tail, rfl⟩

/-- Steps over a list fail with the fault of the first one that does. -/
theorem mapM_eq_error_iff {step : α → Except ε β} {values : List α} {fault : ε} :
    values.mapM step = .error fault ↔ ∃ before value after, values = before ++ value :: after ∧
      (∀ earlier ∈ before, ∃ result, step earlier = .ok result) ∧ step value = .error fault := by
  induction values with
  | nil =>
      constructor
      · intro done
        cases done
      · rintro ⟨before, value, after, impossible, -⟩
        simp at impossible
  | cons value values ih =>
      rw [List.mapM_cons, bind_eq_error_iff]
      constructor
      · rintro (failed | ⟨first, head, stopped⟩)
        · exact ⟨[], value, values, rfl, List.forall_mem_nil _, failed⟩
        · rcases bind_eq_error_iff.mp stopped with failed | ⟨later, -, impossible⟩
          · obtain ⟨before, other, after, rfl, each, failed⟩ := ih.mp failed
            exact ⟨value :: before, other, after, rfl,
              List.forall_mem_cons.mpr ⟨⟨first, head⟩, each⟩, failed⟩
          · cases impossible
      · rintro ⟨before, other, after, cut, each, failed⟩
        cases before with
        | nil =>
            cases cut
            exact .inl failed
        | cons _ before =>
            cases cut
            rw [List.forall_mem_cons] at each
            obtain ⟨⟨first, head⟩, each⟩ := each
            exact .inr ⟨first, head,
              bind_eq_error_iff.mpr (.inl (ih.mpr ⟨before, other, after, rfl, each, failed⟩))⟩

/-- Steps that also change a state go on from the result and the state that the first one left,
unless that step failed. -/
theorem run_bind {σ : Type} (first : ExceptT ε (StateM σ) α)
    (next : α → ExceptT ε (StateM σ) β) (state : σ) :
    (first >>= next).run.run state =
      match first.run.run state with
      | (.ok value, later) => (next value).run.run later
      | (.error fault, later) => (.error fault, later) := by
  rw [ExceptT.run_bind, StateT.run_bind]
  cases ran : first.run.run state with
  | mk result later =>
      cases result with
      | ok value => rfl
      | error fault => rfl

/-- Asking for the state changes nothing. -/
theorem run_get_bind {σ : Type} (next : σ → ExceptT ε (StateM σ) α) (state : σ) :
    (get >>= next).run.run state = (next state).run.run state := rfl

/-- The faults of a step and of what follows it, which is not reached when the step fails. -/
def faultsThen (first : Except ε α) (later : α → List ε) : List ε :=
  match first with
  | .error fault => [fault]
  | .ok value => later value

/-- The faults of a single step. -/
def faultsOf (step : Except ε α) : List ε := faultsThen step fun _ => []

/-- A result is the first of some faults if there are any, and a success otherwise. -/
def EndsWithFirst (result : Except ε α) (faults : List ε) : Prop :=
  ∀ fault, result = .error fault ↔ faults.head? = some fault

namespace EndsWithFirst

variable {result : Except ε α} {faults early late : List ε}

/-- A success has no fault. -/
theorem ofOk (value : α) : EndsWithFirst (.ok value : Except ε α) [] := by
  intro fault
  simp

/-- Without faults the result is a success. -/
theorem exists_ok_iff (ends : EndsWithFirst result faults) :
    (∃ value, result = .ok value) ↔ faults = [] := by
  cases result with
  | error fault =>
      have first := (ends fault).mp rfl
      constructor
      · rintro ⟨value, impossible⟩
        cases impossible
      · rintro rfl
        cases first
  | ok value =>
      refine ⟨fun _ => ?_, fun _ => ⟨value, rfl⟩⟩
      cases faults with
      | nil => rfl
      | cons fault later => cases (ends fault).mpr rfl

/-- What follows a step is reached when the step succeeds. -/
theorem bindThen {first : Except ε α} {next : α → Except ε β} {later : α → List ε}
    (ends : ∀ value, first = .ok value → EndsWithFirst (next value) (later value)) :
    EndsWithFirst (first >>= next) (faultsThen first later) := by
  cases first with
  | error earliest =>
      intro fault
      simp [bind, Except.bind, faultsThen]
  | ok value => exact ends value rfl

/-- A single step ends with its own fault. -/
theorem single (first : Except ε α) : EndsWithFirst first (faultsOf first) := by
  have alone : EndsWithFirst (first >>= Except.ok) (faultsOf first) :=
    bindThen fun value _ => ofOk value
  cases first <;> exact alone

/-- The faults of a second step count when the first step has none. -/
theorem bind {first : Except ε α} {next : α → Except ε β} (ofFirst : EndsWithFirst first early)
    (ofNext : ∀ value, first = .ok value → EndsWithFirst (next value) late) :
    EndsWithFirst (first >>= next) (early ++ late) := by
  cases first with
  | error earliest =>
      have stopped := (ofFirst earliest).mp rfl
      intro fault
      rw [List.head?_append, stopped]
      simp [Bind.bind, Except.bind]
  | ok value =>
      have none : early = [] := ofFirst.exists_ok_iff.mp ⟨value, rfl⟩
      rw [none]
      exact ofNext value rfl

/-- The faults of steps over a list come in the order of the list. -/
theorem mapM {step : α → Except ε β} {faults : α → List ε} {values : List α}
    (ends : ∀ value, EndsWithFirst (step value) (faults value)) :
    EndsWithFirst (values.mapM step) (values.flatMap faults) := by
  induction values with
  | nil => exact ofOk []
  | cons value values ih =>
      rw [List.mapM_cons, List.flatMap_cons]
      refine (ends value).bind fun first _ => ?_
      rw [← List.append_nil (values.flatMap faults)]
      exact ih.bind fun later _ => ofOk (first :: later)

end EndsWithFirst

end ClassAccess
