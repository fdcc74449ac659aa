import Mathlib.Data.List.Forall2

/-!
# Outcomes of computations

What a computation that succeeds or fails tells of the computations that it is made of.
-/

namespace SchemaCodec.Outcome

/-- A computation in two steps succeeds when both steps do. -/
theorem bind_eq_ok {first : Except ε α} {next : α → Except ε β} {result : β} :
    (first >>= next) = .ok result ↔ ∃ middle, first = .ok middle ∧ next middle = .ok result := by
  cases first with
  | error error => simp [bind, Except.bind]
  | ok middle => simp [bind, Except.bind]

/-- Telling an error differently does not concern success. -/
theorem mapError_eq_ok {outcome : Except ε α} {convert : ε → δ} {result : α} :
    outcome.mapError convert = .ok result ↔ outcome = .ok result := by
  cases outcome <;> simp [Except.mapError]

/-- Computations in a row succeed when all of them do.

Proof: by induction on the items; the first one and all the others succeed apart. -/
theorem mapM_eq_ok {step : α → Except ε β} {items : List α} {results : List β} :
    items.mapM step = .ok results ↔
      List.Forall₂ (fun result item => step item = .ok result) results items := by
  induction items generalizing results with
  | nil =>
    rw [List.mapM_nil, List.forall₂_nil_right_iff]
    exact ⟨fun same => (Except.ok.inj same).symm, fun same => congrArg Except.ok same.symm⟩
  | cons item rest inductionHypothesis =>
    rw [List.mapM_cons, bind_eq_ok]
    simp only [bind_eq_ok, inductionHypothesis]
    constructor
    · rintro ⟨result, here, others, there, same⟩
      obtain rfl : result :: others = results := Except.ok.inj same
      exact .cons here there
    · intro all
      cases all with
      | cons here there => exact ⟨_, here, _, there, rfl⟩

/-- Checks in a row succeed when all of them do. -/
theorem forM_eq_ok {step : α → Except ε Unit} {items : List α} :
    items.forM step = .ok () ↔ ∀ item ∈ items, step item = .ok () := by
  induction items with
  | nil => exact ⟨fun _ => by simp, fun _ => rfl⟩
  | cons item rest inductionHypothesis =>
    have unfolded : (item :: rest).forM step = step item >>= fun _ => rest.forM step := rfl
    rw [unfolded, bind_eq_ok, List.forall_mem_cons, inductionHypothesis]
    exact ⟨fun ⟨_, here, there⟩ => ⟨here, there⟩, fun ⟨here, there⟩ => ⟨(), here, there⟩⟩

/-- A computation in two steps fails when one of its steps does. -/
theorem bind_eq_error {first : Except ε α} {next : α → Except ε β} {error : ε} :
    (first >>= next) = .error error ↔
      first = .error error ∨ ∃ middle, first = .ok middle ∧ next middle = .error error := by
  cases first <;> simp [bind, Except.bind]

/-- Telling an error differently concerns the error only. -/
theorem mapError_eq_error {outcome : Except ε α} {convert : ε → δ} {error : δ} :
    outcome.mapError convert = .error error ↔
      ∃ inner, outcome = .error inner ∧ convert inner = error := by
  cases outcome <;> simp [Except.mapError]

/-- A computation that is found to succeed has a result. -/
theorem exists_ok_of_isOk {outcome : Except ε α} (succeeds : outcome.isOk = true) :
    ∃ result, outcome = .ok result := by
  cases outcome with
  | error => cases succeeds
  | ok result => exact ⟨result, rfl⟩

/-- A computation of whose result something is told has a result, of which this is true. -/
theorem exists_ok_of_told {outcome : Except ε α} {tell : α → β} {told : β}
    (tells : outcome.toOption.map tell = some told) :
    ∃ result, outcome = .ok result ∧ tell result = told := by
  cases outcome with
  | error => cases tells
  | ok result => exact ⟨result, rfl, Option.some.inj tells⟩

end SchemaCodec.Outcome
