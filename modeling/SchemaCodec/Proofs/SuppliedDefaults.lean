import SchemaCodec.Proofs.Completion

/-!
# Defaults that are supplied one after another

Each default goes to one place: to the field of an id, in one type and for an argument in its method
as well. Several of them leave everything but the fields of types and the arguments of methods as it
was, the indexes included.
-/

namespace SchemaCodec

/-- Two defaults go to different places. -/
structure PendingDefault.Apart (first second : PendingDefault) : Prop where
  owner : first.owner = second.owner → first.id ≠ second.id
  method : ∀ called, first.method = some called → second.method = some called →
    first.id ≠ second.id

namespace Schema

/-- A schema with several defaults filled in. -/
def supply (schema : Schema) (supplied : List (PendingDefault × Value)) : Schema :=
  supplied.foldl (fun schema pair => schema.withDefault pair.1 pair.2) schema

/-- Defaults that are filled in change nothing but types and services. -/
theorem supply_eq (schema : Schema) (supplied : List (PendingDefault × Value)) :
    schema.supply supplied = { schema with
      types := (schema.supply supplied).types
      services := (schema.supply supplied).services } := by
  induction supplied generalizing schema with
  | nil => rfl
  | cons pair rest inductionHypothesis =>
    exact inductionHypothesis (schema.withDefault pair.1 pair.2)

/-- Defaults that are filled in keep the positions of types. -/
@[simp] theorem typePositions_supply (schema : Schema)
    (supplied : List (PendingDefault × Value)) :
    (schema.supply supplied).typePositions = schema.typePositions := by
  rw [supply_eq]

/-- Defaults that are filled in keep the positions of services. -/
@[simp] theorem servicePositions_supply (schema : Schema)
    (supplied : List (PendingDefault × Value)) :
    (schema.supply supplied).servicePositions = schema.servicePositions := by
  rw [supply_eq]

/-- Defaults that are filled in leave constants alone. -/
@[simp] theorem constants_supply (schema : Schema) (supplied : List (PendingDefault × Value)) :
    (schema.supply supplied).constants = schema.constants := by
  rw [supply_eq]

/-- Defaults that are filled in keep the positions of constants. -/
@[simp] theorem constantPositions_supply (schema : Schema)
    (supplied : List (PendingDefault × Value)) :
    (schema.supply supplied).constantPositions = schema.constantPositions := by
  rw [supply_eq]

/-- Defaults that are filled in move no entry and rename none. -/
theorem Indexed.supply {schema : Schema} (indexed : schema.Indexed)
    (supplied : List (PendingDefault × Value)) : (schema.supply supplied).Indexed := by
  induction supplied generalizing schema with
  | nil => exact indexed
  | cons pair rest inductionHypothesis =>
    exact inductionHypothesis (indexed.withDefault pair.1 pair.2)

/-- Defaults that are filled in leave all declared types alone apart from themselves. -/
theorem map_bare_supply (schema : Schema) (supplied : List (PendingDefault × Value)) :
    (schema.supply supplied).types.map (·.bare) = schema.types.map (·.bare) := by
  induction supplied generalizing schema with
  | nil => rfl
  | cons pair rest inductionHypothesis =>
    exact (inductionHypothesis _).trans (schema.map_bare_withDefault pair.1 pair.2)

/-- Two schemas have the same entries, each in some order. -/
structure Permuted (schema other : Schema) : Prop where
  types : schema.types.Perm other.types
  services : schema.services.Perm other.services
  constants : schema.constants.Perm other.constants

end Schema

end SchemaCodec
