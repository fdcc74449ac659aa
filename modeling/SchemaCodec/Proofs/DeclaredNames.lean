import SchemaCodec.Proofs.LinkedDefinitions
import SchemaCodec.Proofs.Completion

/-!
# The names of all that is declared

Each definition gives names to types, to a service or to a constant. What linking adds for it has
these very names; typedefs alone may be there before their turn comes.
-/

namespace SchemaCodec

/-- The names of the structs in which a method travels. A oneway method has no result. -/
def FunctionDefinition.travelNames (service : String) (definition : FunctionDefinition) :
    List String :=
  (service ++ "." ++ definition.name ++ "_args") ::
    if definition.oneway then [] else [service ++ "." ++ definition.name ++ "_result"]

namespace Definition

/-- The names of the types that a definition adds when its turn comes. -/
def addedNames (document : Document) : Definition → List String
  | struct definition | union definition | exception definition =>
    [document.qualified definition.name]
  | enum definition => [document.qualified definition.name]
  | service definition =>
    definition.functions.flatMap (·.travelNames (document.qualified definition.name))
  | typedef _ | constant _ => []

/-- The name of the service that a definition adds. -/
def serviceNames (document : Document) : Definition → List String
  | service definition => [document.qualified definition.name]
  | _ => []

end Definition

namespace Scope

variable {scope : Scope} {document : Document} {found : Definition} {added : Additions}
  {typed : Linking}

/-- The structs of a method have the names that its definition gives them. -/
theorem MethodFollows.map_name_structs {service : String} {definition : FunctionDefinition}
    {method : Method} (follows : scope.MethodFollows document service definition method) :
    method.structs.map (·.name) = definition.travelNames service := by
  rw [Method.structs, follows.argumentsStruct, follows.resultStruct,
    FunctionDefinition.travelNames]
  cases definition.oneway <;> rfl

/-- The structs of methods have the names that their definitions give them. -/
theorem map_name_methodsAdditions {service : String} {definitions : List FunctionDefinition}
    {methods : List Method}
    (each : List.Forall₂ (scope.MethodFollows document service) definitions methods) :
    (methodsAdditions document service definitions methods).types.map (·.name) =
      definitions.flatMap (·.travelNames service) := by
  simp only [methodsAdditions, Additions.all, List.flatMap_map, List.map_flatMap]
  induction each with
  | nil => rfl
  | cons follows _ inductionHypothesis =>
    rw [List.zip_cons_cons, List.flatMap_cons, List.flatMap_cons, inductionHypothesis,
      methodAdditions, follows.map_name_structs]

/-- What is added for a definition has the names that it gives. -/
theorem Declares.map_name_types (declares : scope.Declares document found added) :
    added.types.map (·.name) = found.addedNames document := by
  cases declares with
  | service definition parent methods extended follow =>
    rw [Additions.append, List.append_nil]
    exact map_name_methodsAdditions follow.each
  | _ => rfl

/-- The service that is added for a definition has its name. -/
theorem Declares.map_name_services (declares : scope.Declares document found added) :
    added.services.map (·.name) = found.serviceNames document := by
  cases declares with
  | service definition parent methods extended follow =>
    simp [Additions.append, Definition.serviceNames]
  | _ => rfl

section FirstPass

variable {additions : List Additions} {pairs : List (Document × Definition)}
  (each : List.Forall₂ (fun pair added => scope.Declares pair.1 pair.2 added) pairs additions)

include each

/-- What is added for several definitions has the names that these give. -/
theorem map_name_types : (additions.flatMap (·.types)).map (·.name) =
    pairs.flatMap fun pair => pair.2.addedNames pair.1 := by
  rw [List.map_flatMap]
  exact (Pairing.flatMap_eq each fun declares => declares.map_name_types.symm).symm

/-- The services that are added for several definitions have the names that these give. -/
theorem map_name_services : (additions.flatMap (·.services)).map (·.name) =
    pairs.flatMap fun pair => pair.2.serviceNames pair.1 := by
  rw [List.map_flatMap]
  exact (Pairing.flatMap_eq each fun declares => declares.map_name_services.symm).symm

end FirstPass

/-- No name is given to two types that are added, and none to two services. -/
theorem Passes.nodup_names {settled later : Linking} (passes : scope.Passes typed settled later) :
    (scope.definitions.flatMap fun pair => pair.2.addedNames pair.1).Nodup ∧
      (scope.definitions.flatMap fun pair => pair.2.serviceNames pair.1).Nodup := by
  obtain ⟨additions, each, gains⟩ := passes.gains
  constructor
  · obtain ⟨types, isTypes, among, -⟩ := gains.types
    have names := passes.typedSound.schema.names
    rw [isTypes] at names
    rw [← map_name_types each]
    exact names.sublist (among.map _)
  · have names := passes.typedSound.schema.indexed.services.nodup
    rw [gains.services] at names
    rw [← map_name_services each]
    exact names

end Scope

end SchemaCodec
