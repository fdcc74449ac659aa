import SchemaCodec.Proofs.NameResolution
import SchemaCodec.Proofs.LinkedDefinitions

/-!
# Names that definitions take

A definition that is linked takes its qualified name, and a service the names of the structs in
which its methods travel. Where documents are orderly, no two definitions take the same name.
-/

namespace SchemaCodec

/-- The names of the structs in which a method travels. -/
def FunctionDefinition.structNames (service : String) (definition : FunctionDefinition) :
    List String :=
  [service ++ "." ++ definition.name ++ "_args", service ++ "." ++ definition.name ++ "_result"]

/-- The names of the types that a definition adds, typedefs apart. -/
def Definition.takenNames (document : Document) : Definition → List String
  | .struct definition | .union definition | .exception definition =>
    [document.qualified definition.name]
  | .enum definition => [document.qualified definition.name]
  | .service definition =>
    definition.functions.flatMap (·.structNames (document.qualified definition.name))
  | .typedef _ | .constant _ => []

namespace Scope

variable {scope : Scope} {document home : Document} {found : Definition}

/-- The structs of a method have the names that it takes. -/
theorem MethodFollows.name_of_mem_structs {service : String} {definition : FunctionDefinition}
    {method : Method} (follows : scope.MethodFollows document service definition method)
    {declared : TypeDeclaration} (isStruct : declared ∈ method.structs) :
    declared.name ∈ definition.structNames service ∧ ∀ known, declared ≠ .typedef known := by
  rcases List.mem_cons.mp isStruct with rfl | isResult
  · refine ⟨?_, by simp⟩
    simp [TypeDeclaration.name, follows.argumentsStruct, FunctionDefinition.structNames]
  · obtain ⟨result, named, rfl⟩ := Option.map_eq_some_iff.mp (Option.mem_toList.mp isResult)
    refine ⟨?_, by simp⟩
    rw [follows.resultStruct] at named
    split at named
    · simp at named
    · obtain rfl := Option.some.inj named
      simp [TypeDeclaration.name, FunctionDefinition.structNames]

/-- The types that are added for methods have the names that these take. -/
theorem name_of_mem_methodsAdditions {service : String} {definitions : List FunctionDefinition}
    {methods : List Method}
    (each : List.Forall₂ (scope.MethodFollows document service) definitions methods)
    {declared : TypeDeclaration}
    (isAdded : declared ∈ (methodsAdditions document service definitions methods).types) :
    declared.name ∈ definitions.flatMap (·.structNames service) ∧
      ∀ known, declared ≠ .typedef known := by
  obtain ⟨additions, isAddition, isType⟩ := List.mem_flatMap.mp isAdded
  obtain ⟨⟨definition, method⟩, beside, rfl⟩ := List.mem_map.mp isAddition
  obtain ⟨named, noTypedef⟩ := (List.forall₂_zip each beside).name_of_mem_structs isType
  exact ⟨List.mem_flatMap.mpr ⟨definition, (List.of_mem_zip beside).1, named⟩, noTypedef⟩

/-- The types that a definition declares have the names that it takes, and none is a typedef. -/
theorem Declares.name_of_mem_types {added : Additions}
    (declares : scope.Declares document found added) {declared : TypeDeclaration}
    (isAdded : declared ∈ added.types) :
    declared.name ∈ found.takenNames document ∧ ∀ known, declared ≠ .typedef known := by
  cases declares with
  | constant | typedef => simp at isAdded
  | enum | struct | exception | union =>
    obtain rfl := List.mem_singleton.mp isAdded
    exact ⟨List.mem_singleton_self _, by simp⟩
  | service definition parent methods extended follow =>
    refine name_of_mem_methodsAdditions follow.each ?_
    simpa [Additions.append] using isAdded

/-- A service that a definition declares has its qualified name. -/
theorem Declares.name_of_mem_services {added : Additions}
    (declares : scope.Declares document found added) {service : Service}
    (isAdded : service ∈ added.services) : ∃ definition, found = .service definition ∧
      service.name = document.qualified definition.name := by
  cases declares with
  | service definition parent methods extended follow =>
    simp only [Additions.append, services_methodsAdditions, List.nil_append,
      List.mem_singleton] at isAdded
    subst isAdded
    exact ⟨definition, rfl, rfl⟩
  | _ => simp at isAdded

/-- A name that a definition takes is its qualified name, up to its end or to a further dot. -/
theorem exists_atDot_of_mem_takenNames {name : String} (taken : name ∈ found.takenNames document) :
    ∃ rest, AtDot rest ∧ document.qualified found.name ++ rest = name := by
  cases found with
  | struct definition | union definition | exception definition | enum definition =>
    obtain rfl := List.mem_singleton.mp taken
    exact ⟨"", .inl rfl, by simp [Definition.name]⟩
  | service definition =>
    obtain ⟨function, -, isName⟩ := List.mem_flatMap.mp taken
    simp only [FunctionDefinition.structNames, List.mem_pair] at isName
    rcases isName with rfl | rfl
    · exact ⟨"." ++ (function.name ++ "_args"), atDot_dot _, by
        simp only [Definition.name, String.append_assoc]⟩
    · exact ⟨"." ++ (function.name ++ "_result"), atDot_dot _, by
        simp only [Definition.name, String.append_assoc]⟩
  | typedef | constant => simp [Definition.takenNames] at taken

namespace Orderly

/-- A name is taken by one definition at most. -/
theorem eq_of_mem_takenNames (orderly : scope.Orderly) (member : document ∈ scope.documents)
    (isHome : home ∈ scope.documents) {other : Definition} (isFound : found ∈ document.definitions)
    (isOther : other ∈ home.definitions) {name : String}
    (taken : name ∈ found.takenNames document) (alsoTaken : name ∈ other.takenNames home) :
    document = home ∧ found = other := by
  obtain ⟨rest, atDot, rfl⟩ := exists_atDot_of_mem_takenNames taken
  obtain ⟨more, moreAtDot, same⟩ := exists_atDot_of_mem_takenNames alsoTaken
  obtain ⟨sameHome, sameFound, -⟩ := orderly.eq_of_qualified_append member isHome isFound isOther
    atDot moreAtDot same.symm
  exact ⟨sameHome, sameFound⟩

/-- No definition takes the name of a typedef. -/
theorem ne_of_mem_takenNames (orderly : scope.Orderly) (member : document ∈ scope.documents)
    (isHome : home ∈ scope.documents) {typedef : TypedefDefinition}
    (isFound : found ∈ document.definitions) (isTypedef : .typedef typedef ∈ home.definitions)
    {name : String} (taken : name ∈ found.takenNames document) :
    home.qualified typedef.name ≠ name := by
  rintro rfl
  obtain ⟨rest, atDot, same⟩ := exists_atDot_of_mem_takenNames taken
  obtain ⟨-, rfl, -⟩ := orderly.eq_of_qualified_append member isHome isFound isTypedef atDot
    (.inl rfl) (same.trans String.append_empty.symm)
  simp [Definition.takenNames] at taken

end Orderly

/-- The struct of arguments and the struct of a result have different names. -/
theorem args_ne_result (front back : String) : front ++ "_args" ≠ back ++ "_result" := by
  intro same
  have last := congrArg (fun name => name.toList.getLast?) same
  simp [String.toList_append] at last

/-- The name of a struct in which a method travels tells the method. -/
theorem eq_of_mem_structNames {service name : String} {function other : FunctionDefinition}
    (named : name ∈ function.structNames service) (alsoNamed : name ∈ other.structNames service) :
    function.name = other.name := by
  simp only [FunctionDefinition.structNames, List.mem_pair] at named alsoNamed
  rcases named with rfl | rfl
  · rcases alsoNamed with same | same
    · simpa using same
    · exact absurd same (args_ne_result _ _)
  · rcases alsoNamed with same | same
    · exact absurd same.symm (args_ne_result _ _)
    · simpa using same

end Scope

end SchemaCodec
