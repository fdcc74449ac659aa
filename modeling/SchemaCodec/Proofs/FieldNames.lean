import SchemaCodec.Proofs.ClosedGraph
import SchemaCodec.Proofs.RoutedDefaults

/-!
# Field names

The fields of a struct, an exception, a union and the arguments of a method are linked with each
name once, and so are the fields that a method throws. What a method returns is put in front of
these afterwards: its id is compared with theirs, its name is not.

Main statement: a name belongs to no more than one field of a linked type, unless the type is the
result of a method that returns something and throws a field of the name of what is returned.
-/

namespace SchemaCodec

open Linking

/-- The result of a method that returns something has a second field of the name of what is
returned. -/
def Schema.ThrowsSuccess (schema : Schema) (result : String) : Prop :=
  ∃ service ∈ schema.services, ∃ method ∈ service.methods, method.resultStruct = some result ∧
    method.returns.isSome ∧ "success" ∈ method.throws.map (·.name)

/-- The names of a struct's fields are those of the result of a method, which throws each name
once. -/
structure Method.NamesResult (method : Method) (result : String) (names : List String) : Prop where
  result : method.resultStruct = some result
  thrown : (method.throws.map (·.name)).Nodup
  names : names = (Scope.resultFields method.returns method.throws).map (·.name)

/-- The fields of each of some types have distinct names, or their names are those of the result of
a method of some services. -/
def FieldsNamed (types : List TypeDeclaration) (services : List Service) : Prop :=
  ∀ declared ∈ types, ∀ fields, declared.fields? = some fields →
    (fields.map (·.name)).Nodup ∨ ∃ service ∈ services, ∃ method ∈ service.methods,
      method.NamesResult declared.name (fields.map (·.name))

section Names

variable {fields others : List Field} {method : Method} {result : String}

/-- Fields that are the same up to their defaults have the same names. -/
theorem map_name_of_bare (same : fields.map (·.bare) = others.map (·.bare)) :
    fields.map (·.name) = others.map (·.name) := by
  have names := congrArg (List.map (·.name)) same
  simp only [List.map_map] at names
  exact names

/-- The names in a result are distinct when those of the exceptions are and what is returned shares
its name with none of them. -/
theorem nodup_names_resultFields {returns : Option DataType} {throws : List Field} :
    ((Scope.resultFields returns throws).map (·.name)).Nodup ↔
      ¬(returns.isSome ∧ "success" ∈ throws.map (·.name)) ∧ (throws.map (·.name)).Nodup := by
  cases returns with
  | none => simp [Scope.resultFields]
  | some type =>
    rw [Scope.resultFields, List.map_cons, List.nodup_cons]
    simp

/-- Any other name than that of what is returned belongs to one field of a result at most.

Proof: the names of a result are those of the exceptions, behind the name of what is returned if
there is any. Another name passes over that first field and is then found among distinct names. -/
theorem Method.NamesResult.fieldByName?_eq_some
    (namesResult : method.NamesResult result (fields.map (·.name))) {name : String}
    (other : name ≠ "success") {field : Field} :
    fieldByName? fields name = some field ↔ field ∈ fields ∧ field.name = name := by
  have names := namesResult.names
  cases returned : method.returns with
  | none =>
    rw [returned, Scope.resultFields] at names
    exact find?_key_eq_some (names ▸ namesResult.thrown)
  | some type =>
    cases fields with
    | nil => simp [returned, Scope.resultFields] at names
    | cons first rest =>
      rw [returned, Scope.resultFields, List.map_cons, List.map_cons, List.cons.injEq] at names
      obtain ⟨isSuccess, restNames⟩ := names
      have differs : first.name ≠ name := by
        rw [isSuccess]
        exact other.symm
      have behind : fieldByName? rest name = some field ↔ field ∈ rest ∧ field.name = name :=
        find?_key_eq_some (restNames ▸ namesResult.thrown)
      rw [fieldByName?, List.find?_cons_of_neg (by simpa using differs), List.mem_cons]
      refine behind.trans ⟨fun found => ⟨.inr found.1, found.2⟩, ?_⟩
      rintro ⟨rfl | isBehind, named⟩
      · exact absurd named differs
      · exact ⟨isBehind, named⟩

end Names

namespace Scope

variable {scope : Scope} {document : Document}

/-- The names of fields are those of their definitions. -/
theorem FieldsFollow.distinctNames {allOptional : Bool} {definitions : List FieldDefinition}
    {fields : List Field} (follow : scope.FieldsFollow document allOptional definitions fields) :
    (fields.map (·.name)).Nodup := by
  have same : fields.map (·.name) = definitions.map (·.name) := by
    refine List.forall₂_eq_eq_eq ▸ List.forall₂_map_left_iff.mpr ?_
    exact List.forall₂_map_right_iff.mpr (follow.each.flip.imp fun _ _ follows => follows.name)
  exact same ▸ follow.names

/-- The arguments of a method have distinct names, and the names in its result are known. -/
theorem MethodFollows.fieldNames {service : String} {definition : FunctionDefinition}
    {method : Method} (follows : scope.MethodFollows document service definition method) :
    ∀ declared ∈ method.structs, ∀ fields, declared.fields? = some fields →
      (fields.map (·.name)).Nodup ∨ method.NamesResult declared.name (fields.map (·.name)) := by
  intro declared isStruct fields isFields
  rcases List.mem_cons.mp isStruct with rfl | isResult
  · obtain rfl := Option.some.inj isFields
    exact .inl follows.arguments.distinctNames
  · obtain ⟨result, named, rfl⟩ := Option.map_eq_some_iff.mp (Option.mem_toList.mp isResult)
    obtain rfl := Option.some.inj isFields
    exact .inr ⟨named, follows.throws.distinctNames, rfl⟩

/-- The fields of what a definition adds have distinct names, or their names are those of the result
of a method.

Proof: by the form of the definition. The fields of structs, unions and exceptions are linked with
distinct names; the structs of a method carry the arguments, with distinct names as well, and the
result, which names the method it belongs to. -/
theorem Declares.fieldsNamed {found : Definition} {added : Additions}
    (declares : scope.Declares document found added) : FieldsNamed added.types added.services := by
  cases declares with
  | constant | typedef => simp [FieldsNamed]
  | enum => simp [FieldsNamed, TypeDeclaration.fields?]
  | struct definition fields follow | exception definition fields follow
  | union definition fields follow =>
    intro declared isDeclared others isOthers
    obtain rfl := List.mem_singleton.mp isDeclared
    obtain rfl := Option.some.inj isOthers
    exact .inl follow.distinctNames
  | service definition parent methods extended follow =>
    intro declared isDeclared fields isFields
    simp only [Additions.append, List.append_nil, methodsAdditions, Additions.all,
      List.mem_flatMap, List.mem_map] at isDeclared
    obtain ⟨_, ⟨⟨function, method⟩, beside, rfl⟩, isStruct⟩ := isDeclared
    have follows := (List.forall₂_iff_zip.mp follow.each).2 beside
    refine (follows.fieldNames declared isStruct fields isFields).imp_right fun names => ?_
    refine ⟨_, List.mem_append_right _ (List.mem_singleton_self _), method, ?_, names⟩
    exact (List.of_mem_zip beside).2

/-- After the first pass the fields of every type have distinct names, or their names are those of
the result of a method. -/
theorem Passes.fieldsNamed {typed settled last : Linking}
    (passes : scope.Passes typed settled last) :
    FieldsNamed typed.schema.types typed.schema.services := by
  obtain ⟨additions, each, gains⟩ := passes.gains
  obtain ⟨types, same, -, origin⟩ := gains.types
  intro declared isDeclared fields isFields
  rw [same] at isDeclared
  rcases origin declared isDeclared with added | ⟨_, _, _, _, _, _, rfl⟩
  · obtain ⟨addition, isAddition, here⟩ := List.mem_flatMap.mp added
    obtain ⟨_, -, declares⟩ := Pairing.exists_of_mem_right each isAddition
    refine (declares.fieldsNamed declared here fields isFields).imp_right ?_
    rintro ⟨service, isService, method, isMethod, names⟩
    refine ⟨service, ?_, method, isMethod, names⟩
    rw [gains.services]
    exact List.mem_flatMap.mpr ⟨addition, isAddition, isService⟩
  · simp [TypeDeclaration.fields?] at isFields

end Scope

/-- What is known of field names stays known when the state is completed.

Proof: completing a state fills in defaults, and without its defaults each declaration and each
service is what it was. So the names of fields are the same, and the method whose result they name
is found again by what a default leaves of it. -/
theorem FieldsNamed.completes {linking later : Linking}
    (named : FieldsNamed linking.schema.types linking.schema.services)
    (completes : linking.Completes later) :
    FieldsNamed later.schema.types later.schema.services := by
  intro declared isDeclared fields isFields
  obtain ⟨before, isBefore, sameName, old, isOld, sameFields⟩ :=
    completes.exists_fields isDeclared isFields
  rw [← map_name_of_bare sameFields, ← sameName]
  refine (named before isBefore old isOld).imp_right ?_
  rintro ⟨service, isService, method, isMethod, names⟩
  have isBare : service.bare ∈ later.schema.services.map (·.bare) :=
    completes.services ▸ List.mem_map_of_mem isService
  obtain ⟨kept, isKept, sameService⟩ := List.mem_map.mp isBare
  obtain ⟨other, isOther, sameMethod⟩ := Service.exists_method sameService isMethod
  obtain ⟨-, -, sameReturns, sameThrows, -, -, sameResult⟩ := Method.mk.inj sameMethod
  refine ⟨kept, isKept, other, isOther, sameResult.trans names.result, ?_, ?_⟩
  · exact sameThrows ▸ names.thrown
  · rw [sameReturns, sameThrows]
    exact names.names

/-- Names identify fields, with one exception. The field names of a type of a linked schema are
distinct exactly when the type is not the result of a method that returns something and throws a
field of the name of what is returned; and any name, in that result any other name, is looked up to
the one field that has it.

Proof: the fields of declared records and of arguments have distinct names, as the linker checks.
The struct of a result has what is returned in front of what is thrown, which has distinct names
too, so only one name can come twice there. That it does is said of the method, whose structs are
known. -/
theorem names_identify_fields {documents : List Document} {schema : Schema}
    (linked : link documents = .ok schema) {declared : TypeDeclaration}
    (isDeclared : declared ∈ schema.types) {fields : List Field}
    (isFields : declared.fields? = some fields) :
    ((fields.map (·.name)).Nodup ↔ ¬schema.ThrowsSuccess declared.name) ∧
      ∀ name, (name = "success" → ¬schema.ThrowsSuccess declared.name) → ∀ field,
        fieldByName? fields name = some field ↔ field ∈ fields ∧ field.name = name := by
  have wellFormed := linked_of_link linked
  obtain ⟨scope, -, typed, settled, last, passes, rfl⟩ := Scope.link_eq_ok.mp linked
  have known := passes.fieldsNamed.completes (passes.settles.trans passes.fills) declared
    isDeclared fields isFields
  have nodup_iff : (fields.map (·.name)).Nodup ↔ ¬last.schema.ThrowsSuccess declared.name := by
    constructor
    · rintro distinct ⟨service, isService, method, isMethod, isResult, throwsSuccess⟩
      obtain ⟨found, named, sameFields, -⟩ :=
        (passes.hasMethodStructs wellFormed isService isMethod).2 _ isResult
      have isFound := wellFormed.indexed.declaration?_eq_some.mpr ⟨isDeclared, rfl⟩
      obtain rfl := Option.some.inj (isFound.symm.trans (Schema.structType_eq_ok.mp named))
      obtain rfl := Option.some.inj isFields
      rw [map_name_of_bare sameFields] at distinct
      exact (nodup_names_resultFields.mp distinct).1 throwsSuccess
    · intro apart
      rcases known with distinct | ⟨service, isService, method, isMethod, names⟩
      · exact distinct
      · rw [names.names]
        refine nodup_names_resultFields.mpr ⟨fun clash => ?_, names.thrown⟩
        exact apart ⟨service, isService, method, isMethod, names.result, clash⟩
  refine ⟨nodup_iff, fun name apart field => ?_⟩
  by_cases isSuccess : name = "success"
  · exact find?_key_eq_some (nodup_iff.mpr (apart isSuccess))
  · rcases known with distinct | ⟨_, _, method, _, names⟩
    · exact find?_key_eq_some distinct
    · exact names.fieldByName?_eq_some isSuccess

/-- In the result of the method of the store the name of what is returned identifies it, since the
method throws a field of another name. -/
theorem success_identifies_store_result :
    ∃ declared ∈ storeSchema.types, declared.name = "a.S.f_result" ∧
      ∃ fields, declared.fields? = some fields ∧ ¬storeSchema.ThrowsSuccess "a.S.f_result" ∧
        ∀ field, fieldByName? fields "success" = some field ↔
          field ∈ fields ∧ field.name = "success" := by
  have isDeclared := List.mem_of_getElem? (l := storeSchema.types) (i := 1) rfl
  obtain ⟨nodup_iff, identifies⟩ := names_identify_fields link_storeDocument isDeclared rfl
  have apart := nodup_iff.mp (by decide)
  exact ⟨_, isDeclared, rfl, _, rfl, apart, identifies "success" fun _ => apart⟩

/-- A document with a method that throws a field of the name of what it returns. -/
def successDocument : Document where
  path := "m.thrift"
  module := "m"
  definitions := [
    .exception { name := "E", fields := [{ id := 1, name := "why", type := .base .string }] },
    .service { name := "S", functions := [
      { name := "f", returns := some (.base .i32),
        throws := [{ id := 1, name := "success", type := .named "E" {} }] }] }]

/-- The result of the method, with two fields of one name. -/
def successResult : StructType where
  name := "m.S.f_result"
  isException := false
  fields := [
    { id := 0, name := "success", type := .i32, requiredness := .optional },
    { id := 1, name := "success", type := .struct "m.E", requiredness := .optional }]

/-- The schema of the document. -/
def successSchema : Schema :=
  .ofEntries [
    .struct ⟨"m.E", true, [
      { id := 1, name := "why", type := .string, requiredness := .unspecified }]⟩,
    .struct ⟨"m.S.f_args", false, []⟩,
    .struct successResult]
  [
    { name := "m.S", parent := none, methods := [
      { name := "f", arguments := [], returns := some .i32,
        throws := [
          { id := 1, name := "success", type := .struct "m.E", requiredness := .optional }],
        oneway := false, argumentsStruct := "m.S.f_args",
        resultStruct := some "m.S.f_result" }] }] []

/-- The document links. -/
theorem link_successDocument : link [successDocument] = .ok successSchema := by cbv

/-- So a linked schema may have a struct with two fields of one name. -/
theorem field_names_may_clash :
    ¬∀ documents schema, link documents = .ok schema →
      ∀ declared ∈ schema.types, ∀ fields, declared.fields? = some fields →
        (fields.map (·.name)).Nodup := by
  intro distinct
  have isDeclared : TypeDeclaration.struct successResult ∈ successSchema.types := by
    simp [successSchema]
  have names := distinct _ _ link_successDocument _ isDeclared _ rfl
  exact absurd names (by decide)

end SchemaCodec
