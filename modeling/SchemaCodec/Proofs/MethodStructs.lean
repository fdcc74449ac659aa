import SchemaCodec.Proofs.AcceptedDocuments
import SchemaCodec.Proofs.ClosedGraph
import SchemaCodec.Proofs.Materialisation

/-!
# Methods and the structs in which they travel

The arguments of a method stand in the service and in a struct of their own, and the defaults reach
both of them by different ways; what is returned and what is thrown stand in another struct. Behind
all passes both say the same.

What a method throws is checked on the definitions to which names refer, while the schema follows
typedefs of its own. Both end at the same exception, as each step of the one trail is a step of the
other.
-/

namespace SchemaCodec

open Linking

/-- A method is in step with its definition and with the structs in which it travels. -/
structure Schema.InStep (schema : Schema) (definition : FunctionDefinition) (method : Method) :
    Prop where
  name : method.name = definition.name
  oneway : method.oneway = definition.oneway
  /-- The struct of the arguments has the very arguments, with their defaults. -/
  argumentsStruct : schema.structType method.argumentsStruct =
    .ok ⟨method.argumentsStruct, false, method.arguments⟩
  /-- The arguments are those of the definition, and a default is there where one is declared. -/
  arguments : List.Forall₂ (fun declared argument => argument.id = declared.id ∧
    argument.name = declared.name ∧ argument.default.isSome = declared.default.isSome)
      definition.arguments method.arguments
  silent : method.resultStruct = none ↔ method.oneway = true
  /-- The struct of the result has what is returned, if anything is, and behind it what is
  thrown. -/
  resultStruct : ∀ result ∈ method.resultStruct, schema.structType result =
    .ok ⟨result, false, (method.returns.map fun type =>
      { id := 0, name := "success", type, requiredness := .optional }).toList ++ method.throws⟩
  returns : method.returns.isSome = definition.returns.isSome
  throws : List.Forall₂ (fun declared thrown => thrown.id = declared.id ∧
    thrown.name = declared.name) definition.throws method.throws
  optional : ∀ thrown ∈ method.throws, thrown.requiredness = .optional
  /-- What is thrown is an exception, behind all typedefs. -/
  exceptions : ∀ thrown ∈ method.throws, ∃ name declared,
    schema.canonical thrown.type = .ok (.struct name) ∧
      schema.structType name = .ok declared ∧ declared.isException = true

namespace Scope

variable {scope : Scope} {schema : Schema} {document : Document}

section Trails

variable (orderly : scope.Orderly) (materialises : scope.Materialises schema)

include orderly

/-- A name stands for the type of the one definition to which it refers. -/
theorem Orderly.type?_of_standsFor (member : document ∈ scope.documents) {name : String}
    {span : Span} {home : Document} {found : Definition} {type : DataType}
    (refers : scope.Refers document name home found)
    (standsFor : scope.StandsFor document (.named name span) type) :
    found.type? home = some type := by
  cases standsFor with
  | named alsoRefers declares =>
    have isFound := (orderly.lookup_eq_some member).mpr refers
    have alsoFound := (orderly.lookup_eq_some member).mpr alsoRefers
    obtain ⟨rfl, rfl⟩ := Prod.mk.inj (Option.some.inj (isFound.symm.trans alsoFound))
    exact declares

include materialises

/-- A chain of typedefs in the schema ends at an exception where the trail through the definitions
does. The induction is on that trail, and each of its typedefs is one step of the chain.

Proof: by induction on the typedefs that stand between the reference and the exception. Each of them
is materialised with the target that its own reference stands for, so following it once leads to the
next one; the exception itself is materialised as a struct that is marked as one. -/
theorem NamesException.ends_at_exception {reference : TypeReference}
    (names : scope.NamesException document reference) (member : document ∈ scope.documents)
    {start type behind : DataType} {steps : Nat}
    (standsFor : scope.StandsFor document reference type)
    (followed : schema.canonicalWithin start steps type = .ok behind) :
    ∃ name declared, behind = .struct name ∧ schema.structType name = .ok declared ∧
      declared.isException = true := by
  induction names generalizing type steps with
  | @exception document home name span definition refers =>
    obtain ⟨isHome, isFound⟩ := refers.mem member
    obtain rfl := Option.some.inj (orderly.type?_of_standsFor member refers standsFor)
    obtain ⟨fields, entry⟩ : ∃ fields, schema.declaration? (home.qualified definition.name) =
        some (.struct ⟨home.qualified definition.name, true, fields⟩) := by
      cases materialises.mirrors home isHome _ isFound with
      | exception mirror entry => exact ⟨_, entry⟩
    cases steps with
    | zero => simp [Schema.canonicalWithin] at followed
    | succ steps =>
      obtain rfl := Except.ok.inj followed
      exact ⟨_, _, rfl, Schema.structType_eq_ok.mpr entry, rfl⟩
  | @typedef document home name span definition refers behindIt inductionHypothesis =>
    obtain ⟨isHome, isFound⟩ := refers.mem member
    obtain rfl := Option.some.inj (orderly.type?_of_standsFor member refers standsFor)
    obtain ⟨target, isTarget, entry⟩ : ∃ target, scope.StandsFor home definition.target target ∧
        schema.typedefTarget (home.qualified definition.name) = .ok target := by
      cases materialises.mirrors home isHome _ isFound with
      | typedef isTarget entry =>
        exact ⟨_, isTarget, Schema.typedefTarget_eq_ok.mpr ⟨_, entry, rfl⟩⟩
    cases steps with
    | zero => simp [Schema.canonicalWithin] at followed
    | succ steps =>
      obtain ⟨_, alsoTarget, onwards⟩ := Outcome.bind_eq_ok.mp followed
      obtain rfl := Except.ok.inj (entry.symm.trans alsoTarget)
      exact inductionHypothesis isHome isTarget onwards

end Trails

section Methods

variable {service : String} {definition : FunctionDefinition} {method : Method}

/-- A method that mirrors a definition in order is in step with it.

Proof: each condition is one of those under which a method mirrors its definition, told of the
schema. The structs are found under the names that the method has for them, and what is thrown ends
at an exception because the definition is in order. -/
theorem MethodMirrors.inStep
    (mirrors : scope.MethodMirrors schema document service definition method)
    (orderly : scope.Orderly) (materialises : scope.Materialises schema)
    (member : document ∈ scope.documents) (valid : scope.ValidMethod document definition)
    (canonical : ∀ thrown ∈ method.throws, ∃ behind, schema.canonical thrown.type = .ok behind) :
    schema.InStep definition method where
  name := mirrors.name
  oneway := mirrors.oneway
  argumentsStruct := Schema.structType_eq_ok.mpr (mirrors.structs _ List.mem_cons_self)
  arguments := mirrors.arguments.imp fun declared argument mirror =>
    ⟨mirror.id, mirror.name, (isSome_of_rel mirror.default).symm⟩
  silent := by
    rw [mirrors.resultStruct, mirrors.oneway]
    cases definition.oneway <;> simp
  resultStruct result isResult := by
    have isStruct : .struct ⟨result, false, resultFields method.returns method.throws⟩ ∈
        method.structs := by
      rw [Method.structs, Option.mem_def.mp isResult]
      exact List.mem_cons_of_mem _ (List.mem_singleton_self _)
    have same : resultFields method.returns method.throws = (method.returns.map fun type =>
        { id := 0, name := "success", type, requiredness := .optional }).toList ++
          method.throws := by
      cases method.returns <;> rfl
    rw [← same]
    exact Schema.structType_eq_ok.mpr (mirrors.structs _ isStruct)
  returns := (isSome_of_rel mirrors.returns).symm
  throws := mirrors.throws.imp fun declared thrown mirror => ⟨mirror.id, mirror.name⟩
  optional thrown isThrown := by
    obtain ⟨declared, -, mirror⟩ := Pairing.exists_of_mem_right mirrors.throws isThrown
    exact mirror.requiredness
  exceptions thrown isThrown := by
    obtain ⟨declared, isDeclared, mirror⟩ := Pairing.exists_of_mem_right mirrors.throws isThrown
    obtain ⟨behind, followed⟩ := canonical thrown isThrown
    obtain ⟨name, exception, rfl, found, isException⟩ :=
      (valid.exceptions declared isDeclared).ends_at_exception orderly materialises member
        mirror.type followed
    exact ⟨name, exception, followed, found, isException⟩

/-- The services of a schema that materialises its definitions are those of the definitions.

Proof: the services have the names of the definitions, so there is one of the name of this service.
It mirrors its entry, and under one name there is one entry. -/
theorem Materialises.exists_service (materialises : scope.Materialises schema)
    (indexed : schema.Indexed) {service : Service} (isService : service ∈ schema.services) :
    ∃ document ∈ scope.documents, ∃ definition : ServiceDefinition,
      .service definition ∈ document.definitions ∧
        document.qualified definition.name = service.name ∧
          List.Forall₂ (scope.MethodMirrors schema document service.name) definition.functions
            service.methods := by
  have named := materialises.services.subset (List.mem_map_of_mem (f := (·.name)) isService)
  obtain ⟨⟨document, found⟩, isPair, isName⟩ := List.mem_flatMap.mp named
  obtain ⟨member, isFound⟩ := mem_definitions.mp isPair
  cases found with
  | service definition =>
    have same : service.name = document.qualified definition.name := List.mem_singleton.mp isName
    refine ⟨document, member, definition, isFound, same.symm, ?_⟩
    have here : schema.service service.name = .ok service :=
      Schema.service_eq_ok.mpr (indexed.service?_eq_some.mpr ⟨isService, rfl⟩)
    cases materialises.mirrors document member _ isFound with
    | service parents mirror entry =>
      rw [← same] at entry mirror
      rw [congrArg Service.methods (Except.ok.inj (here.symm.trans entry))]
      exact mirror
  | _ => simp [Definition.serviceNames] at isName

end Methods

end Scope

/-- Where documents without dots in their modules and names link, each method of each service is in
step with its definition, with the structs in which it travels, and with the exceptions that it
throws: its arguments are the fields of their struct, each with a default where one is declared;
nothing comes back exactly if it is oneway, and else the struct of the result has what is returned
and what is thrown, all of it optional; and whatever is thrown is of an exception, behind all
typedefs.

Proof: each service is the entry of one definition, which it mirrors method by method. The structs
of the methods were registered along with them, the passes that follow only fill in defaults, and
what is thrown was found to be an exception behind its typedefs. -/
theorem methods_stay_in_step {documents : List Document}
    (dotlessModules : ∀ document ∈ documents, Dotless document.module)
    (dotlessNames : ∀ document ∈ documents, ∀ found ∈ document.definitions, Dotless found.name)
    {schema : Schema} (linked : link documents = .ok schema) :
    ∀ service ∈ schema.services, ∃ document ∈ Scope.firstOfPaths documents [],
      ∃ definition : ServiceDefinition, .service definition ∈ document.definitions ∧
        document.qualified definition.name = service.name ∧
          List.Forall₂ schema.InStep definition.functions service.methods := by
  have wellFormedSchema := linked_of_link linked
  obtain ⟨scope, formed, typed, settled, later, passes, rfl⟩ := Scope.link_eq_ok.mp linked
  have orderly := Scope.orderly_of_ofDocuments formed dotlessModules dotlessNames
  obtain ⟨rfl, -, includes, -⟩ := Scope.ofDocuments_eq_ok_iff.mp formed
  have materialises := passes.materialises orderly
  have wellFormed := passes.wellFormed orderly includes
  intro service isService
  obtain ⟨document, member, definition, isFound, named, mirrors⟩ :=
    materialises.exists_service wellFormedSchema.indexed isService
  refine ⟨document, member, definition, isFound, named, List.forall₂_iff_zip.mpr
    ⟨mirrors.length_eq, fun {function method} beside => ?_⟩⟩
  obtain ⟨isFunction, isMethod⟩ := List.of_mem_zip beside
  have valid : Scope.ValidService _ document definition :=
    wellFormed.definitions document member _ isFound
  refine ((List.forall₂_iff_zip.mp mirrors).2 beside).inStep orderly materialises member
    (valid.methods function isFunction) fun thrown isThrown => ?_
  have mentioned : thrown.type ∈ later.schema.mentions := by
    refine List.mem_append_left _ (List.mem_append_right _ (List.mem_flatMap.mpr
      ⟨service, isService, List.mem_flatMap.mpr ⟨method, isMethod, ?_⟩⟩))
    exact List.mem_append_right _ (List.mem_map_of_mem (f := Field.type) isThrown)
  exact (wellFormedSchema.canonical (wellFormedSchema.closed_of_mem_mentions mentioned)).imp
    fun _ followed => followed.1

/-- The method of the store, which throws an exception and has an argument with a default, is in
step with its definition. -/
theorem store_methods_stay_in_step :
    link [storeDocument, partsDocument] = .ok storeSchema ∧
      ∀ service ∈ storeSchema.services, ∃ document ∈ [storeDocument, partsDocument],
        ∃ definition : ServiceDefinition, .service definition ∈ document.definitions ∧
          document.qualified definition.name = service.name ∧
            List.Forall₂ storeSchema.InStep definition.functions service.methods :=
  ⟨link_storeDocument, methods_stay_in_step (by decide) (by decide) link_storeDocument⟩

end SchemaCodec
