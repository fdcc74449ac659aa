import Mathlib
import SchemaCodec.Proofs.Completion
import SchemaCodec.Proofs.Pairing

/-!
# The closed graph of a linked schema

The index of names and the lists of types, services and constants invert each other, so no name is
given twice and lookup by name agrees with the lists. Nothing leads out of the schema: every type
that is mentioned anywhere, at any depth inside containers, is registered with its very kind and
stands for a type that is no typedef. Ids are distinct among the fields of every struct and union,
the structs in which methods travel included, members are distinct in every enum, and the service
that a service extends is there.
-/

namespace SchemaCodec

open Linking

/-- A type and all types inside its containers. -/
def DataType.parts : DataType → List DataType
  | .list element => .list element :: element.parts
  | .set element => .set element :: element.parts
  | .map key value => .map key value :: (key.parts ++ value.parts)
  | type => [type]

/-- The types that a declared type mentions. -/
def TypeDeclaration.mentions : TypeDeclaration → List DataType
  | .struct declared => declared.fields.map (·.type)
  | .union declared => declared.fields.map (·.type)
  | .enum _ => []
  | .typedef declared => [declared.target]

/-- The types that a method mentions. -/
def Method.mentions (method : Method) : List DataType :=
  method.arguments.map (·.type) ++ method.returns.toList ++ method.throws.map (·.type)

/-- All types that a schema mentions. -/
def Schema.mentions (schema : Schema) : List DataType :=
  schema.types.flatMap (·.mentions) ++
    schema.services.flatMap (fun service => service.methods.flatMap (·.mentions)) ++
      schema.constants.map (·.type)

/-- A struct of a name is registered and has these fields, up to their defaults, with an id each. -/
def Schema.HasStruct (schema : Schema) (name : String) (fields : List Field) : Prop :=
  ∃ declared, schema.structType name = .ok declared ∧
    declared.fields.map (·.bare) = fields.map (·.bare) ∧ (declared.fields.map (·.id)).Nodup

/-- A schema is a closed graph: its indexes invert its entries, names are unique, and whatever is
mentioned anywhere is registered with the kind that the mention gives it. So a lookup that starts
from anything in the schema succeeds, and no chain of typedefs goes on for ever. -/
structure Schema.ClosedGraph (schema : Schema) : Prop where
  /-- An index holds a position for a name exactly when the entry at that position has it. -/
  indexed : schema.Indexed
  typeNames : (schema.types.map (·.name)).Nodup
  serviceNames : (schema.services.map (·.name)).Nodup
  constantNames : (schema.constants.map (·.name)).Nodup
  type : ∀ name declared, schema.declaration? name = some declared ↔
    declared ∈ schema.types ∧ declared.name = name
  service : ∀ name declared, schema.service name = .ok declared ↔
    declared ∈ schema.services ∧ declared.name = name
  constant : ∀ name declared, schema.constant? name = some declared ↔
    declared ∈ schema.constants ∧ declared.name = name
  /-- A name is registered with the kind that the type gives it. -/
  registered : ∀ mentioned ∈ schema.mentions, ∀ part ∈ mentioned.parts, ∀ name,
    part.declaredName? = some name → schema.resolve name = .ok part
  canonical : ∀ mentioned ∈ schema.mentions, ∀ part ∈ mentioned.parts, ∃ behind,
    schema.canonical part = .ok behind ∧ ∀ name, behind ≠ .typedef name
  fieldIds : ∀ declared ∈ schema.types, ∀ fields, declared.fields? = some fields →
    (fields.map (·.id)).Nodup
  argumentsStructs : ∀ service ∈ schema.services, ∀ method ∈ service.methods,
    schema.HasStruct method.argumentsStruct method.arguments
  resultStructs : ∀ service ∈ schema.services, ∀ method ∈ service.methods,
    ∀ result ∈ method.resultStruct,
      schema.HasStruct result (Scope.resultFields method.returns method.throws)
  memberNames : ∀ declared, .enum declared ∈ schema.types →
    (declared.members.map (·.name)).Nodup
  parents : ∀ service ∈ schema.services, ∀ parent ∈ service.parent,
    ∃ above ∈ schema.services, above.name = parent

section Mentions

variable {schema : Schema}

/-- What is known of the names in a type is known of every part of it. -/
theorem DataType.NamesOnly.part {known : String → DataType → Prop} {type part : DataType}
    (names : type.NamesOnly known) (isPart : part ∈ type.parts) : part.NamesOnly known := by
  induction type with
  | list element inductionHypothesis =>
    rcases List.mem_cons.mp isPart with rfl | inside
    · exact names
    · exact inductionHypothesis names inside
  | set element inductionHypothesis =>
    rcases List.mem_cons.mp isPart with rfl | inside
    · exact names
    · exact inductionHypothesis names inside
  | map key value keyHypothesis valueHypothesis =>
    rcases List.mem_cons.mp isPart with rfl | inside
    · exact names
    · rcases List.mem_append.mp inside with inKey | inValue
      · exact keyHypothesis names.1 inKey
      · exact valueHypothesis names.2 inValue
  | _ => exact List.mem_singleton.mp isPart ▸ names

/-- The name in a type that names a declaration is known for that very type. -/
theorem DataType.NamesOnly.known {known : String → DataType → Prop} {type : DataType}
    (names : type.NamesOnly known) {name : String} (named : type.declaredName? = some name) :
    known name type := by
  cases type with
  | struct other | union other | enum other | typedef other =>
    exact Option.some.inj named ▸ names
  | _ => simp [declaredName?] at named

/-- The end of a chain of typedefs is no typedef. -/
theorem Schema.ne_typedef_of_canonicalWithin {start type behind : DataType} {steps : Nat}
    (followed : schema.canonicalWithin start steps type = .ok behind) (name : String) :
    behind ≠ .typedef name := by
  induction steps generalizing type with
  | zero => simp [canonicalWithin] at followed
  | succ steps inductionHypothesis =>
    cases type with
    | typedef other =>
      simp only [canonicalWithin, Outcome.bind_eq_ok] at followed
      obtain ⟨target, -, followed⟩ := followed
      exact inductionHypothesis followed
    | _ =>
      obtain rfl := Except.ok.inj followed
      simp

/-- All that a linked schema mentions is registered.

Proof: a mention is in a type, in a method of a service or in a constant, and each of these is well
formed in a linked schema. The cases follow the definition of what an entry mentions. -/
theorem Schema.Linked.closed_of_mem_mentions (linked : schema.Linked) {type : DataType}
    (mentioned : type ∈ schema.mentions) : schema.Closed type := by
  simp only [mentions, List.mem_append, List.mem_flatMap] at mentioned
  rcases mentioned with (⟨declared, isDeclared, inside⟩ | ⟨service, isService, method, isMethod,
    inside⟩) | isConstant
  · have wellFormed := linked.types declared isDeclared
    cases declared with
    | struct declared | union declared =>
      obtain ⟨field, isField, rfl⟩ := List.mem_map.mp inside
      exact FieldsWellFormed.types wellFormed field isField
    | enum declared => simp [TypeDeclaration.mentions] at inside
    | typedef declared => exact List.mem_singleton.mp inside ▸ wellFormed
  · have wellFormed := (linked.services service isService).methods method isMethod
    simp only [Method.mentions, List.mem_append] at inside
    rcases inside with (isArgument | isReturned) | isThrown
    · obtain ⟨field, isField, rfl⟩ := List.mem_map.mp isArgument
      exact wellFormed.arguments.types field isField
    · exact wellFormed.returns type (Option.mem_toList.mp isReturned)
    · obtain ⟨field, isField, rfl⟩ := List.mem_map.mp isThrown
      exact wellFormed.throws.types field isField
  · obtain ⟨constant, member, rfl⟩ := List.mem_map.mp isConstant
    exact linked.constants constant member

end Mentions

section MethodStructs

variable {scope : Scope}

/-- The methods of services that definitions add follow definitions of methods, and the structs in
which they travel are added together with the services. -/
theorem Scope.follows_of_declares {pairs : List (Document × Definition)}
    {additions : List Additions}
    (each : List.Forall₂ (fun pair added => scope.Declares pair.1 pair.2 added) pairs additions)
    {service : Service} (isService : service ∈ (Additions.all additions).services)
    {method : Method} (isMethod : method ∈ service.methods) :
    (∃ document name definition, scope.MethodFollows document name definition method) ∧
      ∀ declared ∈ method.structs, declared ∈ (Additions.all additions).types := by
  obtain ⟨added, isAdded, here⟩ := List.mem_flatMap.mp isService
  obtain ⟨⟨document, found⟩, -, declares⟩ := Pairing.exists_of_mem_right each isAdded
  cases declares with
  | service definition parent methods extended follow =>
    simp only [Additions.append, services_methodsAdditions, List.nil_append,
      List.mem_singleton] at here
    subst here
    obtain ⟨function, follows, inside⟩ := mem_methodsAdditions follow.each isMethod
    exact ⟨⟨document, _, function, follows⟩, fun declared member =>
      List.mem_flatMap.mpr ⟨_, isAdded, List.mem_append_left _ (inside declared member)⟩⟩
  | _ => simp at here

/-- A struct that was added with the definitions is there, with its fields up to their defaults. -/
theorem Scope.Passes.hasStruct {typed settled later : Linking}
    (passes : scope.Passes typed settled later) (linked : later.schema.Linked) {name : String}
    {fields : List Field} (isDeclared : .struct ⟨name, false, fields⟩ ∈ typed.schema.types) :
    later.schema.HasStruct name fields := by
  have found : typed.schema.declaration? name = some (.struct ⟨name, false, fields⟩) :=
    passes.typedSound.schema.indexed.declaration?_eq_some.mpr ⟨isDeclared, rfl⟩
  obtain ⟨kept, isKept, same⟩ := (passes.settles.trans passes.fills).declaration? found
  cases kept with
  | struct declared =>
    have named := Schema.structType_eq_ok.mpr isKept
    have sameFields := congrArg StructType.fields (TypeDeclaration.struct.inj same)
    exact ⟨declared, named, sameFields, (linked.struct named).distinct⟩
  | _ => simp [TypeDeclaration.bare] at same

/-- A linked method was added with the definitions, up to the defaults of its arguments. -/
theorem Scope.Passes.exists_declaredMethod {typed settled later : Linking}
    (passes : scope.Passes typed settled later) {service : Service}
    (isService : service ∈ later.schema.services) {method : Method}
    (isMethod : method ∈ service.methods) :
    ∃ declared : Method, declared.bare = method.bare ∧
      (∃ document name definition, scope.MethodFollows document name definition declared) ∧
        ∀ struct ∈ declared.structs, struct ∈ typed.schema.types := by
  obtain ⟨additions, each, gains⟩ := passes.gains
  obtain ⟨before, isBefore, sameService⟩ :=
    (passes.settles.trans passes.fills).exists_service isService
  obtain ⟨declared, isDeclared, sameMethod⟩ := Service.exists_method sameService isMethod
  rw [gains.services] at isBefore
  obtain ⟨follows, inside⟩ := follows_of_declares each isBefore isDeclared
  obtain ⟨types, isTypes, among, -⟩ := gains.types
  refine ⟨declared, sameMethod, follows, fun struct isStruct => ?_⟩
  rw [isTypes]
  exact List.mem_append_right _ (among.subset (inside struct isStruct))

/-- The structs in which a method travels are there. -/
theorem Scope.Passes.hasMethodStructs {typed settled later : Linking}
    (passes : scope.Passes typed settled later) (linked : later.schema.Linked) {service : Service}
    (isService : service ∈ later.schema.services) {method : Method}
    (isMethod : method ∈ service.methods) :
    later.schema.HasStruct method.argumentsStruct method.arguments ∧
      ∀ result ∈ method.resultStruct,
        later.schema.HasStruct result (resultFields method.returns method.throws) := by
  obtain ⟨old, sameMethod, -, present⟩ := passes.exists_declaredMethod isService isMethod
  obtain ⟨-, sameArguments, sameReturns, sameThrows, -, sameStruct, sameResult⟩ :=
    Method.mk.inj sameMethod
  constructor
  · have travels := passes.hasStruct linked (present _ List.mem_cons_self)
    rw [← sameStruct]
    exact travels.imp fun found isFound => ⟨isFound.1, isFound.2.1.trans sameArguments, isFound.2.2⟩
  · intro result isResult
    rw [← sameReturns, ← sameThrows]
    refine passes.hasStruct linked (present _ (List.mem_cons_of_mem _ ?_))
    rw [sameResult, Option.mem_def.mp isResult]
    exact List.mem_singleton_self _

end MethodStructs

/-- The schema that linking returns is a closed graph.

Proof: the index of names is in step with the three lists throughout the run, so lookups find
exactly what stands in the lists and no name stands twice. What a linked schema mentions is closed,
so it is registered and has an end behind its typedefs. The structs of methods are added with each
service. -/
theorem closedGraph_of_link {documents : List Document} {schema : Schema}
    (returned : link documents = .ok schema) : schema.ClosedGraph := by
  have linked := linked_of_link returned
  obtain ⟨scope, -, typed, settled, later, passes, rfl⟩ := Scope.link_eq_ok.mp returned
  have indexed := linked.indexed
  exact {
    indexed
    typeNames := indexed.types.nodup
    serviceNames := indexed.services.nodup
    constantNames := indexed.constants.nodup
    type := fun name declared => indexed.declaration?_eq_some
    service := fun name declared => Schema.service_eq_ok.trans indexed.service?_eq_some
    constant := fun name declared => indexed.constant?_eq_some
    registered := fun mentioned isMentioned part isPart name named =>
      ((linked.closed_of_mem_mentions isMentioned).part isPart).known named
    canonical := fun mentioned isMentioned part isPart => by
      obtain ⟨behind, followed, -⟩ :=
        linked.canonical ((linked.closed_of_mem_mentions isMentioned).part isPart)
      exact ⟨behind, followed, Schema.ne_typedef_of_canonicalWithin followed⟩
    fieldIds := fun declared isDeclared fields isFields => by
      have wellFormed := linked.types declared isDeclared
      cases declared with
      | struct declared | union declared =>
        exact Option.some.inj isFields ▸ FieldsWellFormed.distinct wellFormed
      | _ => simp [TypeDeclaration.fields?] at isFields
    argumentsStructs := fun service isService method isMethod =>
      (passes.hasMethodStructs linked isService isMethod).1
    resultStructs := fun service isService method isMethod =>
      (passes.hasMethodStructs linked isService isMethod).2
    memberNames := fun declared isDeclared => linked.types _ isDeclared
    parents := fun service isService parent isParent => by
      obtain ⟨above, found⟩ := (linked.services service isService).parent parent isParent
      obtain ⟨isAbove, named⟩ := indexed.service?_eq_some.mp (Schema.service_eq_ok.mp found)
      exact ⟨above, isAbove, named⟩ }

/-- A document with a typedef, an enum and a constant. -/
def partsDocument : Document where
  path := "b.thrift"
  module := "b"
  definitions := [
    .typedef { name := "Label", target := .base .string },
    .enum { name := "Color", members := [{ name := "RED", number := some 1 }, { name := "BLUE" }] },
    .constant { name := "LIMIT", type := .base .i32, value := .int 7 }]

/-- A document that includes it, with two services, an exception, a recursive struct and a constant
of that struct. -/
def storeDocument : Document where
  path := "a.thrift"
  module := "a"
  includes := [{ path := "b.thrift" }]
  definitions := [
    .service { name := "S", parent := some "R", functions := [
      { name := "f", returns := some (.base .i32),
        arguments := [
          { id := 1, name := "times", type := .base .i32,
            default := some (.identifier "b.LIMIT") }],
        throws := [{ id := 1, name := "full", type := .named "Full" {} }] }] },
    .service { name := "R" },
    .exception { name := "Full", fields := [{ id := 1, name := "limit", type := .base .i64 }] },
    .struct { name := "Item", fields := [
      { id := 1, name := "label", requiredness := .required, type := .named "b.Label" {} },
      { id := 2, name := "color", type := .named "Color" {},
        default := some (.identifier "Color.BLUE") },
      { id := 3, name := "parts", type := .list (.named "Item" {}) }] },
    .constant { name := "BOLT", type := .named "Item" {}, value := .map [
      (.text "label", .text "bolt"), (.text "color", .int 1)] }]

/-- The qualified name of the typedef. -/
def labelName : String := "b.Label"

/-- The schema of the two documents. -/
def storeSchema : Schema :=
  .ofEntries [
    .struct ⟨"a.S.f_args", false, [
      { id := 1, name := "times", type := .i32, requiredness := .unspecified,
        default := some (.i32 7) }]⟩,
    .struct ⟨"a.S.f_result", false, [
      { id := 0, name := "success", type := .i32, requiredness := .optional },
      { id := 1, name := "full", type := .struct "a.Full", requiredness := .optional }]⟩,
    .struct ⟨"a.Full", true, [
      { id := 1, name := "limit", type := .i64, requiredness := .unspecified }]⟩,
    .typedef { name := labelName, target := .string },
    .struct ⟨"a.Item", false, [
      { id := 1, name := "label", type := .typedef labelName, requiredness := .required },
      { id := 2, name := "color", type := .enum "b.Color", requiredness := .unspecified,
        default := some (.enum 2 (some "BLUE")) },
      { id := 3, name := "parts", type := .list (.struct "a.Item"),
        requiredness := .unspecified }]⟩,
    .enum ⟨"b.Color", [⟨"RED", 1⟩, ⟨"BLUE", 2⟩]⟩]
  [
    { name := "a.S", parent := some "a.R", methods := [
      { name := "f",
        arguments := [
          { id := 1, name := "times", type := .i32, requiredness := .unspecified,
            default := some (.i32 7) }],
        returns := some .i32,
        throws := [
          { id := 1, name := "full", type := .struct "a.Full", requiredness := .optional }],
        oneway := false, argumentsStruct := "a.S.f_args", resultStruct := some "a.S.f_result" }] },
    { name := "a.R", parent := none, methods := [] }]
  [
    ⟨"a.BOLT", .struct "a.Item", .struct [(1, .string "bolt"), (2, .enum 1 (some "RED"))]⟩,
    ⟨"b.LIMIT", .i32, .i32 7⟩]

/-- The two documents link. -/
theorem link_storeDocument : link [storeDocument, partsDocument] = .ok storeSchema := by
  -- The equations of the linker's state by which this is evaluated come with the whole of Mathlib.
  cbv

/-- The schema of the two documents is a closed graph. -/
theorem storeSchema_is_closed : storeSchema.ClosedGraph := closedGraph_of_link link_storeDocument

end SchemaCodec
