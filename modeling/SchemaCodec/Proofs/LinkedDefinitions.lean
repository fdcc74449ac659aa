import SchemaCodec.Proofs.LinkAdditions
import SchemaCodec.Proofs.Pairing

/-!
# What linking a definition adds

Linking a definition adds the declaration that follows it: fields with the types that their
references stand for, members with their numbers, methods with the structs in which they travel, and
the defaults of fields put aside.

Main statement: when the definitions of all documents are linked, the schema holds what they
declare, in order, and typedefs in between.
-/

namespace SchemaCodec

open Linking

/-- The structs in which a method travels. -/
def Method.structs (method : Method) : List TypeDeclaration :=
  .struct ⟨method.argumentsStruct, false, method.arguments⟩ ::
    (method.resultStruct.map fun result =>
      .struct ⟨result, false, Scope.resultFields method.returns method.throws⟩).toList

namespace Scope

variable {scope : Scope}

section Enums

/-- The numbers of members: each has its own, or the one after the member before it. -/
def numbersFrom (next : Int) : List MemberDefinition → List Int
  | [] => []
  | member :: rest =>
    let number := member.number.getD next
    number :: numbersFrom (number + 1) rest

/-- Members of an enum with their numbers. -/
def numbered (definitions : List MemberDefinition) (numbers : List Int) : List EnumMember :=
  List.zipWith (fun definition number => ⟨definition.name, Int32.ofInt number⟩) definitions numbers

/-- Members are linked when their names are distinct and new and all numbers fit.

Proof: by induction on the members, with the names before them and the next number. A taken name and
a number outside the range fail on both sides, and otherwise both sides go on with the rest. -/
theorem linkMembers_eq_ok {document : Document} {enum : String}
    {definitions : List MemberDefinition} {names : List String} {next : Int}
    {members : List EnumMember} :
    linkMembers document enum definitions names next = .ok members ↔
      SeenOnce (·.name) names definitions ∧
        (∀ number ∈ numbersFrom next definitions, -0x80000000 ≤ number ∧ number < 0x80000000) ∧
        numbered definitions (numbersFrom next definitions) = members := by
  induction definitions generalizing names next members with
  | nil => simp [linkMembers, seenOnce_nil, numbersFrom, numbered]
  | cons definition rest inductionHypothesis =>
    simp only [linkMembers, numbersFrom, numbered, seenOnce_cons, List.forall_mem_cons,
      List.zipWith_cons_cons]
    by_cases taken : definition.name ∈ names
    · simp [taken]
    · by_cases outside : definition.number.getD next < -0x80000000 ∨
        0x80000000 ≤ definition.number.getD next
      · rw [if_neg taken, if_pos outside]
        simp only [reduceCtorEq, false_iff]
        rintro ⟨-, ⟨⟨above, below⟩, -⟩, -⟩
        omega
      · rw [if_neg taken, if_neg outside, Outcome.bind_eq_ok]
        simp only [inductionHypothesis, Except.ok.injEq]
        constructor
        · rintro ⟨others, ⟨distinct, fit, rfl⟩, rfl⟩
          exact ⟨⟨taken, distinct⟩, ⟨by omega, fit⟩, rfl⟩
        · rintro ⟨⟨-, distinct⟩, ⟨-, fit⟩, rfl⟩
          exact ⟨_, ⟨distinct, fit, rfl⟩, rfl⟩

end Enums

/-- The owner of the fields of a struct, an exception or a union. -/
def declaredOwner (document : Document) (name : String) (allOptional : Bool) : FieldOwner :=
  { name := document.qualified name, allOptional, hasDefaults := true }

/-- The owner of the arguments of a method. -/
def argumentsOwner (service function : String) : FieldOwner :=
  { name := service ++ "." ++ function ++ "_args", allOptional := false, hasDefaults := true,
    method := some (service, function) }

/-- A method follows its definition, as a method of a service. It says what a run has checked about
the definition beside what it has made of it, so the same fact serves to describe the schema and to
show that the documents are well formed. -/
structure MethodFollows (scope : Scope) (document : Document) (service : String)
    (definition : FunctionDefinition) (method : Method) : Prop where
  name : method.name = definition.name
  arguments : scope.FieldsFollow document false definition.arguments method.arguments
  returns : Option.Rel (fun reference type => scope.resolve document reference = .ok type)
    definition.returns method.returns
  exceptions : ∀ field ∈ definition.throws, scope.checkException document field = .ok ()
  throws : scope.FieldsFollow document true definition.throws method.throws
  oneway : method.oneway = definition.oneway
  /-- A oneway method neither returns nor throws. -/
  silent : definition.oneway → definition.returns = none ∧ definition.throws = []
  /-- What is returned has the id zero to itself. -/
  free : definition.returns.isSome → ∀ field ∈ definition.throws, field.id ≠ 0
  argumentsStruct : method.argumentsStruct = service ++ "." ++ definition.name ++ "_args"
  resultStruct : method.resultStruct =
    if definition.oneway then none else some (service ++ "." ++ definition.name ++ "_result")

/-- Methods follow their definitions, which have each name once. -/
structure MethodsFollow (scope : Scope) (document : Document) (service : String)
    (definitions : List FunctionDefinition) (methods : List Method) : Prop where
  each : List.Forall₂ (scope.MethodFollows document service) definitions methods
  names : (definitions.map (·.name)).Nodup

/-- What linking adds for a method. -/
def methodAdditions (document : Document) (service : String) (definition : FunctionDefinition)
    (method : Method) : Additions where
  types := method.structs
  pending := allAwaited document (argumentsOwner service definition.name) definition.arguments
    method.arguments

section Services

variable {document : Document} {linking later : Linking} {service : String}

/-- What a method returns is the type that its reference stands for. -/
theorem gains_linkReturns (member : document ∈ scope.documents) {reference : Option TypeReference}
    {returns : Option DataType}
    (ran : scope.linkReturns document reference linking = .ok (returns, later)) :
    Option.Rel (fun reference type => scope.resolve document reference = .ok type) reference
      returns ∧ scope.Gains linking later {} := by
  cases reference with
  | none =>
    obtain ⟨rfl, rfl⟩ := pure_eq_ok.mp ran
    exact ⟨.none, .refl⟩
  | some reference =>
    simp only [linkReturns, bind_eq_ok, pure_eq_ok] at ran
    obtain ⟨type, _, linked, rfl, rfl⟩ := ran
    obtain ⟨resolved, gains⟩ := gains_linkReference member linked
    exact ⟨.some resolved, gains⟩

/-- Of two related results, either both are there or neither. -/
theorem isSome_of_rel {related : α → β → Prop} {first : Option α} {second : Option β}
    (both : Option.Rel related first second) : first.isSome = second.isSome := by
  cases both <;> rfl

/-- Without defaults nothing waits. -/
theorem allAwaited_of_ignored {owner : FieldOwner} (ignored : owner.hasDefaults = false)
    (definitions : List FieldDefinition) (fields : List Field) :
    allAwaited document owner definitions fields = [] := by
  simp [allAwaited, awaited, ignored]

/-- A field with an id follows a definition with that id. -/
theorem any_id_of_follows {allOptional : Bool} {definitions : List FieldDefinition}
    {fields : List Field}
    (each : List.Forall₂ (scope.FieldFollows document allOptional) definitions fields)
    (id : Int16) : fields.any (·.id = id) = definitions.any (·.id = id) := by
  induction each with
  | nil => rfl
  | cons follows _ inductionHypothesis =>
    simp only [List.any_cons, inductionHypothesis, follows.id]

/-- The struct of a result is added unless the method is oneway. -/
theorem gains_linkResult (scope : Scope) {function : FunctionDefinition} {name : String}
    {returns : Option DataType} {throws : List Field} {result : Option String}
    (ran : linkResult document function name returns throws linking = .ok (result, later)) :
    result = (if function.oneway then none else some name) ∧
      (function.oneway ∨ ¬(returns.isSome ∧ throws.any (·.id = 0))) ∧
      scope.Gains linking later
        { types := (result.map fun result =>
            .struct ⟨result, false, resultFields returns throws⟩).toList } := by
  unfold linkResult at ran
  split at ran
  · next oneway =>
    obtain ⟨rfl, rfl⟩ := pure_eq_ok.mp ran
    exact ⟨by simp [oneway], .inl oneway, .refl⟩
  · next twoway =>
    simp only [bind_eq_ok, failIf_eq_ok, pure_eq_ok] at ran
    obtain ⟨_, _, ⟨free, rfl⟩, _, _, added, rfl, rfl⟩ := ran
    exact ⟨by simp [twoway], .inr free, gains_insertType added⟩

/-- A method that is linked follows its definition; the structs in which it travels are added.

Proof: the run is taken apart into its steps, each of which gains something of its own: the fields
of the arguments, the result and the exceptions, and the two structs. Added up in this order they
are the additions of the method. A oneway method passes its check only without a result and without
exceptions. -/
theorem gains_linkMethod (member : document ∈ scope.documents) {function : FunctionDefinition}
    {method : Method}
    (ran : scope.linkMethod document service function linking = .ok (method, later)) :
    scope.MethodFollows document service function method ∧
      scope.Gains linking later (methodAdditions document service function method) := by
  simp only [linkMethod, bind_eq_ok, failIf_eq_ok, given_eq_ok, pure_eq_ok] at ran
  obtain ⟨arguments, _, isArguments, returns, _, isReturns, _, _, ⟨checked, rfl⟩, throws, _,
    isThrows, _, _, ⟨voidIfOneway, rfl⟩, _, _, added, resultStruct, _, isResult, rfl, rfl⟩ := ran
  obtain ⟨argumentsFollow, first⟩ := gains_linkAllFields member isArguments
  obtain ⟨returnsFollow, second⟩ := gains_linkReturns member isReturns
  obtain ⟨throwsFollow, third⟩ := gains_linkAllFields member isThrows
  have fourth : scope.Gains _ _ _ := gains_insertType added
  obtain ⟨named, freeUnlessOneway, fifth⟩ := scope.gains_linkResult isResult
  rw [allAwaited_of_ignored rfl] at third
  have silent : function.oneway → function.returns = none ∧ function.throws = [] := by
    intro oneway
    have nothing : returns = none ∧ throws = [] := by simpa [oneway] using voidIfOneway
    obtain ⟨rfl, rfl⟩ := nothing
    exact ⟨by simpa using isSome_of_rel returnsFollow,
      List.forall₂_nil_right_iff.mp throwsFollow.each⟩
  refine ⟨⟨rfl, argumentsFollow, returnsFollow, Outcome.forM_eq_ok.mp checked, throwsFollow, rfl,
    silent, fun returned field isThrown isZero => ?_, rfl, named⟩, ?_⟩
  · rcases freeUnlessOneway with oneway | free
    · simp [(silent oneway).1] at returned
    · refine free ⟨isSome_of_rel returnsFollow ▸ returned, ?_⟩
      rw [any_id_of_follows throwsFollow.each]
      exact List.any_eq_true.mpr ⟨field, isThrown, decide_eq_true isZero⟩
  · have all := ((((first.before second).trans third).trans fourth).trans fifth)
    simpa [Additions.append, methodAdditions, Method.structs, argumentsOwner] using all

/-- What linking adds for the methods of a service. -/
def methodsAdditions (document : Document) (service : String)
    (definitions : List FunctionDefinition) (methods : List Method) : Additions :=
  .all ((definitions.zip methods).map fun pair => methodAdditions document service pair.1 pair.2)

/-- Methods add no services. -/
@[simp] theorem services_methodsAdditions (document : Document) (service : String)
    (definitions : List FunctionDefinition) (methods : List Method) :
    (methodsAdditions document service definitions methods).services = [] := by
  simp only [methodsAdditions, Additions.all, List.flatMap_eq_nil_iff, List.mem_map]
  rintro _ ⟨pair, -, rfl⟩
  rfl

/-- What is added for a method of a service is added for the service. -/
theorem mem_methodsAdditions {document : Document} {service : String}
    {definitions : List FunctionDefinition} {methods : List Method}
    (each : List.Forall₂ (scope.MethodFollows document service) definitions methods)
    {method : Method} (isMethod : method ∈ methods) :
    ∃ definition, scope.MethodFollows document service definition method ∧
      (∀ declared ∈ method.structs,
        declared ∈ (methodsAdditions document service definitions methods).types) := by
  obtain ⟨definition, beside, follows⟩ := Pairing.exists_zip_of_mem_right each isMethod
  refine ⟨definition, follows, fun declared member => List.mem_flatMap.mpr
    ⟨methodAdditions document service definition method, ?_, member⟩⟩
  exact List.mem_map.mpr ⟨(definition, method), beside, rfl⟩

/-- Methods that are linked follow their definitions, none of which has a name from before. -/
theorem gains_linkMethods (member : document ∈ scope.documents)
    {functions : List FunctionDefinition} {names : List String} {methods : List Method}
    (ran : scope.linkMethods document service functions names linking = .ok (methods, later)) :
    List.Forall₂ (scope.MethodFollows document service) functions methods ∧
      SeenOnce (·.name) names functions ∧
        scope.Gains linking later (methodsAdditions document service functions methods) := by
  induction functions generalizing names methods linking with
  | nil =>
    obtain ⟨rfl, rfl⟩ := pure_eq_ok.mp ran
    exact ⟨.nil, seenOnce_nil, .refl⟩
  | cons function rest inductionHypothesis =>
    simp only [linkMethods, bind_eq_ok, failIf_eq_ok, pure_eq_ok] at ran
    obtain ⟨_, _, ⟨new, rfl⟩, method, _, isMethod, others, _, isOthers, rfl, rfl⟩ := ran
    obtain ⟨follows, first⟩ := gains_linkMethod member isMethod
    obtain ⟨each, distinct, second⟩ := inductionHypothesis isOthers
    exact ⟨.cons follows each, seenOnce_cons.mpr ⟨new, distinct⟩, first.trans second⟩

end Services

/-- What a definition declares when it is linked. A typedef may be there already when its turn
comes, and constants wait, so neither adds anything of its own. -/
inductive Declares (scope : Scope) (document : Document) : Definition → Additions → Prop where
  | constant (definition : ConstantDefinition) : Declares scope document (.constant definition) {}
  | typedef (definition : TypedefDefinition) : Declares scope document (.typedef definition) {}
  | enum (definition : EnumDefinition) (distinct : (definition.members.map (·.name)).Nodup)
      (fit : ∀ number ∈ numbersFrom 0 definition.members,
        -0x80000000 ≤ number ∧ number < 0x80000000) :
      Declares scope document (.enum definition)
        { types := [.enum ⟨document.qualified definition.name,
            numbered definition.members (numbersFrom 0 definition.members)⟩] }
  | struct (definition : StructDefinition) (fields : List Field)
      (follow : scope.FieldsFollow document false definition.fields fields) :
      Declares scope document (.struct definition)
        { types := [.struct ⟨document.qualified definition.name, false, fields⟩]
          pending := allAwaited document (declaredOwner document definition.name false)
            definition.fields fields }
  | exception (definition : StructDefinition) (fields : List Field)
      (follow : scope.FieldsFollow document false definition.fields fields) :
      Declares scope document (.exception definition)
        { types := [.struct ⟨document.qualified definition.name, true, fields⟩]
          pending := allAwaited document (declaredOwner document definition.name false)
            definition.fields fields }
  | union (definition : StructDefinition) (fields : List Field)
      (follow : scope.FieldsFollow document true definition.fields fields) :
      Declares scope document (.union definition)
        { types := [.union ⟨document.qualified definition.name, fields⟩]
          pending := allAwaited document (declaredOwner document definition.name true)
            definition.fields fields }
  | service (definition : ServiceDefinition) (parent : Option String) (methods : List Method)
      (extended : scope.linkParent document definition = .ok parent)
      (follow : scope.MethodsFollow document (document.qualified definition.name)
        definition.functions methods) :
      Declares scope document (.service definition)
        ((methodsAdditions document (document.qualified definition.name) definition.functions
          methods).append { services := [⟨document.qualified definition.name, parent, methods⟩] })

section Definitions

variable {document : Document} {linking later : Linking}

/-- A service that is added is gained. -/
theorem gains_insertService {span : Span} {declared : Service} {result : Unit}
    (ran : insertService document span declared linking = .ok (result, later)) :
    scope.Gains linking later { services := [declared] } := by
  obtain ⟨free, rfl⟩ := insertService_eq_ok.mp ran
  exact ⟨⟨[], by simp [Schema.addService], .refl _, by simp⟩, rfl, rfl, by simp, id,
    (·.addService free)⟩

/-- A type with fields is added behind their defaults. -/
theorem gains_linkOwner (member : document ∈ scope.documents) {owner : FieldOwner}
    {definitions : List FieldDefinition} {fields : List Field} {between : Linking} {span : Span}
    {declared : TypeDeclaration} {result : Unit}
    (isFields : scope.linkFields document owner definitions [] [] linking = .ok (fields, between))
    (added : insertType document span declared between = .ok (result, later)) :
    scope.FieldsFollow document owner.allOptional definitions fields ∧ scope.Gains linking later
      { types := [declared], pending := allAwaited document owner definitions fields } := by
  obtain ⟨follow, first⟩ := gains_linkAllFields member isFields
  have both := first.trans (gains_insertType added)
  exact ⟨follow, by simpa [Additions.append] using both⟩

/-- Linking a definition adds what it declares.

Proof: by the form of the definition. Its fields, members or methods are linked first, and what they
gain together with the type or service that is inserted is what the definition declares. -/
theorem gains_linkDefinition (member : document ∈ scope.documents) {found : Definition}
    (isFound : found ∈ document.definitions) {result : Unit}
    (ran : scope.linkDefinition document found linking = .ok (result, later)) :
    ∃ added, scope.Declares document found added ∧ scope.Gains linking later added := by
  cases found with
  | constant definition =>
    obtain ⟨-, rfl⟩ := pure_eq_ok.mp ran
    exact ⟨_, .constant definition, .refl⟩
  | typedef definition => exact ⟨_, .typedef definition, gains_linkTypedef member isFound ran⟩
  | enum definition =>
    simp only [linkDefinition, linkEnum, bind_eq_ok, given_eq_ok] at ran
    obtain ⟨members, _, ⟨isMembers, rfl⟩, added⟩ := ran
    obtain ⟨distinct, fit, rfl⟩ := linkMembers_eq_ok.mp isMembers
    exact ⟨_, .enum definition (seenOnce_start.mp distinct) fit, gains_insertType added⟩
  | struct definition =>
    simp only [linkDefinition, linkStruct, bind_eq_ok] at ran
    obtain ⟨fields, _, isFields, added⟩ := ran
    obtain ⟨follow, gains⟩ := gains_linkOwner member isFields added
    exact ⟨_, .struct definition fields follow, gains⟩
  | exception definition =>
    simp only [linkDefinition, linkStruct, bind_eq_ok] at ran
    obtain ⟨fields, _, isFields, added⟩ := ran
    obtain ⟨follow, gains⟩ := gains_linkOwner member isFields added
    exact ⟨_, .exception definition fields follow, gains⟩
  | union definition =>
    simp only [linkDefinition, linkUnion, bind_eq_ok] at ran
    obtain ⟨fields, _, isFields, added⟩ := ran
    obtain ⟨follow, gains⟩ := gains_linkOwner member isFields added
    exact ⟨_, .union definition fields follow, gains⟩
  | service definition =>
    simp only [linkDefinition, linkService, bind_eq_ok, given_eq_ok] at ran
    obtain ⟨parent, _, ⟨extended, rfl⟩, methods, _, isMethods, added⟩ := ran
    obtain ⟨each, distinct, first⟩ := gains_linkMethods member isMethods
    exact ⟨_, .service definition parent methods extended ⟨each, seenOnce_start.mp distinct⟩,
      first.trans (gains_insertService added)⟩

end Definitions

/-- All definitions, each with the document that it stands in, in the order of linking. -/
def definitions (scope : Scope) : List (Document × Definition) :=
  scope.documents.flatMap fun document => document.definitions.map (document, ·)

/-- A definition stands in a document of the scope. -/
theorem mem_definitions {document : Document} {found : Definition} :
    (document, found) ∈ scope.definitions ↔
      document ∈ scope.documents ∧ found ∈ document.definitions := by
  simp [definitions]

/-- There are as many definitions as the size of the scope says. -/
theorem length_definitions (scope : Scope) : scope.definitions.length = scope.size := by
  simp [definitions, size, List.length_flatMap]

/-- Steps over the definitions of each document are steps over all definitions. -/
theorem forM_definitions (scope : Scope) (step : Document → Definition → LinkM Unit) :
    (scope.documents.forM fun document => document.definitions.forM (step document)) =
      scope.definitions.forM fun pair => step pair.1 pair.2 := by
  unfold definitions
  induction scope.documents with
  | nil => rfl
  | cons document rest inductionHypothesis =>
    have unfolded (step : Document → LinkM Unit) :
        (document :: rest).forM step = step document >>= fun _ => rest.forM step := rfl
    rw [unfolded, inductionHypothesis, List.flatMap_cons]
    simp [List.forM_append]

/-- Definitions that are linked in a row add what they declare, in order. -/
theorem gains_forM {pairs : List (Document × Definition)} (known : pairs ⊆ scope.definitions)
    {linking later : Linking} {result : Unit}
    (ran : (pairs.forM fun pair => scope.linkDefinition pair.1 pair.2) linking =
      .ok (result, later)) :
    ∃ additions, List.Forall₂ (fun pair added => scope.Declares pair.1 pair.2 added) pairs
      additions ∧ scope.Gains linking later (.all additions) := by
  induction pairs generalizing linking with
  | nil =>
    obtain ⟨-, rfl⟩ := pure_eq_ok.mp ran
    exact ⟨[], .nil, .refl⟩
  | cons pair rest inductionHypothesis =>
    obtain ⟨between, here, there⟩ := forM_cons_eq_ok.mp ran
    obtain ⟨member, isFound⟩ := mem_definitions.mp (known List.mem_cons_self)
    obtain ⟨added, declares, first⟩ := gains_linkDefinition member isFound here
    obtain ⟨additions, each, second⟩ := inductionHypothesis (List.subset_of_cons_subset known) there
    exact ⟨added :: additions, .cons declares each, first.trans second⟩

/-- Linking the definitions of all documents adds what they declare, in order. -/
theorem gains_linkDefinitions {linking later : Linking} {result : Unit}
    (ran : (scope.documents.forM fun document =>
      document.definitions.forM (scope.linkDefinition document)) linking = .ok (result, later)) :
    ∃ additions, List.Forall₂ (fun pair added => scope.Declares pair.1 pair.2 added)
      scope.definitions additions ∧ scope.Gains linking later (.all additions) := by
  rw [forM_definitions] at ran
  exact gains_forM (List.Subset.refl _) ran

/-- The three passes of linking: definitions, constants and defaults, with the states behind
them. -/
structure Passes (scope : Scope) (typed settled later : Linking) : Prop where
  definitions : (scope.documents.forM fun document =>
    document.definitions.forM (scope.linkDefinition document)) {} = .ok ((), typed)
  constants : (scope.documents.forM fun document =>
    document.definitions.forM (scope.linkIfConstant document)) typed = .ok ((), settled)
  defaults : scope.linkDefaults settled.pending settled = .ok ((), later)

/-- Documents link when they form a scope on which all passes succeed. -/
theorem link_eq_ok {documents : List Document} {schema : Schema} :
    link documents = .ok schema ↔ ∃ scope, ofDocuments documents = .ok scope ∧
      ∃ typed settled later, scope.Passes typed settled later ∧ later.schema = schema := by
  unfold link
  simp only [Outcome.bind_eq_ok, Except.ok.injEq]
  refine exists_congr fun scope => and_congr_right fun _ => ?_
  constructor
  · rintro ⟨⟨_, later⟩, ran, same⟩
    simp only [linkAll, StateT.run, bind_eq_ok] at ran
    obtain ⟨_, typed, definitions, _, settled, constants, _, _, met, defaults⟩ := ran
    obtain ⟨rfl, rfl⟩ := Prod.mk.inj (Except.ok.inj met)
    exact ⟨typed, settled, later, ⟨definitions, constants, defaults⟩, same⟩
  · rintro ⟨typed, settled, later, passes, same⟩
    refine ⟨((), later), ?_, same⟩
    simp only [linkAll, StateT.run, bind_eq_ok]
    exact ⟨_, typed, passes.definitions, _, settled, passes.constants, _, _, rfl, passes.defaults⟩

/-- After the first pass the state has gained what all definitions declare. -/
theorem Passes.gains {typed settled later : Linking} (passes : scope.Passes typed settled later) :
    ∃ additions, List.Forall₂ (fun pair added => scope.Declares pair.1 pair.2 added)
      scope.definitions additions ∧ scope.Gains {} typed (.all additions) :=
  gains_linkDefinitions passes.definitions

end Scope

end SchemaCodec
