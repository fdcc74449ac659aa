import SchemaCodec.Proofs.DeclaredNames
import SchemaCodec.Proofs.LinkOrder
import SchemaCodec.Proofs.SuppliedFields
import SchemaCodec.Proofs.TypedLiterals

/-!
# Entries that mirror definitions

What the entry of each definition has to look like, said of the documents and the entry alone:
references stand for the types to which their names refer, fields and members and methods come in
order, a default is there exactly where one counts, and the literal that is written for a default or
a constant means the value that is held. Neither the lookup nor the conversion of the linker has a
part in this: a name refers to a definition by its documents, and a literal means a value by its own
words. What an identifier means is left open, since it may name any constant.

The fields that linking leaves in an entry are shown to mirror their definitions, whatever owner
they have.
-/

namespace SchemaCodec

open Linking

namespace Scope

section Mirrors

variable (scope : Scope) (schema : Schema) (document : Document)

/-- A reference stands for a type: each name in it for the type that is declared by the definition
to which it refers. -/
inductive StandsFor : TypeReference → DataType → Prop where
  | base (type : BaseType) : StandsFor (.base type) type.type
  | list {element : TypeReference} {type : DataType} (inner : StandsFor element type) :
      StandsFor (.list element) (.list type)
  | set {element : TypeReference} {type : DataType} (inner : StandsFor element type) :
      StandsFor (.set element) (.set type)
  | map {key value : TypeReference} {keyType valueType : DataType}
      (keys : StandsFor key keyType) (values : StandsFor value valueType) :
      StandsFor (.map key value) (.map keyType valueType)
  | named {name : String} {span : Span} {home : Document} {found : Definition} {type : DataType}
      (refers : scope.Refers document name home found) (declares : found.type? home = some type) :
      StandsFor (.named name span) type

/-- A field mirrors its definition. Its owner tells whether it is optional in any case and whether
its default counts. -/
structure FieldMirrors (owner : FieldOwner) (definition : FieldDefinition) (field : Field) :
    Prop where
  id : field.id = definition.id
  name : field.name = definition.name
  type : scope.StandsFor document definition.type field.type
  requiredness : field.requiredness =
    if owner.allOptional then .optional else definition.requiredness
  default : Option.Rel Literal.Means
    (if owner.hasDefaults then definition.default else none) field.default

/-- Fields mirror their definitions, in order. -/
def FieldsMirror (owner : FieldOwner) : List FieldDefinition → List Field → Prop :=
  List.Forall₂ (scope.FieldMirrors document owner)

/-- The owner of what a method throws: all of it is optional, and no default counts. -/
def throwsOwner (service function : String) : FieldOwner :=
  { name := service ++ "." ++ function ++ "_result", allOptional := true, hasDefaults := false }

/-- A method mirrors its definition, and the structs in which it travels are there. The two structs
have names made of those of the service and the method, and a oneway method has no struct for a
result. -/
structure MethodMirrors (service : String) (definition : FunctionDefinition) (method : Method) :
    Prop where
  name : method.name = definition.name
  arguments : scope.FieldsMirror document (argumentsOwner service definition.name)
    definition.arguments method.arguments
  returns : Option.Rel (scope.StandsFor document) definition.returns method.returns
  throws : scope.FieldsMirror document (throwsOwner service definition.name)
    definition.throws method.throws
  oneway : method.oneway = definition.oneway
  argumentsStruct : method.argumentsStruct = service ++ "." ++ definition.name ++ "_args"
  resultStruct : method.resultStruct =
    if definition.oneway then none else some (service ++ "." ++ definition.name ++ "_result")
  structs : ∀ declared ∈ method.structs, schema.declaration? declared.name = some declared

/-- The entry of a definition mirrors it. There is one case for each kind of definition, and each
says what stands under the qualified name of the definition and how it relates to what was written:
types stand for references, fields mirror fields, and a constant has a value that its literal means.
-/
inductive Mirrors : Definition → Prop where
  | typedef {definition : TypedefDefinition} {target : DataType}
      (standsFor : scope.StandsFor document definition.target target)
      (entry : schema.declaration? (document.qualified definition.name) =
        some (.typedef { name := document.qualified definition.name, target })) :
      Mirrors (.typedef definition)
  | enum {definition : EnumDefinition} {members : List EnumMember}
      (names : members.map (·.name) = definition.members.map (·.name))
      (numbers : members.map (·.number.toInt) = numbersFrom 0 definition.members)
      (entry : schema.declaration? (document.qualified definition.name) =
        some (.enum ⟨document.qualified definition.name, members⟩)) :
      Mirrors (.enum definition)
  | struct {definition : StructDefinition} {fields : List Field}
      (mirror : scope.FieldsMirror document (declaredOwner document definition.name false)
        definition.fields fields)
      (entry : schema.declaration? (document.qualified definition.name) =
        some (.struct ⟨document.qualified definition.name, false, fields⟩)) :
      Mirrors (.struct definition)
  | exception {definition : StructDefinition} {fields : List Field}
      (mirror : scope.FieldsMirror document (declaredOwner document definition.name false)
        definition.fields fields)
      (entry : schema.declaration? (document.qualified definition.name) =
        some (.struct ⟨document.qualified definition.name, true, fields⟩)) :
      Mirrors (.exception definition)
  | union {definition : StructDefinition} {fields : List Field}
      (mirror : scope.FieldsMirror document (declaredOwner document definition.name true)
        definition.fields fields)
      (entry : schema.declaration? (document.qualified definition.name) =
        some (.union ⟨document.qualified definition.name, fields⟩)) :
      Mirrors (.union definition)
  | service {definition : ServiceDefinition} {parent : Option String} {methods : List Method}
      (parents : Option.Rel (fun name above => ∃ home known,
        scope.Refers document name home (.service known) ∧ home.qualified known.name = above)
        definition.parent parent)
      (mirror : List.Forall₂
        (scope.MethodMirrors schema document (document.qualified definition.name))
        definition.functions methods)
      (entry : schema.service (document.qualified definition.name) =
        .ok ⟨document.qualified definition.name, parent, methods⟩) :
      Mirrors (.service definition)
  | constant {definition : ConstantDefinition} {type : DataType} {value : Value}
      (standsFor : scope.StandsFor document definition.type type)
      (means : definition.value.Means value)
      (entry : schema.constant? (document.qualified definition.name) =
        some ⟨document.qualified definition.name, type, value⟩) :
      Mirrors (.constant definition)

end Mirrors

variable {scope : Scope} {document : Document}

/-- References are resolved to the types for which they stand.

Proof: from left to right by induction on the reference, which resolves its parts before itself;
from right to left by induction on what it stands for. In both directions a name is found exactly
where it refers, because orderly documents have one definition for each name. -/
theorem Orderly.resolve_eq_ok (orderly : scope.Orderly) (member : document ∈ scope.documents)
    {reference : TypeReference} {type : DataType} :
    scope.resolve document reference = .ok type ↔ scope.StandsFor document reference type := by
  constructor
  · intro resolved
    induction reference generalizing type with
    | base base =>
      obtain rfl := Except.ok.inj resolved
      exact .base base
    | list element inductionHypothesis =>
      obtain ⟨inner, isInner, same⟩ := Outcome.bind_eq_ok.mp resolved
      exact Except.ok.inj same ▸ .list (inductionHypothesis isInner)
    | set element inductionHypothesis =>
      obtain ⟨inner, isInner, same⟩ := Outcome.bind_eq_ok.mp resolved
      exact Except.ok.inj same ▸ .set (inductionHypothesis isInner)
    | map key value keyHypothesis valueHypothesis =>
      obtain ⟨keyType, isKey, resolved⟩ := Outcome.bind_eq_ok.mp resolved
      obtain ⟨valueType, isValue, same⟩ := Outcome.bind_eq_ok.mp resolved
      exact Except.ok.inj same ▸ .map (keyHypothesis isKey) (valueHypothesis isValue)
    | named name span =>
      obtain ⟨⟨home, found⟩, isFound, resolved⟩ := Outcome.bind_eq_ok.mp resolved
      have refers := (orderly.lookup_eq_some member).mp (lookupAt_eq_ok.mp isFound)
      refine .named refers ?_
      cases found with
      | service | constant => simp at resolved
      | _ => exact congrArg some (Except.ok.inj resolved)
  · intro standsFor
    induction standsFor with
    | base => rfl
    | list _ inductionHypothesis => exact Outcome.bind_eq_ok.mpr ⟨_, inductionHypothesis, rfl⟩
    | set _ inductionHypothesis => exact Outcome.bind_eq_ok.mpr ⟨_, inductionHypothesis, rfl⟩
    | map _ _ keyHypothesis valueHypothesis =>
      exact Outcome.bind_eq_ok.mpr ⟨_, keyHypothesis,
        Outcome.bind_eq_ok.mpr ⟨_, valueHypothesis, rfl⟩⟩
    | @named name span home found type refers declares =>
      have isFound := (orderly.lookup_eq_some member).mpr refers
      refine Outcome.bind_eq_ok.mpr ⟨(home, found), lookupAt_eq_ok.mpr isFound, ?_⟩
      cases found with
      | service | constant => simp [Definition.type?] at declares
      | _ => exact congrArg Except.ok (Option.some.inj declares)

/-- The parent of a service is the one to which its name refers. -/
theorem Orderly.parent_of_linkParent (orderly : scope.Orderly)
    (member : document ∈ scope.documents) {definition : ServiceDefinition} {parent : Option String}
    (linked : scope.linkParent document definition = .ok parent) :
    Option.Rel (fun name above => ∃ home known,
      scope.Refers document name home (.service known) ∧ home.qualified known.name = above)
      definition.parent parent := by
  unfold linkParent at linked
  cases isParent : definition.parent with
  | none =>
    rw [isParent] at linked
    exact Except.ok.inj linked ▸ .none
  | some name =>
    rw [isParent] at linked
    obtain ⟨⟨home, found⟩, isFound, linked⟩ := Outcome.bind_eq_ok.mp linked
    have refers := (orderly.lookup_eq_some member).mp (lookupAt_eq_ok.mp isFound)
    cases found with
    | service known => exact Except.ok.inj linked ▸ .some ⟨home, known, refers, rfl⟩
    | _ => simp at linked

/-- The fields that a method throws mirror their definitions. None of them has a default. -/
theorem Orderly.throwsMirror (orderly : scope.Orderly) (member : document ∈ scope.documents)
    {service : String} {function : FunctionDefinition} {method : Method}
    (follows : scope.MethodFollows document service function method) :
    scope.FieldsMirror document (throwsOwner service function.name) function.throws
      method.throws :=
  follows.throws.each.imp fun _ field thrown =>
    { id := thrown.id
      name := thrown.name
      type := (orderly.resolve_eq_ok member).mp thrown.type
      requiredness := thrown.requiredness
      default := by
        rw [thrown.default]
        exact .none }

/-- Members of an enum have the names of their definitions and the numbers that these give them. -/
theorem map_numbered {definitions : List MemberDefinition} {next : Int}
    (fit : ∀ number ∈ numbersFrom next definitions, -0x80000000 ≤ number ∧ number < 0x80000000) :
    (numbered definitions (numbersFrom next definitions)).map (·.name) =
        definitions.map (·.name) ∧
      (numbered definitions (numbersFrom next definitions)).map (·.number.toInt) =
        numbersFrom next definitions := by
  induction definitions generalizing next with
  | nil => exact ⟨rfl, rfl⟩
  | cons definition rest inductionHypothesis =>
    obtain ⟨⟨above, below⟩, fitBehind⟩ := List.forall_mem_cons.mp fit
    obtain ⟨names, numbers⟩ := inductionHypothesis fitBehind
    have kept := Int32.toInt_ofInt_of_le above below
    constructor
    · exact congrArg (definition.name :: ·) names
    · exact congrArg₂ List.cons kept numbers

/-- What a literal is converted to in a sound state, with the constants that are linked there, is a
value that the literal means. -/
theorem Sound.means_of_convert {last : Linking} (sound : scope.Sound last)
    {context : LiteralContext} (member : context.document ∈ scope.documents) {literal : Literal}
    {type : DataType} {value : Value}
    (converted : scope.convert scope.recalled context literal type last = .ok (value, last)) :
    literal.Means value :=
  (typed_convert member stepwise_recalled literal type sound converted).2

section Fields

variable {typed later : Linking} {supplied : Supply} {owner : FieldOwner}
  {definitions : List FieldDefinition} {fields : List Field}
  {addressed : PendingDefault → Prop} [DecidablePred addressed]

/-- The default of a field waits where it counts. -/
theorem awaited_eq_some {definition : FieldDefinition} {type : DataType}
    {pending : PendingDefault} :
    awaited document owner definition type = some pending ↔
      ∃ literal, (if owner.hasDefaults then definition.default else none) = some literal ∧
        { document, owner := owner.name, method := owner.method, id := definition.id,
          name := definition.name, type, literal, span := definition.span } = pending := by
  unfold awaited
  cases owner.hasDefaults <;> simp [Option.map_eq_some_iff]

/-- The defaults that wait for the fields of an owner are those of their definitions. -/
theorem mem_allAwaited {pending : PendingDefault} :
    pending ∈ allAwaited document owner definitions fields ↔
      ∃ definition field, (definition, field) ∈ definitions.zip fields ∧
        awaited document owner definition field.type = some pending := by
  simp [allAwaited, Prod.exists]

variable (filled : scope.Filled typed later supplied)
  (apart : ∀ first ∈ supplied, ∀ second ∈ supplied, first = second ∨ first.1.Apart second.1)
  (follow : scope.FieldsFollow document owner.allOptional definitions fields)
  (waits : ∀ pending ∈ typed.pending,
    addressed pending ↔ pending ∈ allAwaited document owner definitions fields)

include filled apart follow waits

omit apart in
/-- A field whose default does not count is supplied with none. -/
theorem Filled.default_of_none {definition : FieldDefinition} {field : Field}
    (beside : (definition, field) ∈ definitions.zip fields)
    (follows : scope.FieldFollows document owner.allOptional definition field)
    (ignored : (if owner.hasDefaults then definition.default else none) = none) :
    (field.supply addressed supplied).default = none := by
  rw [Field.supply_of_absent, follows.default]
  intro pair isSupplied isAddressed sameId
  have isPending : pair.1 ∈ typed.pending := filled.defaults ▸ List.mem_map_of_mem isSupplied
  obtain ⟨other, otherField, alsoBeside, isAwaited⟩ :=
    mem_allAwaited.mp ((waits _ isPending).mp isAddressed)
  obtain ⟨literal, counts, isPair⟩ := awaited_eq_some.mp isAwaited
  have otherId : other.id = definition.id := by
    rw [← follows.id, ← sameId, ← isPair]
  obtain rfl := List.inj_on_of_nodup_map follow.ids (List.of_mem_zip alsoBeside).1
    (List.of_mem_zip beside).1 otherId
  simp [ignored] at counts

/-- A field whose default counts is supplied with a value that its literal means.

Proof: its default waits behind the first pass, so it is among those that are supplied. No other one
reaches the field, since what is supplied goes to places that are apart. The value was converted
with the last constants, and the last state is sound. -/
theorem Filled.default_of_some (sound : scope.Sound later) (member : document ∈ scope.documents)
    (known : ∀ pending ∈ allAwaited document owner definitions fields, pending ∈ typed.pending)
    {definition : FieldDefinition} {field : Field} {literal : Literal}
    (beside : (definition, field) ∈ definitions.zip fields)
    (follows : scope.FieldFollows document owner.allOptional definition field)
    (counts : (if owner.hasDefaults then definition.default else none) = some literal) :
    ∃ value, (field.supply addressed supplied).default = some value ∧ literal.Means value := by
  have isAwaited : awaited document owner definition field.type = some _ :=
    awaited_eq_some.mpr ⟨literal, counts, rfl⟩
  have among := mem_allAwaited.mpr ⟨definition, field, beside, isAwaited⟩
  have isPending := known _ among
  rw [← filled.defaults] at isPending
  obtain ⟨pair, isSupplied, isPair⟩ := List.mem_map.mp isPending
  have isAddressed : addressed pair.1 :=
    (waits _ (isPair ▸ known _ among)).mpr (isPair ▸ among)
  have sameId : pair.1.id = field.id := by
    rw [isPair]
    exact follows.id.symm
  refine ⟨pair.2, Field.default_supply isSupplied isAddressed sameId ?_, ?_⟩
  · intro other isOther alsoAddressed alsoId
    have alsoPending : other.1 ∈ typed.pending := filled.defaults ▸ List.mem_map_of_mem isOther
    have alsoAmong := (waits _ alsoPending).mp alsoAddressed
    have sameOwner : other.1.owner = pair.1.owner := by
      rw [(follow.awaited alsoAmong).1, isPair]
    rcases apart other isOther pair isSupplied with same | differ
    · exact same
    · exact absurd (alsoId.trans sameId.symm) (differ.owner sameOwner)
  · have converts := filled.converts pair isSupplied
    rw [isPair] at converts
    exact sound.means_of_convert member converts

/-- The fields of an owner mirror their definitions once the defaults that wait for them are
supplied.

Proof: supplying defaults changes a field in nothing but its default, so id, name, type and
requiredness are those with which the field was linked. The default is none where the definition has
none that counts, and otherwise the value of its literal. -/
theorem Filled.fieldsMirror (sound : scope.Sound later) (orderly : scope.Orderly)
    (member : document ∈ scope.documents)
    (known : ∀ pending ∈ allAwaited document owner definitions fields, pending ∈ typed.pending) :
    scope.FieldsMirror document owner definitions
      (fields.map (Field.supply addressed supplied)) := by
  refine List.forall₂_map_right_iff.mpr (List.forall₂_iff_zip.mpr ⟨follow.each.length_eq, ?_⟩)
  intro definition field beside
  have follows := (List.forall₂_iff_zip.mp follow.each).2 beside
  obtain ⟨default, same⟩ : ∃ default, field.supply addressed supplied = { field with default } :=
    field.supply_eq
  have sameDefault : (field.supply addressed supplied).default = default := by rw [same]
  rw [same]
  refine ⟨follows.id, follows.name, (orderly.resolve_eq_ok member).mp follows.type,
    follows.requiredness, ?_⟩
  rw [← sameDefault]
  cases counts : (if owner.hasDefaults then definition.default else none) with
  | none =>
    rw [filled.default_of_none follow waits beside follows counts]
    exact .none
  | some literal =>
    obtain ⟨value, isDefault, means⟩ :=
      filled.default_of_some apart follow waits sound member known beside follows counts
    rw [isDefault]
    exact .some means

end Fields

end Scope

end SchemaCodec
