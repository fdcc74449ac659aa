import SchemaCodec.Proofs.LinkSteps

/-!
# What a schema promises once it is linked

A declaration is well formed when its ids and members are distinct and the types in it may be used.
While linking is on its way, a type may be used when the documents define it; once all definitions
are linked, each of these is registered, and no name leads out of the schema any more.
-/

namespace SchemaCodec

/-- Every name in a type is known for the kind that the type gives it. -/
def DataType.NamesOnly (known : String → DataType → Prop) : DataType → Prop
  | .list element | .set element => element.NamesOnly known
  | .map key value => key.NamesOnly known ∧ value.NamesOnly known
  | .struct name => known name (.struct name)
  | .union name => known name (.union name)
  | .enum name => known name (.enum name)
  | .typedef name => known name (.typedef name)
  | _ => True

/-- Every name in a type, also inside containers, is registered with that very kind. A struct is not
named as a union, nor a typedef as what stands behind it. -/
def Schema.Closed (schema : Schema) : DataType → Prop :=
  DataType.NamesOnly fun name type => schema.resolve name = .ok type

/-- What is known of names may be told in other words. -/
theorem DataType.NamesOnly.imp {known also : String → DataType → Prop} {type : DataType}
    (names : type.NamesOnly known) (weaken : ∀ {name type}, known name type → also name type) :
    type.NamesOnly also := by
  induction type with
  | list element inductionHypothesis => exact inductionHypothesis names
  | set element inductionHypothesis => exact inductionHypothesis names
  | map key value keyHypothesis valueHypothesis =>
    exact ⟨keyHypothesis names.1, valueHypothesis names.2⟩
  | struct name => exact weaken names
  | union name => exact weaken names
  | enum name => exact weaken names
  | typedef name => exact weaken names
  | _ => trivial

/-- The fields of one owner: each id once, and types that may be used. -/
structure FieldsWellFormed (usable : DataType → Prop) (fields : List Field) : Prop where
  distinct : (fields.map (·.id)).Nodup
  types : ∀ field ∈ fields, usable field.type

/-- A declared type: field ids and member names are distinct, and the types of fields, or the target
of a typedef, may be used. Which types may be used is given from outside. -/
def TypeDeclaration.WellFormed (usable : DataType → Prop) : TypeDeclaration → Prop
  | .struct declared => FieldsWellFormed usable declared.fields
  | .union declared => FieldsWellFormed usable declared.fields
  | .enum declared => (declared.members.map (·.name)).Nodup
  | .typedef declared => usable declared.target

/-- A method: its arguments and what it throws are well formed as the fields of a struct are, and
what it returns may be used. -/
structure Method.WellFormed (usable : DataType → Prop) (method : Method) : Prop where
  arguments : FieldsWellFormed usable method.arguments
  returns : ∀ type ∈ method.returns, usable type
  throws : FieldsWellFormed usable method.throws

/-- A service: its methods are well formed, and what it extends, if anything, may be extended. That
a chain of services ends is not asked for. -/
structure Service.WellFormed (usable : DataType → Prop) (extendable : String → Prop)
    (service : Service) : Prop where
  parent : ∀ parent ∈ service.parent, extendable parent
  methods : ∀ method ∈ service.methods, method.WellFormed usable

/-- All of a schema: indexes that invert the entries, and declarations that are well formed. It is
said relative to the types that may be used and the services that may be extended, so that it holds
while these are still to come: in the midst of linking they are what the documents declare, and in
the end what the schema has registered. -/
structure Schema.WellFormed (usable : DataType → Prop) (extendable : String → Prop)
    (schema : Schema) : Prop where
  indexed : schema.Indexed
  types : ∀ declared ∈ schema.types, declared.WellFormed usable
  services : ∀ declared ∈ schema.services, declared.WellFormed usable extendable
  constants : ∀ declared ∈ schema.constants, usable declared.type
  /-- A chain of typedefs ends. -/
  chains : ∀ {name}, schema.resolve name = .ok (.typedef name) →
    ∃ behind, ∀ start,
      schema.canonicalWithin start (schema.types.length + 1) (.typedef name) = .ok behind

/-- No two types of a well-formed schema have one name. -/
theorem Schema.WellFormed.names {usable : DataType → Prop} {extendable : String → Prop}
    {schema : Schema} (wellFormed : schema.WellFormed usable extendable) :
    (schema.types.map (·.name)).Nodup :=
  wellFormed.indexed.types.nodup

section Weakening

variable {usable useful : DataType → Prop}

/-- Fields stay well formed when more types may be used. -/
theorem FieldsWellFormed.imp {fields : List Field} (wellFormed : FieldsWellFormed usable fields)
    (weaken : ∀ {type}, usable type → useful type) : FieldsWellFormed useful fields :=
  ⟨wellFormed.distinct, fun field member => weaken (wellFormed.types field member)⟩

/-- A declared type stays well formed when more types may be used. -/
theorem TypeDeclaration.WellFormed.imp {declared : TypeDeclaration}
    (wellFormed : declared.WellFormed usable) (weaken : ∀ {type}, usable type → useful type) :
    declared.WellFormed useful := by
  cases declared with
  | struct declared => exact FieldsWellFormed.imp wellFormed weaken
  | union declared => exact FieldsWellFormed.imp wellFormed weaken
  | enum declared => exact wellFormed
  | typedef declared => exact weaken wellFormed

/-- A schema stays well formed when more types may be used and more services extended. -/
theorem Schema.WellFormed.imp {extendable extensible : String → Prop} {schema : Schema}
    (wellFormed : schema.WellFormed usable extendable)
    (weaken : ∀ {type}, usable type → useful type)
    (loosen : ∀ {name}, extendable name → extensible name) :
    schema.WellFormed useful extensible where
  indexed := wellFormed.indexed
  types declared member := (wellFormed.types declared member).imp weaken
  services declared member :=
    ⟨fun parent isParent => loosen ((wellFormed.services declared member).parent parent isParent),
      fun method isMethod =>
        have methodWellFormed := (wellFormed.services declared member).methods method isMethod
        ⟨methodWellFormed.arguments.imp weaken,
          fun type isReturned => weaken (methodWellFormed.returns type isReturned),
          methodWellFormed.throws.imp weaken⟩⟩
  constants declared member := weaken (wellFormed.constants declared member)
  chains := wellFormed.chains

end Weakening

section Defaults

variable {usable : DataType → Prop}

/-- A default leaves the id of a field as it is. -/
@[simp] theorem Field.id_withDefault (id : Int16) (value : Value) (field : Field) :
    (field.withDefault id value).id = field.id := by
  unfold Field.withDefault
  split <;> rfl

/-- A default leaves the type of a field as it is. -/
@[simp] theorem Field.type_withDefault (id : Int16) (value : Value) (field : Field) :
    (field.withDefault id value).type = field.type := by
  unfold Field.withDefault
  split <;> rfl

/-- A default leaves the fields of an owner well formed. -/
theorem FieldsWellFormed.withDefault {fields : List Field}
    (wellFormed : FieldsWellFormed usable fields) (id : Int16) (value : Value) :
    FieldsWellFormed usable (fields.map (Field.withDefault id value)) where
  distinct := by simpa [Function.comp_def] using wellFormed.distinct
  types := by
    intro field member
    obtain ⟨before, present, rfl⟩ := List.mem_map.mp member
    rw [Field.type_withDefault]
    exact wellFormed.types before present

/-- A default leaves a declared type well formed. -/
theorem TypeDeclaration.WellFormed.withDefault {declared : TypeDeclaration}
    (wellFormed : declared.WellFormed usable) (id : Int16) (value : Value) :
    (declared.withDefault id value).WellFormed usable := by
  cases declared with
  | struct declared | union declared => exact FieldsWellFormed.withDefault wellFormed id value
  | enum declared | typedef declared => exact wellFormed

/-- A default leaves a method well formed. -/
theorem Method.WellFormed.withDefault {method : Method} (wellFormed : method.WellFormed usable)
    (id : Int16) (value : Value) : (method.withDefault id value).WellFormed usable where
  arguments := wellFormed.arguments.withDefault id value
  returns := wellFormed.returns
  throws := wellFormed.throws

/-- A default leaves a service well formed, whichever of its methods has the argument. -/
theorem Service.WellFormed.withDefault {extendable : String → Prop} {service : Service}
    (wellFormed : service.WellFormed usable extendable) (name : String) (id : Int16)
    (value : Value) : (service.withDefault name id value).WellFormed usable extendable where
  parent := wellFormed.parent
  methods := by
    intro method isMethod
    obtain ⟨before, isBefore, rfl⟩ := List.mem_map.mp isMethod
    have fits := wellFormed.methods before isBefore
    split
    · exact fits.withDefault id value
    · exact fits

end Defaults

namespace Schema

variable {usable : DataType → Prop} {extendable : String → Prop} {schema : Schema}

/-- Nothing is declared at first. -/
theorem WellFormed.empty : WellFormed usable extendable {} where
  indexed := .empty
  types := by simp
  services := by simp
  constants := by simp
  chains := by
    intro name found
    simp [resolve, declaration?, NameIndex.lookup?] at found

/-- A type under a free name may be added if it is well formed and, where it is a typedef of a
typedef, leads to one that is there.

Proof: only the chain of a new typedef asks for an argument. Either its target is no typedef, and
the chain ends there, or the chain goes on with one that ended before, one step further away. -/
theorem WellFormed.addType (wellFormed : schema.WellFormed usable extendable)
    {declared : TypeDeclaration} (free : schema.typePositions.position? declared.name = none)
    (fits : declared.WellFormed usable)
    (leads : ∀ {name target}, declared = .typedef ⟨name, .typedef target⟩ →
      schema.resolve target = .ok (.typedef target)) :
    WellFormed usable extendable (schema.addType declared) where
  indexed := wellFormed.indexed.addType free
  types := by
    intro other member
    rcases List.mem_append.mp member with before | here
    · exact wellFormed.types other before
    · obtain rfl := List.mem_singleton.mp here
      exact fits
  services := wellFormed.services
  constants := wellFormed.constants
  chains := by
    intro name found
    have grows := schema.grows_addType declared
    have longer : (schema.addType declared).types.length = schema.types.length + 1 := by
      simp [Schema.addType]
    rw [longer]
    obtain ⟨same, isSame, isTypedef⟩ := resolve_eq_ok.mp found
    rcases declaration?_addType_cases isSame with before | rfl
    · obtain ⟨behind, ends⟩ := wellFormed.chains (resolve_eq_ok.mpr ⟨same, before, isTypedef⟩)
      exact ⟨behind, fun start => grows.canonicalWithin (Nat.le_succ _) (ends start)⟩
    · cases same with
      | typedef declared =>
        obtain rfl := DataType.typedef.inj isTypedef
        have target := typedefTarget_eq_ok.mpr ⟨declared, isSame, rfl⟩
        cases leadsTo : declared.target with
        | typedef next =>
          have isNext : declared = ⟨declared.name, .typedef next⟩ := by rw [← leadsTo]
          obtain ⟨behind, ends⟩ := wellFormed.chains (leads (congrArg _ isNext))
          refine ⟨behind, fun start => ?_⟩
          rw [leadsTo] at target
          simp only [canonicalWithin, Outcome.bind_eq_ok]
          exact ⟨_, target, grows.canonicalWithin (Nat.le_refl _) (ends start)⟩
        | _ =>
          refine ⟨declared.target, fun start => ?_⟩
          simp only [canonicalWithin, Outcome.bind_eq_ok]
          refine ⟨_, target, ?_⟩
          rw [leadsTo]
          rfl
      | _ => simp [TypeDeclaration.type] at isTypedef

/-- A service under a free name may be added if it is well formed. -/
theorem WellFormed.addService (wellFormed : schema.WellFormed usable extendable)
    {declared : Service} (free : schema.servicePositions.position? declared.name = none)
    (fits : declared.WellFormed usable extendable) :
    WellFormed usable extendable (schema.addService declared) where
  indexed := wellFormed.indexed.addService free
  types := wellFormed.types
  services := by
    intro other member
    rcases List.mem_append.mp member with before | here
    · exact wellFormed.services other before
    · obtain rfl := List.mem_singleton.mp here
      exact fits
  constants := wellFormed.constants
  chains := by
    intro name found
    obtain ⟨behind, ends⟩ := wellFormed.chains found
    exact ⟨behind, fun start =>
      (schema.grows_addService declared).canonicalWithin (Nat.le_refl _) (ends start)⟩

/-- A constant under a free name may be added if its type may be used. -/
theorem WellFormed.addConstant (wellFormed : schema.WellFormed usable extendable)
    {declared : Constant} (free : schema.constantPositions.position? declared.name = none)
    (fits : usable declared.type) : WellFormed usable extendable (schema.addConstant declared) where
  indexed := wellFormed.indexed.addConstant free
  types := wellFormed.types
  services := wellFormed.services
  constants := by
    intro other member
    rcases List.mem_append.mp member with before | here
    · exact wellFormed.constants other before
    · obtain rfl := List.mem_singleton.mp here
      exact fits
  chains := by
    intro name found
    obtain ⟨behind, ends⟩ := wellFormed.chains found
    exact ⟨behind, fun start =>
      (schema.grows_addConstant declared).canonicalWithin (Nat.le_refl _) (ends start)⟩

/-- A default may be filled in.

Proof: the types and services are those from before, with a default at most in one of them, which
keeps their ids and types. Lookups of typedefs give the same targets, so each chain ends where it
ended, in as many steps as there are types. -/
theorem WellFormed.withDefault (wellFormed : schema.WellFormed usable extendable)
    (pending : PendingDefault) (value : Value) :
    WellFormed usable extendable (schema.withDefault pending value) where
  indexed := wellFormed.indexed.withDefault pending value
  types := by
    intro declared member
    rw [wellFormed.indexed.types_withDefault] at member
    obtain ⟨before, present, rfl⟩ := List.mem_map.mp member
    have fits := wellFormed.types before present
    split
    · exact fits.withDefault pending.id value
    · exact fits
  services := by
    intro declared member
    rw [wellFormed.indexed.services_withDefault] at member
    split at member
    · exact wellFormed.services declared member
    · next service method _ =>
      obtain ⟨before, present, rfl⟩ := List.mem_map.mp member
      have fits := wellFormed.services before present
      split
      · exact fits.withDefault method pending.id value
      · exact fits
  constants := wellFormed.constants
  chains := by
    intro name found
    have grows := schema.grows_withDefault pending value
    have sameSize : (schema.withDefault pending value).types.length = schema.types.length := by
      rw [wellFormed.indexed.types_withDefault, List.length_map]
    have known : schema.resolve name = .ok (.typedef name) := by
      have same := schema.map_declaration?_withDefault pending value name
        (type_withDefault pending.id value)
      obtain ⟨declared, isFound, isTypedef⟩ := resolve_eq_ok.mp found
      rw [isFound, Option.map_some, isTypedef] at same
      exact resolve_eq_ok.mpr (Option.map_eq_some_iff.mp same.symm)
    obtain ⟨behind, ends⟩ := wellFormed.chains known
    rw [sameSize]
    exact ⟨behind, fun start => grows.canonicalWithin (Nat.le_refl _) (ends start)⟩

end Schema

end SchemaCodec
