import SchemaCodec.Proofs.SuppliedDefaults

/-!
# Which fields are supplied

When several defaults are supplied, each declared type and each method looks at all of them and
takes those that are addressed to it. So an entry is supplied by itself: a field takes the one
default that has its id among those addressed to its owner, and keeps its own where there is none.
-/

namespace SchemaCodec

/-- Values with the defaults for which they were converted. -/
abbrev Supply := List (PendingDefault × Value)

/-- A field with its default, among those that are addressed to its owner. -/
def Field.supply (addressed : PendingDefault → Prop) [DecidablePred addressed] (supplied : Supply)
    (field : Field) : Field :=
  supplied.foldl (fun field pair =>
    if addressed pair.1 then field.withDefault pair.1.id pair.2 else field) field

/-- The fields of the type of a name with their defaults. -/
def Field.supplyType (owner : String) (supplied : Supply) : Field → Field :=
  Field.supply (·.owner = owner) supplied

/-- The arguments of a method with their defaults. -/
def Field.supplyMethod (service method : String) (supplied : Supply) : Field → Field :=
  Field.supply (·.method = some (service, method)) supplied

/-- A declared type with the defaults of its fields. -/
def TypeDeclaration.supply (supplied : Supply) : TypeDeclaration → TypeDeclaration
  | .struct declared =>
    .struct
      { declared with fields := declared.fields.map (Field.supplyType declared.name supplied) }
  | .union declared =>
    .union { declared with fields := declared.fields.map (Field.supplyType declared.name supplied) }
  | other => other

/-- A method of a service with the defaults of its arguments. -/
def Method.supply (service : String) (supplied : Supply) (method : Method) : Method :=
  { method with
    arguments := method.arguments.map (Field.supplyMethod service method.name supplied) }

/-- A service with the defaults of all arguments. -/
def Service.supply (supplied : Supply) (service : Service) : Service :=
  { service with methods := service.methods.map (Method.supply service.name supplied) }

section Fields

variable {addressed : PendingDefault → Prop} [DecidablePred addressed] {supplied : Supply}

/-- Fields without defaults stay as they are. -/
@[simp] theorem Field.map_supply_nil (fields : List Field) :
    fields.map (Field.supply addressed []) = fields := by
  exact List.map_id fields

/-- A field takes the first default, if it is addressed to its owner, and then the others. -/
theorem Field.supply_cons (pair : PendingDefault × Value) (field : Field) :
    field.supply addressed (pair :: supplied) =
      (if addressed pair.1 then field.withDefault pair.1.id pair.2 else field).supply addressed
        supplied :=
  rfl

/-- A default that may be filled in leaves all of a field but its default. -/
theorem Field.ite_withDefault_eq (isFilled : Prop) [Decidable isFilled] (id : Int16) (value : Value)
    (field : Field) : ∃ default,
      (if isFilled then field.withDefault id value else field) = { field with default } := by
  unfold Field.withDefault
  split
  · split
    · exact ⟨some value, rfl⟩
    · exact ⟨field.default, rfl⟩
  · exact ⟨field.default, rfl⟩

/-- Defaults that are filled in leave all of a field but its default. -/
theorem Field.supply_eq (field : Field) :
    ∃ default, field.supply addressed supplied = { field with default } := by
  induction supplied generalizing field with
  | nil => exact ⟨field.default, rfl⟩
  | cons pair rest inductionHypothesis =>
    obtain ⟨middle, first⟩ := Field.ite_withDefault_eq (addressed pair.1) pair.1.id pair.2 field
    obtain ⟨default, same⟩ := inductionHypothesis { field with default := middle }
    exact ⟨default, by rw [Field.supply_cons, first, same]⟩

/-- A field passes over a default that is not for it. -/
theorem Field.supply_cons_of_absent {pair : PendingDefault × Value} {field : Field}
    (absent : addressed pair.1 → pair.1.id ≠ field.id) :
    field.supply addressed (pair :: supplied) = field.supply addressed supplied := by
  have unchanged : (if addressed pair.1 then field.withDefault pair.1.id pair.2 else field) =
      field := by
    split
    · next isAddressed => exact if_neg fun same => absent isAddressed same.symm
    · rfl
  rw [Field.supply_cons, unchanged]

/-- A field for which there is no default keeps its own. -/
theorem Field.supply_of_absent {field : Field}
    (absent : ∀ pair ∈ supplied, addressed pair.1 → pair.1.id ≠ field.id) :
    field.supply addressed supplied = field := by
  induction supplied with
  | nil => rfl
  | cons pair rest inductionHypothesis =>
    obtain ⟨here, behind⟩ := List.forall_mem_cons.mp absent
    rw [Field.supply_cons_of_absent here]
    exact inductionHypothesis behind

/-- A field for which there is one default takes it.

Proof: by induction on the defaults. The last one for the field decides: if it is among those behind
the first, they are asked with whatever the first left, and otherwise it is the first, and none
behind it is for the field. -/
theorem Field.default_supply {field : Field} {pair : PendingDefault × Value}
    (isSupplied : pair ∈ supplied) (isAddressed : addressed pair.1) (sameId : pair.1.id = field.id)
    (unique : ∀ other ∈ supplied, addressed other.1 → other.1.id = field.id → other = pair) :
    (field.supply addressed supplied).default = some pair.2 := by
  induction supplied generalizing field with
  | nil => simp at isSupplied
  | cons head rest inductionHypothesis =>
    obtain ⟨_, others⟩ := List.forall_mem_cons.mp unique
    obtain ⟨middle, first⟩ := Field.ite_withDefault_eq (addressed head.1) head.1.id head.2 field
    rw [Field.supply_cons]
    -- The last default for the field decides, so the ones behind the head are asked first.
    by_cases isBehind : pair ∈ rest
    · rw [first]
      exact inductionHypothesis isBehind sameId others
    · obtain rfl : pair = head := (List.mem_cons.mp isSupplied).resolve_right isBehind
      rw [if_pos isAddressed, Field.withDefault, if_pos sameId.symm, Field.supply_of_absent]
      intro other isOther alsoAddressed same
      exact isBehind (others other isOther alsoAddressed same ▸ isOther)

/-- A default of a field that is supplied was its own or is one that is supplied for it. -/
theorem Field.mem_default_supply {field : Field} {value : Value}
    (isDefault : value ∈ (field.supply addressed supplied).default) :
    value ∈ field.default ∨
      ∃ pair ∈ supplied, addressed pair.1 ∧ pair.1.id = field.id ∧ pair.2 = value := by
  induction supplied generalizing field with
  | nil => exact .inl isDefault
  | cons pair rest inductionHypothesis =>
    by_cases reached : addressed pair.1 ∧ pair.1.id = field.id
    · obtain ⟨isAddressed, sameId⟩ := reached
      rw [Field.supply_cons, if_pos isAddressed, Field.withDefault, if_pos sameId.symm] at isDefault
      rcases inductionHypothesis isDefault with own | ⟨other, isBehind, others⟩
      · exact .inr ⟨pair, List.mem_cons_self, isAddressed, sameId, Option.some.inj own⟩
      · exact .inr ⟨other, List.mem_cons_of_mem _ isBehind, others⟩
    · rw [Field.supply_cons_of_absent fun isAddressed sameId => reached ⟨isAddressed, sameId⟩]
        at isDefault
      refine (inductionHypothesis isDefault).imp_right fun ⟨other, isBehind, others⟩ => ?_
      exact ⟨other, List.mem_cons_of_mem _ isBehind, others⟩

/-- A field is supplied alike where the same defaults are addressed to its owner. -/
theorem Field.supply_congr {also : PendingDefault → Prop} [DecidablePred also] (field : Field)
    (same : ∀ pair ∈ supplied, addressed pair.1 ↔ also pair.1) :
    field.supply addressed supplied = field.supply also supplied := by
  induction supplied generalizing field with
  | nil => rfl
  | cons pair rest inductionHypothesis =>
    obtain ⟨here, behind⟩ := List.forall_mem_cons.mp same
    rw [Field.supply_cons, Field.supply_cons, if_congr here rfl rfl]
    exact inductionHypothesis _ behind

/-- A field is supplied alike by fewer defaults, as long as those addressed to its owner are there
and have an id each.

Proof: by whether there is a default for the field. If there is one, it is the only one of its owner
and id, it is among the fewer defaults, and it is what is supplied both times. If there is none,
nothing is supplied either time. -/
theorem Field.supply_of_subset {others : Supply} (among : others ⊆ supplied)
    (unique : ∀ first ∈ supplied, ∀ second ∈ supplied, addressed first.1 → addressed second.1 →
      first.1.id = second.1.id → first = second)
    (kept : ∀ pair ∈ supplied, addressed pair.1 → pair ∈ others) (field : Field) :
    field.supply addressed others = field.supply addressed supplied := by
  by_cases isThere : ∃ pair ∈ supplied, addressed pair.1 ∧ pair.1.id = field.id
  · obtain ⟨pair, isSupplied, isAddressed, sameId⟩ := isThere
    have only : ∀ other ∈ supplied, addressed other.1 → other.1.id = field.id → other = pair := by
      intro other isOther alsoAddressed same
      exact unique other isOther pair isSupplied alsoAddressed isAddressed (same.trans sameId.symm)
    have whole := Field.default_supply isSupplied isAddressed sameId only
    have fewer := Field.default_supply (kept pair isSupplied isAddressed) isAddressed sameId
      fun other isOther => only other (among isOther)
    obtain ⟨default, same⟩ : ∃ default, field.supply addressed supplied = { field with default } :=
      field.supply_eq
    obtain ⟨other, alsoSame⟩ : ∃ default, field.supply addressed others = { field with default } :=
      field.supply_eq
    rw [same] at whole
    rw [alsoSame] at fewer
    rw [same, alsoSame, show default = other from whole.trans fewer.symm]
  · have absent : ∀ pair ∈ supplied, addressed pair.1 → pair.1.id ≠ field.id := by
      intro pair isSupplied isAddressed sameId
      exact isThere ⟨pair, isSupplied, isAddressed, sameId⟩
    rw [Field.supply_of_absent absent,
      Field.supply_of_absent fun pair isOther => absent pair (among isOther)]

end Fields

section Entries

/-- A declared type keeps its name. -/
@[simp] theorem TypeDeclaration.name_supply (supplied : Supply) (declared : TypeDeclaration) :
    (declared.supply supplied).name = declared.name := by
  cases declared <;> rfl

/-- The fields of a declared type are supplied. -/
theorem TypeDeclaration.fields?_supply (supplied : Supply) (declared : TypeDeclaration) :
    (declared.supply supplied).fields? =
      declared.fields?.map (·.map (Field.supplyType declared.name supplied)) := by
  cases declared <;> rfl

/-- A declared type without defaults stays as it is. -/
theorem TypeDeclaration.supply_nil (declared : TypeDeclaration) :
    declared.supply [] = declared := by
  cases declared <;> simp [supply, Field.supplyType]

/-- A declared type takes the first default, if it is addressed to it, and then the others. -/
theorem TypeDeclaration.supply_cons (pair : PendingDefault × Value) (supplied : Supply)
    (declared : TypeDeclaration) :
    declared.supply (pair :: supplied) =
      (if declared.name = pair.1.owner then declared.withDefault pair.1.id pair.2
        else declared).supply supplied := by
  cases declared with
  | struct known | union known =>
    by_cases isOwner : known.name = pair.1.owner
    · simp [supply, withDefault, name, Field.supplyType, isOwner, Function.comp_def,
        Field.supply_cons]
    · simp [supply, name, Field.supplyType, isOwner, Ne.symm isOwner, Field.supply_cons]
  | enum known | typedef known => simp [supply, withDefault]

/-- A declared type to which no default is addressed stays as it is. -/
theorem TypeDeclaration.supply_of_absent {supplied : Supply} {declared : TypeDeclaration}
    (absent : ∀ pair ∈ supplied, pair.1.owner ≠ declared.name) :
    declared.supply supplied = declared := by
  have unchanged : Field.supplyType declared.name supplied = id := by
    funext field
    apply Field.supply_of_absent
    intro pair isSupplied isOwner
    exact absurd isOwner (absent pair isSupplied)
  cases declared with
  | struct known | union known =>
    change Field.supplyType known.name supplied = id at unchanged
    rw [TypeDeclaration.supply, unchanged, List.map_id]
  | enum | typedef => rfl

/-- A method without defaults stays as it is. -/
@[simp] theorem Method.supply_nil (service : String) (method : Method) :
    method.supply service [] = method := by
  simp [supply, Field.supplyMethod]

/-- A service takes the first default, if it is addressed to one of its methods, and then the
others.

Proof: by what the default is addressed to. It changes the service only when it is a default of one
of its methods, and in this method only the fields that take it. -/
theorem Service.supply_cons (pair : PendingDefault × Value) (supplied : Supply)
    (service : Service) :
    service.supply (pair :: supplied) =
      (match pair.1.method with
        | none => service
        | some (name, method) =>
          if service.name = name then service.withDefault method pair.1.id pair.2
          else service).supply supplied := by
  cases isCalled : pair.1.method with
  | none => simp [supply, Method.supply, Field.supplyMethod, Field.supply_cons, isCalled]
  | some called =>
    obtain ⟨name, called⟩ := called
    by_cases isOwner : service.name = name
    · simp only [supply, isOwner, if_true, withDefault, List.map_map]
      congr 1
      refine List.map_congr_left fun method _ => ?_
      by_cases isMethod : method.name = called
      · simp [Method.supply, Method.withDefault, isMethod, Field.supplyMethod, isCalled,
          Function.comp_def, Field.supply_cons]
      · simp [Method.supply, isMethod, Ne.symm isMethod, Field.supplyMethod, isCalled,
          Field.supply_cons]
    · simp [supply, Method.supply, isOwner, Ne.symm isOwner, Field.supplyMethod, isCalled,
        Field.supply_cons]

/-- A service without defaults stays as it is. -/
theorem Service.supply_nil (service : Service) : service.supply [] = service := by
  have unchanged : Method.supply service.name [] = id := funext (Method.supply_nil service.name)
  rw [supply, unchanged, List.map_id]

end Entries

namespace Schema

variable {schema other : Schema}

/-- The types of a schema are supplied each by itself. -/
theorem Indexed.types_supply (indexed : schema.Indexed) (supplied : Supply) :
    (schema.supply supplied).types = schema.types.map (·.supply supplied) := by
  induction supplied generalizing schema with
  | nil => simp [Schema.supply, TypeDeclaration.supply_nil]
  | cons pair rest inductionHypothesis =>
    have behind := inductionHypothesis (indexed.withDefault pair.1 pair.2)
    rw [indexed.types_withDefault, List.map_map] at behind
    simp only [TypeDeclaration.supply_cons]
    exact behind

/-- The services of a schema are supplied each by itself. -/
theorem Indexed.services_supply (indexed : schema.Indexed) (supplied : Supply) :
    (schema.supply supplied).services = schema.services.map (·.supply supplied) := by
  induction supplied generalizing schema with
  | nil => simp [Schema.supply, Service.supply_nil]
  | cons pair rest inductionHypothesis =>
    have behind := inductionHypothesis (indexed.withDefault pair.1 pair.2)
    rw [indexed.services_withDefault] at behind
    simp only [Service.supply_cons]
    refine behind.trans ?_
    cases pair.1.method with
    | none => rfl
    | some called => simp only [List.map_map, Function.comp_def]

/-- A declaration is found with the defaults of its fields. -/
theorem Indexed.declaration?_supply (indexed : schema.Indexed) (supplied : Supply)
    (name : String) :
    (schema.supply supplied).declaration? name =
      (schema.declaration? name).map (·.supply supplied) := by
  unfold declaration?
  rw [indexed.types_supply, typePositions_supply]
  exact NameIndex.lookup?_map _ _ _ _

/-- A service is found with the defaults of its arguments. -/
theorem Indexed.service?_supply (indexed : schema.Indexed) (supplied : Supply) (name : String) :
    (schema.supply supplied).service? name = (schema.service? name).map (·.supply supplied) := by
  unfold service?
  rw [indexed.services_supply, servicePositions_supply]
  exact NameIndex.lookup?_map _ _ _ _

/-- Schemas with the same entries have the same entries with their defaults. -/
theorem Permuted.supply (permuted : schema.Permuted other) (indexed : schema.Indexed)
    (alsoIndexed : other.Indexed) (supplied : Supply) :
    (schema.supply supplied).Permuted (other.supply supplied) where
  types := by
    rw [indexed.types_supply, alsoIndexed.types_supply]
    exact permuted.types.map _
  services := by
    rw [indexed.services_supply, alsoIndexed.services_supply]
    exact permuted.services.map _
  constants := by
    rw [constants_supply, constants_supply]
    exact permuted.constants

end Schema

section Order

variable {supplied others : Supply}

/-- A field takes its default in whatever order the defaults come, when those addressed to its owner
have an id each. -/
theorem Field.supply_perm {addressed : PendingDefault → Prop} [DecidablePred addressed]
    (permuted : supplied.Perm others)
    (unique : ∀ first ∈ supplied, ∀ second ∈ supplied, addressed first.1 → addressed second.1 →
      first.1.id = second.1.id → first = second) :
    Field.supply addressed supplied = Field.supply addressed others := by
  funext field
  exact (Field.supply_of_subset permuted.symm.subset unique
    (fun pair isSupplied _ => permuted.subset isSupplied) field).symm

variable (permuted : supplied.Perm others)
  (apart : ∀ first ∈ supplied, ∀ second ∈ supplied, first = second ∨ first.1.Apart second.1)

include permuted apart

/-- A declared type takes its defaults in any order. -/
theorem TypeDeclaration.supply_perm (declared : TypeDeclaration) :
    declared.supply supplied = declared.supply others := by
  have fields (owner : String) :
      Field.supplyType owner supplied = Field.supplyType owner others := by
    refine Field.supply_perm permuted fun first isFirst second isSecond owns alsoOwns sameId => ?_
    refine (apart first isFirst second isSecond).resolve_right fun away => ?_
    exact away.owner (owns.trans alsoOwns.symm) sameId
  cases declared with
  | struct known | union known => rw [supply, supply, fields]
  | _ => rfl

/-- A service takes its defaults in any order. -/
theorem Service.supply_perm (service : Service) :
    service.supply supplied = service.supply others := by
  have arguments (name called : String) :
      Field.supplyMethod name called supplied = Field.supplyMethod name called others := by
    refine Field.supply_perm permuted fun first isFirst second isSecond owns alsoOwns sameId => ?_
    refine (apart first isFirst second isSecond).resolve_right fun away => ?_
    exact away.method (name, called) owns alsoOwns sameId
  have methods : Method.supply service.name supplied = Method.supply service.name others := by
    funext method
    rw [Method.supply, Method.supply, arguments]
  rw [supply, supply, methods]

/-- Defaults for different places are filled in in any order.

Proof: each type and each service looks at the defaults by itself, and a field takes the one that is
meant for it wherever that stands. -/
theorem Schema.Indexed.supply_perm {schema : Schema} (indexed : schema.Indexed) :
    schema.supply supplied = schema.supply others := by
  rw [schema.supply_eq supplied, schema.supply_eq others]
  rw [indexed.types_supply, indexed.types_supply, indexed.services_supply,
    indexed.services_supply]
  rw [funext fun declared : TypeDeclaration => declared.supply_perm permuted apart,
    funext fun service : Service => service.supply_perm permuted apart]

end Order

end SchemaCodec
