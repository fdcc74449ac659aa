import SchemaCodec.Proofs.IndexedNames
import SchemaCodec.Proofs.Outcomes

/-!
# Schemas that grow

Linking only ever adds to a schema: a name that refers to a declaration keeps referring to one of
the same kind, and a typedef keeps its target. A default that is filled in changes neither names nor
types. So a chain of typedefs that has come to its end stays at that end.
-/

namespace SchemaCodec.Schema

variable {schema later : Schema}

/-- A declaration that is found is there. -/
theorem mem_of_declaration? {name : String} {declared : TypeDeclaration}
    (found : schema.declaration? name = some declared) : declared ∈ schema.types :=
  NameIndex.mem_of_lookup? found

/-- A service that is found is there. -/
theorem mem_of_service? {name : String} {declared : Service}
    (found : schema.service? name = some declared) : declared ∈ schema.services :=
  NameIndex.mem_of_lookup? found

/-- A name refers to the type of its declaration. -/
theorem resolve_eq_ok {name : String} {type : DataType} :
    schema.resolve name = .ok type ↔
      ∃ declared, schema.declaration? name = some declared ∧ declared.type = type := by
  unfold resolve
  cases schema.declaration? name with
  | none => simp
  | some declared => simp

/-- The target of a typedef is that of its declaration. -/
theorem typedefTarget_eq_ok {name : String} {target : DataType} :
    schema.typedefTarget name = .ok target ↔
      ∃ declared, schema.declaration? name = some (.typedef declared) ∧
        declared.target = target := by
  unfold typedefTarget
  split
  · next declared found => simp [found]
  · next other =>
    simp only [reduceCtorEq, false_iff, not_exists, not_and]
    intro declared found
    exact absurd found (other declared)

/-- A struct is found when its name is declared as one. -/
theorem structType_eq_ok {name : String} {declared : StructType} :
    schema.structType name = .ok declared ↔ schema.declaration? name = some (.struct declared) := by
  unfold structType
  split
  · next found isFound => simp [isFound]
  · next other => simpa using other declared

/-- A union is found when its name is declared as one. -/
theorem unionType_eq_ok {name : String} {declared : UnionType} :
    schema.unionType name = .ok declared ↔ schema.declaration? name = some (.union declared) := by
  unfold unionType
  split
  · next found isFound => simp [isFound]
  · next other => simpa using other declared

/-- An enum is found when its name is declared as one. -/
theorem enumType_eq_ok {name : String} {declared : EnumType} :
    schema.enumType name = .ok declared ↔ schema.declaration? name = some (.enum declared) := by
  unfold enumType
  split
  · next found isFound => simp [isFound]
  · next other => simpa using other declared

/-- A service is found when its name is declared as one. -/
theorem service_eq_ok {name : String} {declared : Service} :
    schema.service name = .ok declared ↔ schema.service? name = some declared := by
  unfold service
  cases schema.service? name with
  | none => simp
  | some found => simp

/-- What one schema says of names and typedefs, the other says as well. -/
structure Grows (schema later : Schema) : Prop where
  resolve : ∀ {name type}, schema.resolve name = .ok type → later.resolve name = .ok type
  target : ∀ {name target}, schema.typedefTarget name = .ok target →
    later.typedefTarget name = .ok target
  size : schema.types.length ≤ later.types.length
  service : ∀ {name declared}, schema.service name = .ok declared →
    ∃ kept, later.service name = .ok kept

/-- A schema that stays the same grows. -/
theorem Grows.refl (schema : Schema) : schema.Grows schema where
  resolve found := found
  target found := found
  size := Nat.le_refl _
  service found := ⟨_, found⟩

/-- A schema that grows twice grows. -/
theorem Grows.trans {last : Schema} (first : schema.Grows later) (second : later.Grows last) :
    schema.Grows last where
  resolve found := second.resolve (first.resolve found)
  target found := second.target (first.target found)
  size := Nat.le_trans first.size second.size
  service found := by
    obtain ⟨kept, found⟩ := first.service found
    exact second.service found

/-- A chain of typedefs that ends has the same end wherever its typedefs have the same targets,
however many more steps are allowed. -/
theorem canonicalWithin_of_targets
    (same : ∀ {name target}, schema.typedefTarget name = .ok target →
      later.typedefTarget name = .ok target)
    {start other type behind : DataType} {steps more : Nat} (few : steps ≤ more)
    (followed : schema.canonicalWithin start steps type = .ok behind) :
    later.canonicalWithin other more type = .ok behind := by
  induction steps generalizing more type with
  | zero => simp [Schema.canonicalWithin] at followed
  | succ steps inductionHypothesis =>
    obtain ⟨more, rfl⟩ : ∃ fewer, more = fewer + 1 := ⟨more - 1, by omega⟩
    cases type with
    | typedef name =>
      simp only [Schema.canonicalWithin, Outcome.bind_eq_ok] at followed ⊢
      obtain ⟨target, found, followed⟩ := followed
      exact ⟨target, same found, inductionHypothesis (by omega) followed⟩
    | _ => simpa [Schema.canonicalWithin] using followed

/-- A chain of typedefs has one end, however many steps are allowed. -/
theorem canonicalWithin_unique {start other type first second : DataType} {steps more : Nat}
    (followed : schema.canonicalWithin start steps type = .ok first)
    (again : schema.canonicalWithin other more type = .ok second) : first = second := by
  have firstFar : schema.canonicalWithin start (steps + more) type = .ok first :=
    canonicalWithin_of_targets id (by omega) followed
  have secondFar : schema.canonicalWithin start (steps + more) type = .ok second :=
    canonicalWithin_of_targets id (by omega) again
  exact Except.ok.inj (firstFar.symm.trans secondFar)

/-- A chain of typedefs keeps its end in a schema that grows. -/
theorem Grows.canonicalWithin (grows : schema.Grows later) {start other type behind : DataType}
    {steps more : Nat} (few : steps ≤ more)
    (followed : schema.canonicalWithin start steps type = .ok behind) :
    later.canonicalWithin other more type = .ok behind :=
  canonicalWithin_of_targets grows.target few followed

section Insertion

/-- A schema with one more type finds what it found before. -/
theorem declaration?_addType {declared found : TypeDeclaration} {name : String}
    (isFound : schema.declaration? name = some found) :
    (schema.addType declared).declaration? name = some found :=
  NameIndex.lookup?_add isFound _ _ _

/-- What a schema with one more type finds, it found before, or it is that type. -/
theorem declaration?_addType_cases {declared found : TypeDeclaration} {name : String}
    (isFound : (schema.addType declared).declaration? name = some found) :
    schema.declaration? name = some found ∨ found = declared :=
  NameIndex.lookup?_add_cases isFound

/-- A schema grows by a type. -/
theorem grows_addType (schema : Schema) (declared : TypeDeclaration) :
    schema.Grows (schema.addType declared) where
  resolve := by
    intro name type found
    obtain ⟨known, isKnown, same⟩ := resolve_eq_ok.mp found
    exact resolve_eq_ok.mpr ⟨known, declaration?_addType isKnown, same⟩
  target := by
    intro name target found
    obtain ⟨known, isKnown, same⟩ := typedefTarget_eq_ok.mp found
    exact typedefTarget_eq_ok.mpr ⟨known, declaration?_addType isKnown, same⟩
  size := by simp [addType]
  service found := ⟨_, found⟩

/-- A type that is added under a free name is found there. -/
theorem declaration?_added {declared : TypeDeclaration}
    (free : schema.typePositions.position? declared.name = none) :
    (schema.addType declared).declaration? declared.name = some declared :=
  NameIndex.lookup?_added free _ _

/-- A schema grows by a service. -/
theorem grows_addService (schema : Schema) (declared : Service) :
    schema.Grows (schema.addService declared) where
  resolve found := found
  target found := found
  size := Nat.le_refl _
  service := by
    intro name known found
    rw [service_eq_ok] at found
    exact ⟨known, service_eq_ok.mpr (NameIndex.lookup?_add found _ _ _)⟩

/-- A schema grows by a constant. -/
theorem grows_addConstant (schema : Schema) (declared : Constant) :
    schema.Grows (schema.addConstant declared) where
  resolve found := found
  target found := found
  size := Nat.le_refl _
  service found := ⟨_, found⟩

end Insertion

section Defaults

/-- A default leaves the kind of a declaration as it is. -/
@[simp] theorem type_withDefault (id : Int16) (value : Value) (declared : TypeDeclaration) :
    (declared.withDefault id value).type = declared.type := by
  cases declared <;> rfl

/-- The typedef that a declaration is. -/
def typedef? : TypeDeclaration → Option TypedefType
  | .typedef declared => some declared
  | _ => none

/-- A default leaves typedefs alone. -/
theorem typedef?_withDefault (id : Int16) (value : Value) (declared : TypeDeclaration) :
    typedef? (declared.withDefault id value) = typedef? declared := by
  cases declared <;> rfl

/-- What a default leaves as it is in a declaration, it leaves as it is under every name. -/
theorem map_declaration?_withDefault (pending : PendingDefault) (value : Value) (name : String)
    {view : TypeDeclaration → α}
    (keeps : ∀ declared, view (declared.withDefault pending.id value) = view declared) :
    ((schema.withDefault pending value).declaration? name).map view =
      (schema.declaration? name).map view := by
  unfold declaration?
  rw [← NameIndex.lookup?_map, ← NameIndex.lookup?_map]
  exact congrArg (schema.typePositions.lookup? · name) (NameIndex.map_modify _ _ _ keeps)

/-- A default leaves the name of the service under every name as it is. -/
theorem map_service?_withDefault (pending : PendingDefault) (value : Value) (name : String) :
    ((schema.withDefault pending value).service? name).map (·.name) =
      (schema.service? name).map (·.name) := by
  unfold service?
  rw [← NameIndex.lookup?_map, ← NameIndex.lookup?_map, map_serviceName_withDefault]
  rfl

/-- A schema grows by a default.

Proof: a default changes a default only. What is found by a name is found as before, and its kind,
its target and the number of declarations are not told by defaults. -/
theorem grows_withDefault (schema : Schema) (pending : PendingDefault) (value : Value) :
    schema.Grows (schema.withDefault pending value) where
  resolve := by
    intro name type found
    obtain ⟨known, isKnown, rfl⟩ := resolve_eq_ok.mp found
    have same := schema.map_declaration?_withDefault pending value name
      (type_withDefault pending.id value)
    rw [isKnown, Option.map_some] at same
    exact resolve_eq_ok.mpr (Option.map_eq_some_iff.mp same)
  target := by
    intro name target found
    obtain ⟨known, isKnown, rfl⟩ := typedefTarget_eq_ok.mp found
    have same := schema.map_declaration?_withDefault pending value name
      (typedef?_withDefault pending.id value)
    rw [isKnown, Option.map_some] at same
    obtain ⟨kept, isKept, isTypedef⟩ := Option.map_eq_some_iff.mp same
    cases kept with
    | typedef kept =>
      obtain rfl := Option.some.inj isTypedef
      exact typedefTarget_eq_ok.mpr ⟨_, isKept, rfl⟩
    | _ => simp [typedef?] at isTypedef
  size := by
    have same := congrArg List.length (NameIndex.map_modify schema.typePositions schema.types
      pending.owner (type_withDefault pending.id value))
    rw [List.length_map, List.length_map] at same
    exact Nat.le_of_eq same.symm
  service := by
    intro name known found
    have same := schema.map_service?_withDefault pending value name
    rw [service_eq_ok.mp found, Option.map_some] at same
    obtain ⟨kept, isKept, -⟩ := Option.map_eq_some_iff.mp same
    exact ⟨kept, service_eq_ok.mpr isKept⟩

end Defaults

end SchemaCodec.Schema
