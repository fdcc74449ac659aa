import SchemaCodec.Proofs.LinkedDefinitions
import SchemaCodec.Proofs.LinkedRegistry

/-!
# What constants and defaults leave alone

Once all definitions are linked, the constants and defaults only complete the schema: its types and
services stay as they are up to their defaults, constants are added behind those that are there, and
any type that is added is a typedef.
-/

namespace SchemaCodec

open Linking

/-- A field without its default. -/
def Field.bare (field : Field) : Field := { field with default := none }

/-- A declared type without the defaults of its fields. -/
def TypeDeclaration.bare : TypeDeclaration → TypeDeclaration
  | .struct declared => .struct { declared with fields := declared.fields.map Field.bare }
  | .union declared => .union { declared with fields := declared.fields.map Field.bare }
  | other => other

/-- A method without the defaults of its arguments. -/
def Method.bare (method : Method) : Method :=
  { method with arguments := method.arguments.map Field.bare }

/-- A service without the defaults of its arguments. -/
def Service.bare (service : Service) : Service :=
  { service with methods := service.methods.map Method.bare }

section Bare

/-- A method of a service is one of the other's, up to defaults. -/
theorem Service.exists_method {first second : Service} (same : first.bare = second.bare)
    {method : Method} (isMethod : method ∈ second.methods) :
    ∃ before ∈ first.methods, before.bare = method.bare := by
  have methods : first.methods.map (·.bare) = second.methods.map (·.bare) :=
    congrArg Service.methods same
  refine List.mem_map.mp ?_
  rw [methods]
  exact List.mem_map_of_mem isMethod

/-- A declared type keeps its name without its defaults. -/
@[simp] theorem TypeDeclaration.name_bare (declared : TypeDeclaration) :
    declared.bare.name = declared.name := by
  cases declared <;> rfl

/-- A declared type has the same fields up to their defaults. -/
theorem TypeDeclaration.fields?_bare (declared : TypeDeclaration) :
    declared.bare.fields? = declared.fields?.map (List.map Field.bare) := by
  cases declared <;> rfl

/-- A default leaves a field alone apart from itself. -/
@[simp] theorem Field.bare_withDefault (id : Int16) (value : Value) (field : Field) :
    (field.withDefault id value).bare = field.bare := by
  unfold Field.withDefault
  split <;> rfl

/-- A default leaves a declared type alone apart from itself. -/
@[simp] theorem TypeDeclaration.bare_withDefault (id : Int16) (value : Value)
    (declared : TypeDeclaration) : (declared.withDefault id value).bare = declared.bare := by
  cases declared <;> simp [TypeDeclaration.withDefault, TypeDeclaration.bare]

/-- A default leaves all declared types alone apart from itself. -/
theorem Schema.map_bare_withDefault (schema : Schema) (pending : PendingDefault) (value : Value) :
    (schema.withDefault pending value).types.map (·.bare) = schema.types.map (·.bare) :=
  NameIndex.map_modify _ _ _ (TypeDeclaration.bare_withDefault _ _)

/-- A default leaves a method alone apart from itself. -/
@[simp] theorem Method.bare_withDefault (id : Int16) (value : Value) (method : Method) :
    (method.withDefault id value).bare = method.bare := by
  simp [Method.withDefault, Method.bare]

/-- A default leaves a service alone apart from itself. -/
@[simp] theorem Service.bare_withDefault (name : String) (id : Int16) (value : Value)
    (service : Service) : (service.withDefault name id value).bare = service.bare := by
  simp only [Service.withDefault, Service.bare, List.map_map]
  congr 1
  refine List.map_congr_left fun method _ => ?_
  by_cases named : method.name = name
  · simp [named]
  · simp [named]

end Bare

/-- What constants and defaults change from one state to a later one. -/
structure Linking.Completes (linking later : Linking) : Prop where
  types : ∃ typedefs,
    later.schema.types.map (·.bare) = linking.schema.types.map (·.bare) ++ typedefs ∧
      ∀ declared ∈ typedefs, declared.fields? = none
  services : later.schema.services.map (·.bare) = linking.schema.services.map (·.bare)
  /-- A declaration stays, up to its defaults. -/
  declaration? : ∀ {name declared}, linking.schema.declaration? name = some declared →
    ∃ kept, later.schema.declaration? name = some kept ∧ kept.bare = declared.bare
  indexed : linking.schema.Indexed → later.schema.Indexed
  pending : later.pending = linking.pending

namespace Linking

variable {linking between later : Linking}

/-- A state that stays the same is completed. -/
theorem Completes.refl (linking : Linking) : linking.Completes linking where
  types := ⟨[], by simp, by simp⟩
  services := rfl
  declaration? found := ⟨_, found, rfl⟩
  indexed := id
  pending := rfl

/-- A state that is completed twice is completed. -/
theorem Completes.trans (first : linking.Completes between) (second : between.Completes later) :
    linking.Completes later where
  types := by
    obtain ⟨front, isFront, noFields⟩ := first.types
    obtain ⟨back, isBack, neitherFields⟩ := second.types
    refine ⟨front ++ back, by rw [isBack, isFront, List.append_assoc], ?_⟩
    exact List.forall_mem_append.mpr ⟨noFields, neitherFields⟩
  services := second.services.trans first.services
  declaration? found := by
    obtain ⟨kept, isKept, same⟩ := first.declaration? found
    obtain ⟨final, isFinal, alsoSame⟩ := second.declaration? isKept
    exact ⟨final, isFinal, alsoSame.trans same⟩
  indexed := second.indexed ∘ first.indexed
  pending := second.pending.trans first.pending

/-- Completing a state step by step completes it. -/
instance : IsPreorder Linking Completes where
  refl _ := .refl _
  trans _ _ _ := .trans

/-- A service was there before, up to its defaults. -/
theorem Completes.exists_service (completes : linking.Completes later) {service : Service}
    (isService : service ∈ later.schema.services) :
    ∃ before ∈ linking.schema.services, before.bare = service.bare := by
  refine List.mem_map.mp ?_
  rw [← completes.services]
  exact List.mem_map_of_mem isService

/-- Typedefs of the documents complete a state. -/
theorem Completes.of_gains {scope : Scope} (gains : scope.Gains linking later {}) :
    linking.Completes later where
  types := by
    obtain ⟨types, same, -, origin⟩ := gains.types
    refine ⟨types.map (·.bare), by rw [same, List.map_append], ?_⟩
    intro declared member
    obtain ⟨typedef, isTypedef, rfl⟩ := List.mem_map.mp member
    rcases origin typedef isTypedef with added | ⟨_, _, _, _, _, _, rfl⟩
    · simp at added
    · rfl
  services := by rw [gains.services]; simp
  declaration? found := ⟨_, gains.declaration? found, rfl⟩
  indexed := gains.indexed
  pending := by rw [gains.pending]; simp

/-- A constant that is added completes a state. -/
theorem completes_insertConstant {document : Document} {span : Span} {declared : Constant}
    {result : Unit}
    (ran : insertConstant document span declared linking = .ok (result, later)) :
    linking.Completes later := by
  obtain ⟨free, rfl⟩ := insertConstant_eq_ok.mp ran
  exact ⟨⟨[], by simp [Schema.addConstant], by simp⟩, rfl, fun found => ⟨_, found, rfl⟩,
    (·.addConstant free), rfl⟩

/-- A default that is filled in completes a state. -/
theorem completes_withDefault (linking : Linking) (pending : PendingDefault) (value : Value) :
    linking.Completes { linking with schema := linking.schema.withDefault pending value } where
  types := ⟨[], by rw [linking.schema.map_bare_withDefault, List.append_nil], by simp⟩
  services := by
    unfold Schema.withDefault
    cases pending.method with
    | none => rfl
    | some called => exact NameIndex.map_modify _ _ _ (Service.bare_withDefault _ _ _)
  declaration? {name declared} found := by
    have same := linking.schema.map_declaration?_withDefault pending value name
      (TypeDeclaration.bare_withDefault pending.id value)
    rw [found, Option.map_some] at same
    exact Option.map_eq_some_iff.mp same
  indexed := (·.withDefault pending value)
  pending := rfl

end Linking

namespace Scope

variable {scope : Scope}

/-- A constant that is added completes the state. -/
theorem completes_addConstant {constant : Document → ConstantDefinition → LinkM Value}
    (linked : ∀ home ∈ scope.documents, ∀ definition, .constant definition ∈ home.definitions →
      Stepwise Linking.Completes (constant home definition))
    (document : Document) (member : document ∈ scope.documents)
    (definition : ConstantDefinition) (_ : .constant definition ∈ document.definitions) :
    Stepwise Linking.Completes (addConstant scope constant document definition) := by
  refine .bind (fun linking type later ran => ?_) fun type =>
    .bind (stepwise_convert member linked _ _) fun value =>
      .bind (fun linking result later ran => ?_) fun _ => .pure _
  · exact .of_gains (gains_linkReference member ran).2
  · exact completes_insertConstant ran

/-- The constants of all documents complete the state. -/
theorem completes_linkConstants : Stepwise Linking.Completes (scope.documents.forM fun document =>
    document.definitions.forM (scope.linkIfConstant document)) :=
  stepwise_linkConstants completes_addConstant

/-- Defaults that are filled in complete the state. -/
theorem completes_linkDefaults {waiting : List PendingDefault}
    (known : ∀ pending ∈ waiting, pending.document ∈ scope.documents) :
    Stepwise Linking.Completes (scope.linkDefaults waiting) := by
  refine stepwise_linkDefaults completes_addConstant ?_
  intro pending isPending linked linking value later ran
  have converted := stepwise_convert (known pending isPending) linked _ _ _ _ _ ran
  exact converted.trans (completes_withDefault later pending value)

section Passes

variable {typed settled later : Linking}

/-- The first pass leaves a sound state. -/
theorem Passes.typedSound (passes : scope.Passes typed settled later) : scope.Sound typed :=
  sound_of_linkDefinitions passes.definitions

/-- The second pass leaves a sound state. -/
theorem Passes.settledSound (passes : scope.Passes typed settled later) : scope.Sound settled :=
  (advances_linkConstants _ _ _ passes.constants).sound passes.typedSound

/-- The third pass leaves a sound state. -/
theorem Passes.sound (passes : scope.Passes typed settled later) : scope.Sound later :=
  (advances_linkDefaults passes.settledSound.pending _ _ _ passes.defaults).sound
    passes.settledSound

/-- The second pass only completes the state. -/
theorem Passes.settles (passes : scope.Passes typed settled later) : typed.Completes settled :=
  completes_linkConstants _ _ _ passes.constants

/-- The third pass only completes the state. -/
theorem Passes.fills (passes : scope.Passes typed settled later) : settled.Completes later :=
  completes_linkDefaults passes.settledSound.pending _ _ _ passes.defaults

end Passes

end Scope

end SchemaCodec
