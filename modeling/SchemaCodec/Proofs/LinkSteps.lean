import SchemaCodec.Proofs.SchemaGrowth

/-!
# Successful steps of linking

What a step that succeeds has done: the state and the schema that it met and those that it left.
-/

namespace SchemaCodec.Linking

variable {linking later : Linking}

/-- A step that only gives a result leaves the state alone. -/
theorem pure_eq_ok {value result : α} :
    (pure value : LinkM α) linking = .ok (result, later) ↔ value = result ∧ linking = later := by
  have unfolded : (pure value : LinkM α) linking = .ok (value, linking) := rfl
  simp [unfolded]

/-- Two steps succeed when the second does in the state that the first left. -/
theorem bind_eq_ok {step : LinkM α} {next : α → LinkM β} {result : β} :
    (step >>= next) linking = .ok (result, later) ↔
      ∃ middle between, step linking = .ok (middle, between) ∧
        next middle between = .ok (result, later) := by
  have unfolded : (step >>= next) linking = step linking >>= fun out => next out.1 out.2 := rfl
  rw [unfolded, Outcome.bind_eq_ok]
  simp

/-- A step that stops does not succeed. -/
theorem fail_eq_ok {error : LinkError} {result : α} :
    (fail error : LinkM α) linking = .ok (result, later) ↔ False := by
  simp [fail]

/-- A guard succeeds when its condition does not hold. -/
theorem failIf_eq_ok {condition : Prop} [Decidable condition] {error : LinkError} {result : Unit} :
    failIf condition error linking = .ok (result, later) ↔ ¬condition ∧ linking = later := by
  unfold failIf
  by_cases holds : condition
  · simp [holds, fail_eq_ok]
  · simp [holds, pure_eq_ok]

/-- A step that needs no more than the documents leaves the state alone. -/
theorem given_eq_ok {outcome : Except LinkError α} {result : α} :
    given outcome linking = .ok (result, later) ↔ outcome = .ok result ∧ linking = later := by
  unfold given
  cases outcome with
  | error error => simp [Except.map]
  | ok value => simp [Except.map]

/-- The schema so far is that of the state. -/
theorem schema?_eq_ok {result : Schema} :
    schema? linking = .ok (result, later) ↔ linking.schema = result ∧ linking = later := by
  simp [schema?]

/-- A type that was added had a free name. -/
theorem insertType_eq_ok {document : Document} {span : Span} {declared : TypeDeclaration}
    {result : Unit} :
    insertType document span declared linking = .ok (result, later) ↔
      linking.schema.typePositions.position? declared.name = none ∧
        { linking with schema := linking.schema.addType declared } = later := by
  unfold insertType Schema.insertType? NameIndex.contains
  cases linking.schema.typePositions.position? declared.name with
  | none => simp
  | some taken => simp

/-- A service that was added had a free name. -/
theorem insertService_eq_ok {document : Document} {span : Span} {declared : Service}
    {result : Unit} :
    insertService document span declared linking = .ok (result, later) ↔
      linking.schema.servicePositions.position? declared.name = none ∧
        { linking with schema := linking.schema.addService declared } = later := by
  unfold insertService Schema.insertService? NameIndex.contains
  cases linking.schema.servicePositions.position? declared.name with
  | none => simp
  | some taken => simp

/-- A constant that was added had a free name. -/
theorem insertConstant_eq_ok {document : Document} {span : Span} {declared : Constant}
    {result : Unit} :
    insertConstant document span declared linking = .ok (result, later) ↔
      linking.schema.constantPositions.position? declared.name = none ∧
        { linking with schema := linking.schema.addConstant declared } = later := by
  unfold insertConstant Schema.insertConstant? NameIndex.contains
  cases linking.schema.constantPositions.position? declared.name with
  | none => simp
  | some taken => simp

/-- A default that is put aside stands at the end. -/
theorem putAside_eq_ok {pending : PendingDefault} {result : Unit} :
    putAside pending linking = .ok (result, later) ↔
      { linking with pending := linking.pending ++ [pending] } = later := by
  simp [putAside]

/-- A row of steps is its first step and then the others. -/
theorem forM_cons_eq_ok {step : α → LinkM Unit} {item : α} {rest : List α} {result : Unit} :
    (item :: rest).forM step linking = .ok (result, later) ↔
      ∃ between, step item linking = .ok ((), between) ∧
        rest.forM step between = .ok (result, later) := by
  have unfolded : (item :: rest).forM step = step item >>= fun _ => rest.forM step := rfl
  rw [unfolded, bind_eq_ok]
  exact ⟨fun ⟨_, between, here, there⟩ => ⟨between, here, there⟩,
    fun ⟨between, here, there⟩ => ⟨(), between, here, there⟩⟩

/-- Two rows of steps are the first row and then the second one. -/
theorem forM_append_eq_ok {step : α → LinkM Unit} {items more : List α} {result : Unit} :
    (items ++ more).forM step linking = .ok (result, later) ↔
      ∃ between, items.forM step linking = .ok ((), between) ∧
        more.forM step between = .ok (result, later) := by
  have unfolded : (items ++ more).forM step = items.forM step >>= fun _ => more.forM step :=
    List.forM_append
  rw [unfolded, bind_eq_ok]
  exact ⟨fun ⟨_, between, here, there⟩ => ⟨between, here, there⟩,
    fun ⟨between, here, there⟩ => ⟨(), between, here, there⟩⟩

end SchemaCodec.Linking

namespace SchemaCodec.Scope

open Linking

variable {scope : Scope} {document : Document} {linking later : Linking}

/-- The typedef that a reference names directly is linked, where it names one. -/
def LinksDirectly (scope : Scope) (bound : Nat) (above : List String) (document : Document)
    (reference : TypeReference) (linking later : Linking) : Prop :=
  match scope.directTypedef? document reference with
  | some (home, next) => scope.linkTypedef bound above home next linking = .ok ((), later)
  | none => linking = later

/-- A typedef that is linked was linked before, or it is added behind the one to which it leads
directly.

Proof: by what is found under the name, whether the name has come before, and whether any step is
left. A typedef that is found ends the run; every way to fail is excluded by one of the conditions
on the right. -/
theorem linkTypedef_eq_ok {bound : Nat} {above : List String} {definition : TypedefDefinition} :
    scope.linkTypedef bound above document definition linking = .ok ((), later) ↔
      (∃ known, linking.schema.declaration? (document.qualified definition.name) =
        some (.typedef known) ∧ linking = later) ∨
      linking.schema.declaration? (document.qualified definition.name) = none ∧
        document.qualified definition.name ∉ above ∧ ∃ fewer, bound = fewer + 1 ∧
          ∃ target between, scope.resolve document definition.target = .ok target ∧
            scope.LinksDirectly fewer (above ++ [document.qualified definition.name]) document
              definition.target linking between ∧
            insertType document definition.span
                (.typedef ⟨document.qualified definition.name, target⟩) between =
              .ok ((), later) := by
  conv_lhs => unfold linkTypedef
  unfold LinksDirectly
  simp only [bind_eq_ok, schema?_eq_ok]
  cases found : linking.schema.declaration? (document.qualified definition.name) with
  | some known => cases known <;> simp [found, pure_eq_ok, fail_eq_ok]
  | none =>
    by_cases repeated : document.qualified definition.name ∈ above
    · simp [found, repeated, fail_eq_ok]
    · cases bound with
      | zero => simp [found, repeated, fail_eq_ok]
      | succ bound =>
        cases direct : scope.directTypedef? document definition.target with
        | none => simp [found, repeated, bind_eq_ok, given_eq_ok]
        | some next => simp [found, repeated, bind_eq_ok, given_eq_ok, Unique.exists_iff]

/-- A reference that is linked stands for its type, and the typedef that it names directly is
linked.

Proof: by whether the reference names a typedef directly. In both cases the steps of linking are
taken apart with the success of each, and put together again. -/
theorem linkReference_eq_ok {reference : TypeReference} {type : DataType} :
    scope.linkReference document reference linking = .ok (type, later) ↔
      scope.resolve document reference = .ok type ∧
        scope.LinksDirectly (scope.size + 1) [] document reference linking later := by
  unfold linkReference LinksDirectly
  cases direct : scope.directTypedef? document reference with
  | none =>
    simp only [bind_eq_ok, given_eq_ok, pure_eq_ok]
    constructor
    · rintro ⟨_, _, ⟨resolved, rfl⟩, rfl, rfl⟩
      exact ⟨resolved, rfl⟩
    · rintro ⟨resolved, rfl⟩
      exact ⟨_, _, ⟨resolved, rfl⟩, rfl, rfl⟩
  | some next =>
    simp only [bind_eq_ok, given_eq_ok, pure_eq_ok]
    constructor
    · rintro ⟨_, _, ⟨resolved, rfl⟩, _, _, linked, rfl, rfl⟩
      exact ⟨resolved, linked⟩
    · rintro ⟨resolved, linked⟩
      exact ⟨_, _, ⟨resolved, rfl⟩, (), _, linked, rfl, rfl⟩

end SchemaCodec.Scope
