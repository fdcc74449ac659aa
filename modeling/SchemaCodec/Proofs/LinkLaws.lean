import SchemaCodec.Proofs.DefinedNames

/-!
# Laws of linking steps

Turning a literal into a value looks at the schema and at the documents, may stop with an error
about the literal, and changes the state only by the constants that it names. So a property of steps
that is kept when steps follow one another, and that those have which look, give a result or stop,
holds of every literal as soon as it holds of the constants that the documents declare, and of these
as soon as it holds of the addition of one constant.
-/

namespace SchemaCodec

/-- A fault that any step of linking may find. Cycles of typedefs are found by following typedefs
only, and what is wrong between documents is found before all steps. -/
def LinkFault.IsOrdinary : LinkFault → Prop
  | .illegalTypedefCycle _ | .duplicateModule _ _ | .unresolvedInclude _ => False
  | _ => True

/-- A computation that fails, if at all, with a fault of some kind. -/
def FailsFor (kind : LinkFault → Prop) (outcome : Except LinkError α) : Prop :=
  ∀ error, outcome = .error error → kind error.fault

section Outcomes

variable {α β : Type} {kind : LinkFault → Prop} {outcome : Except LinkError α}

/-- A result is no failure. -/
theorem FailsFor.ok (result : α) : FailsFor kind (.ok result) := by
  intro error failed
  cases failed

/-- A failure of the kind. -/
theorem FailsFor.error {error : LinkError} (isKind : kind error.fault) :
    FailsFor kind (.error error : Except LinkError α) := by
  intro found failed
  obtain rfl := Except.error.inj failed
  exact isKind

/-- Of two computations one fails. -/
theorem FailsFor.bind {next : α → Except LinkError β} (first : FailsFor kind outcome)
    (second : ∀ result, FailsFor kind (next result)) : FailsFor kind (outcome >>= next) := by
  cases outcome with
  | ok result => exact second result
  | error error => exact .error (first error rfl)

/-- Of computations in a row one fails. -/
theorem FailsFor.forM {step : α → Except LinkError Unit}
    (each : ∀ item, FailsFor kind (step item)) (items : List α) :
    FailsFor kind (items.forM step) := by
  induction items with
  | nil => exact .ok ()
  | cons item rest inductionHypothesis => exact (each item).bind fun _ => inductionHypothesis

/-- A failure for a narrower reason. -/
theorem FailsFor.mono {wider : LinkFault → Prop} (fails : FailsFor kind outcome)
    (widens : ∀ fault, kind fault → wider fault) : FailsFor wider outcome :=
  fun error failed => widens error.fault (fails error failed)

/-- What a name refers to is found or not. -/
theorem ordinary_lookupAt (scope : Scope) (document : Document) (name : String) (span : Span) :
    FailsFor LinkFault.IsOrdinary (scope.lookupAt document name span) := by
  unfold Scope.lookupAt
  split
  · exact .ok _
  · exact .error trivial

/-- A failed lookup or check is told as one of a constant or default. -/
theorem ordinary_mapError (context : LiteralContext) (outcome : Except ε α)
    (fault : ε → ConstantFault) :
    FailsFor LinkFault.IsOrdinary (outcome.mapError fun error => context.error (fault error)) := by
  cases outcome with
  | ok result => exact .ok result
  | error error => exact .error trivial

end Outcomes

namespace Linking

/-- A property of steps that is kept when steps follow one another. Steps have it that give a
result, look at the schema or stop with an ordinary fault. -/
structure Law (holds : (α : Type) → LinkM α → Prop) : Prop where
  pure : ∀ {α : Type} (value : α), holds α (pure value)
  bind : ∀ {α β : Type} {step : LinkM α} {next : α → LinkM β}, holds α step →
    (∀ middle, holds β (next middle)) → holds β (step >>= next)
  schema? : holds Schema schema?
  fail : ∀ {α : Type} {error : LinkError}, error.fault.IsOrdinary → holds α (fail error)

namespace Law

variable {holds : (α : Type) → LinkM α → Prop} {α β : Type}

/-- Of two steps, either may be taken. -/
theorem ite {condition : Prop} [Decidable condition] {step other : LinkM α}
    (first : holds α step) (second : holds α other) :
    holds α (if condition then step else other) := by
  by_cases taken : condition
  · rwa [if_pos taken]
  · rwa [if_neg taken]

/-- A step that needs no more than the documents, and what follows with its result. -/
theorem given_bind (law : Law holds) {outcome : Except LinkError α} {next : α → LinkM β}
    (ordinary : FailsFor LinkFault.IsOrdinary outcome)
    (behind : ∀ result, outcome = .ok result → holds β (next result)) :
    holds β (given outcome >>= next) := by
  cases outcome with
  | ok result => exact behind result rfl
  | error error => exact law.fail (ordinary error rfl)

/-- A step that needs no more than the documents. -/
theorem given (law : Law holds) {outcome : Except LinkError α}
    (ordinary : FailsFor LinkFault.IsOrdinary outcome) : holds α (given outcome) := by
  cases outcome with
  | ok result => exact law.pure result
  | error error => exact law.fail (ordinary error rfl)

/-- A guard that stops with an ordinary fault. -/
theorem failIf (law : Law holds) {condition : Prop} [Decidable condition] {error : LinkError}
    (ordinary : error.fault.IsOrdinary) : holds Unit (failIf condition error) :=
  ite (law.fail ordinary) (law.pure ())

/-- Steps in a row. -/
theorem forM (law : Law holds) {step : α → LinkM Unit} {items : List α}
    (each : ∀ item ∈ items, holds Unit (step item)) : holds Unit (items.forM step) := by
  induction items with
  | nil => exact law.pure ()
  | cons item rest inductionHypothesis =>
    exact law.bind (each item List.mem_cons_self) fun _ =>
      inductionHypothesis fun item member => each item (List.mem_cons_of_mem _ member)

section Literals

variable {scope : Scope} {context : LiteralContext}
  {constant : Document → ConstantDefinition → LinkM Value}

/-- A lookup on behalf of a literal. -/
theorem lookedUp (law : Law holds) (outcome : Except LookupError α) :
    holds α (context.lookedUp outcome) :=
  law.given (ordinary_mapError context outcome .lookup)

/-- A check on behalf of a literal. -/
theorem checked (law : Law holds) (outcome : Except ValueError α) :
    holds α (context.checked outcome) :=
  law.given (ordinary_mapError context outcome .unfit)

/-- A literal of another form than its type asks for. -/
theorem wrongForm (law : Law holds) (literal : Literal) (type : DataType) :
    holds α (context.wrongForm literal type) :=
  law.fail trivial

/-- A number that is checked for its range. -/
theorem inRange (law : Law holds) (bound : Nat) (number : Int) (type : DataType) (value : Value) :
    holds Value (context.inRange bound number type value) :=
  ite (law.pure _) (law.fail trivial)

/-- An integer literal that becomes a value. -/
theorem convertInt (law : Law holds) (number : Int) (type : DataType) :
    holds Value (Scope.convertInt context number type) := by
  cases type with
  | bool => exact ite (law.pure _) (ite (law.pure _) (law.wrongForm _ _))
  | byte | i16 | i32 => exact law.inRange _ _ _ _
  | i64 | double => exact law.pure _
  | enum name =>
    refine law.bind (law.inRange _ _ _ _) fun raw => law.bind law.schema? fun schema => ?_
    cases raw with
    | enum number label => exact law.checked _
    | _ => exact law.pure _
  | _ => exact law.wrongForm _ _

/-- A map key that names a field. -/
theorem fieldOfKey (law : Law holds) (declared : List Field) (key : Literal) :
    holds Field (context.fieldOfKey declared key) := by
  cases key with
  | text name | identifier name =>
    simp only [LiteralContext.fieldOfKey]
    split
    · exact law.pure _
    · exact law.fail trivial
  | _ => exact law.fail trivial

/-- What is needed of the constants that a literal may name. -/
def OfConstants (holds : (α : Type) → LinkM α → Prop) (scope : Scope)
    (constant : Document → ConstantDefinition → LinkM Value) : Prop :=
  ∀ home ∈ scope.documents, ∀ definition, .constant definition ∈ home.definitions →
    holds Value (constant home definition)

/-- An identifier that becomes a value, by the constant that it may name. -/
theorem convertIdentifier (law : Law holds) (member : context.document ∈ scope.documents)
    (linked : OfConstants holds scope constant) (name : String) (declared type : DataType) :
    holds Value (scope.convertIdentifier constant context name declared type) := by
  unfold Scope.convertIdentifier
  refine ite (law.pure _) (ite (law.pure _) ?_)
  split
  · exact law.bind law.schema? fun schema => law.checked _
  · refine law.given_bind (ordinary_lookupAt _ _ _ _) fun ⟨home, found⟩ isFound => ?_
    obtain ⟨isHome, isDefinition⟩ := Scope.mem_of_lookup member (Scope.lookupAt_eq_ok.mp isFound)
    cases found with
    | constant definition =>
      exact law.bind (linked home isHome definition isDefinition) fun value =>
        law.bind law.schema? fun schema => law.bind (law.checked _) fun _ => law.pure _
    | _ => exact law.fail trivial

mutual

/-- A literal that becomes a value. The induction is on the literal. -/
theorem convert (law : Law holds) (member : context.document ∈ scope.documents)
    (linked : OfConstants holds scope constant) :
    ∀ (literal : Literal) (declared : DataType),
      holds Value (scope.convert constant context literal declared)
  | .identifier name, declared => by
    unfold Scope.convert
    exact law.bind law.schema? fun _ => law.bind (law.lookedUp _) fun type =>
      law.convertIdentifier member linked name declared type
  | .int number, declared => by
    unfold Scope.convert
    exact law.bind law.schema? fun _ => law.bind (law.lookedUp _) fun type =>
      law.convertInt number type
  | .double number, declared => by
    unfold Scope.convert
    refine law.bind law.schema? fun _ => law.bind (law.lookedUp _) fun type => ?_
    cases type with
    | double => exact law.pure _
    | _ => exact law.wrongForm _ _
  | .text text, declared => by
    unfold Scope.convert
    refine law.bind law.schema? fun _ => law.bind (law.lookedUp _) fun type => ?_
    cases type with
    | string | binary => exact law.pure _
    | _ => exact law.wrongForm _ _
  | .list items, declared => by
    unfold Scope.convert
    refine law.bind law.schema? fun _ => law.bind (law.lookedUp _) fun type => ?_
    cases type with
    | list element | set element =>
      exact law.bind (law.convertItems member linked items element) fun _ => law.pure _
    | _ => exact law.wrongForm _ _
  | .map entries, declared => by
    unfold Scope.convert
    refine law.bind law.schema? fun _ => law.bind (law.lookedUp _) fun type => ?_
    cases type with
    | map keyType valueType =>
      exact law.bind (law.convertEntries member linked entries keyType valueType) fun _ =>
        law.pure _
    | struct name =>
      exact law.bind (law.lookedUp _) fun found =>
        law.bind (law.convertFields member linked entries found.fields) fun _ =>
          law.bind law.schema? fun _ => law.bind (law.checked _) fun _ => law.pure _
    | union name =>
      exact law.bind (law.lookedUp _) fun found =>
        law.bind (law.convertFields member linked entries found.fields) fun _ => law.checked _
    | _ => exact law.wrongForm _ _

/-- Literals that become the items of a container. -/
theorem convertItems (law : Law holds) (member : context.document ∈ scope.documents)
    (linked : OfConstants holds scope constant) :
    ∀ (items : List Literal) (type : DataType),
      holds (List Value) (scope.convertItems constant context items type)
  | [], _ => law.pure _
  | item :: rest, type => law.bind (law.convert member linked item type) fun _ =>
      law.bind (law.convertItems member linked rest type) fun _ => law.pure _

/-- Literals that become the entries of a map. -/
theorem convertEntries (law : Law holds) (member : context.document ∈ scope.documents)
    (linked : OfConstants holds scope constant) :
    ∀ (entries : List (Literal × Literal)) (keyType valueType : DataType),
      holds (List (Value × Value))
        (scope.convertEntries constant context entries keyType valueType)
  | [], _, _ => law.pure _
  | (key, value) :: rest, keyType, valueType =>
      law.bind (law.convert member linked key keyType) fun _ =>
        law.bind (law.convert member linked value valueType) fun _ =>
          law.bind (law.convertEntries member linked rest keyType valueType) fun _ => law.pure _

/-- Literals that become the fields of a struct or union. -/
theorem convertFields (law : Law holds) (member : context.document ∈ scope.documents)
    (linked : OfConstants holds scope constant) :
    ∀ (entries : List (Literal × Literal)) (declared : List Field),
      holds (List (Int16 × Value)) (scope.convertFields constant context entries declared)
  | [], _ => law.pure _
  | (key, value) :: rest, declared => law.bind (law.fieldOfKey declared key) fun field =>
      law.bind (law.convert member linked value field.type) fun _ =>
        law.bind (law.convertFields member linked rest declared) fun _ => law.pure _

end

end Literals

end Law

section Constants

variable {scope : Scope}

/-- Find the type and the value of a constant that is not there yet, and add it. -/
def addConstant (scope : Scope) (constant : Document → ConstantDefinition → LinkM Value)
    (document : Document) (definition : ConstantDefinition) : LinkM Value := do
  let name := document.qualified definition.name
  let type ← scope.linkReference document definition.type
  let value ← scope.convert constant ⟨document, definition.span, name⟩ definition.value type
  insertConstant document definition.span ⟨name, type, value⟩
  pure value

namespace Law

variable {holds : (α : Type) → LinkM α → Prop} (law : Law holds)
  (adds : ∀ {constant : Document → ConstantDefinition → LinkM Value},
    OfConstants holds scope constant → ∀ document ∈ scope.documents, ∀ definition,
      .constant definition ∈ document.definitions →
        holds Value (addConstant scope constant document definition))

include law adds

/-- A constant that is linked is there already, or it is added. The induction is on the bound: the
constants that its literal names are linked with a smaller one. -/
theorem linkConstant {bound : Nat} {above : List String} {document : Document}
    (member : document ∈ scope.documents) (definition : ConstantDefinition)
    (isDefinition : .constant definition ∈ document.definitions) :
    holds Value (scope.linkConstant bound above document definition) := by
  induction bound using Nat.strongRecOn generalizing above document definition with
  | ind bound inductionHypothesis =>
    unfold Scope.linkConstant
    refine law.bind law.schema? fun schema => ?_
    cases schema.constant? (document.qualified definition.name) with
    | some known => exact law.pure _
    | none =>
      refine ite (law.fail trivial) ?_
      cases bound with
      | zero => exact law.fail trivial
      | succ bound =>
        exact adds (fun home isHome other isOther =>
          inductionHypothesis bound bound.lt_succ_self isHome other isOther) document member
            definition isDefinition

/-- The constants of all documents are linked one after another. -/
theorem linkConstants : holds Unit (scope.documents.forM fun document =>
    document.definitions.forM (scope.linkIfConstant document)) := by
  refine law.forM fun document member => law.forM fun found isFound => ?_
  cases found with
  | constant definition =>
    exact law.bind (law.linkConstant adds member definition isFound) fun _ => law.pure _
  | _ => exact law.pure _

end Law

end Constants

end Linking

end SchemaCodec
