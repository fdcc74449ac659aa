import Mathlib.Order.Defs.Unbundled
import SchemaCodec.Proofs.LinkLaws

/-!
# Relations that hold step by step

A relation of states that is a preorder holds over a run as soon as it holds over each step that
changes the state. A literal that becomes a value changes the state only by the constants that it
names. So a preorder holds over the linking of all constants and defaults as soon as it holds over
the addition of one constant and the filling in of one default.
-/

namespace SchemaCodec.Linking

/-- A step that, whenever it succeeds, leaves a state related to the one that it met. -/
def Stepwise (relation : Linking → Linking → Prop) (step : LinkM α) : Prop :=
  ∀ linking result later, step linking = .ok (result, later) → relation linking later

variable {relation : Linking → Linking → Prop} [IsPreorder Linking relation]

/-- Giving a result keeps the state. -/
theorem Stepwise.pure (value : α) : Stepwise relation (pure value) := by
  intro linking result later ran
  obtain ⟨-, rfl⟩ := pure_eq_ok.mp ran
  exact refl_of relation linking

omit [IsPreorder Linking relation] in
/-- A step that stops never succeeds. -/
theorem Stepwise.fail (error : LinkError) : Stepwise relation (fail error : LinkM α) := by
  intro linking result later ran
  exact (fail_eq_ok.mp ran).elim

/-- Looking at the schema keeps the state. -/
theorem Stepwise.schema? : Stepwise relation schema? := by
  intro linking result later ran
  obtain ⟨-, rfl⟩ := schema?_eq_ok.mp ran
  exact refl_of relation linking

/-- Two steps relate their states one after another. -/
theorem Stepwise.bind {step : LinkM α} {next : α → LinkM β} (first : Stepwise relation step)
    (second : ∀ middle, Stepwise relation (next middle)) : Stepwise relation (step >>= next) := by
  intro linking result later ran
  obtain ⟨middle, between, here, there⟩ := bind_eq_ok.mp ran
  exact trans_of relation (first _ _ _ here) (second middle _ _ _ there)

/-- What a relation holds over is a law of steps: it looks at the schema and stops at will. -/
theorem stepwise_law : Law fun _ step => Stepwise relation step where
  pure := .pure
  bind := .bind
  schema? := .schema?
  fail _ := .fail _

section Literals

variable {scope : Scope} {context : LiteralContext}
  {constant : Document → ConstantDefinition → LinkM Value}
  (member : context.document ∈ scope.documents)
  (linked : ∀ home ∈ scope.documents, ∀ definition, .constant definition ∈ home.definitions →
    Stepwise relation (constant home definition))

include member linked

/-- A literal that becomes a value changes the state only by the constants that it names. -/
theorem stepwise_convert (literal : Literal) (declared : DataType) :
    Stepwise relation (scope.convert constant context literal declared) :=
  stepwise_law.convert member linked literal declared

/-- Literals that become the items of a container change the state as each of them does. -/
theorem stepwise_convertItems (items : List Literal) (type : DataType) :
    Stepwise relation (scope.convertItems constant context items type) :=
  stepwise_law.convertItems member linked items type

/-- Literals that become the entries of a map change the state as each of them does. -/
theorem stepwise_convertEntries (entries : List (Literal × Literal))
    (keyType valueType : DataType) :
    Stepwise relation (scope.convertEntries constant context entries keyType valueType) :=
  stepwise_law.convertEntries member linked entries keyType valueType

/-- Literals that become the fields of a struct or union change the state as each of them does. -/
theorem stepwise_convertFields (entries : List (Literal × Literal)) (declared : List Field) :
    Stepwise relation (scope.convertFields constant context entries declared) :=
  stepwise_law.convertFields member linked entries declared

end Literals

section Constants

variable {scope : Scope}
  (adds : ∀ {constant : Document → ConstantDefinition → LinkM Value},
    (∀ home ∈ scope.documents, ∀ definition, .constant definition ∈ home.definitions →
        Stepwise relation (constant home definition)) →
      ∀ document ∈ scope.documents, ∀ definition, .constant definition ∈ document.definitions →
        Stepwise relation (addConstant scope constant document definition))

include adds

/-- A constant that is linked is there already, or it is added. -/
theorem stepwise_linkConstant {bound : Nat} {above : List String} {document : Document}
    (member : document ∈ scope.documents) (definition : ConstantDefinition)
    (isDefinition : .constant definition ∈ document.definitions) :
    Stepwise relation (scope.linkConstant bound above document definition) :=
  stepwise_law.linkConstant adds member definition isDefinition

/-- The constants of all documents are linked one after another. -/
theorem stepwise_linkConstants : Stepwise relation (scope.documents.forM fun document =>
    document.definitions.forM (scope.linkIfConstant document)) :=
  stepwise_law.linkConstants adds

/-- Defaults are converted and filled in one after another. -/
theorem stepwise_linkDefaults {waiting : List PendingDefault}
    (fills : ∀ pending ∈ waiting,
      (∀ home ∈ scope.documents, ∀ definition, .constant definition ∈ home.definitions →
        Stepwise relation (scope.linkConstant (scope.size + 1) [] home definition)) →
      ∀ linking value later, scope.convertDefault pending linking = .ok (value, later) →
        relation linking { later with schema := later.schema.withDefault pending value }) :
    Stepwise relation (scope.linkDefaults waiting) := by
  induction waiting with
  | nil => exact .pure _
  | cons pending rest inductionHypothesis =>
    intro linking result later ran
    obtain ⟨value, converted, isValue, ran⟩ := bind_eq_ok.mp ran
    obtain ⟨_, filled, isFilled, ran⟩ := bind_eq_ok.mp ran
    obtain ⟨-, rfl⟩ := Prod.mk.inj (Except.ok.inj isFilled)
    have here := fills pending List.mem_cons_self
      (fun home isHome definition isDefinition =>
        stepwise_linkConstant adds isHome definition isDefinition) _ _ _ isValue
    have others := inductionHypothesis fun pending member =>
      fills pending (List.mem_cons_of_mem _ member)
    exact trans_of relation here (others _ _ _ ran)

end Constants

end SchemaCodec.Linking
