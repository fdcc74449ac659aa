import SchemaCodec.Proofs.LinkSoundness
import SchemaCodec.Proofs.Stepwise

/-!
# Constants and defaults keep the promises

A literal becomes a value along its type. Only the constants that it names change the state on the
way, and each of these advances, so whatever is converted leaves a sound state sound.
-/

namespace SchemaCodec.Scope

open Linking

variable {scope : Scope}

/-- A step that advances whenever it succeeds. -/
def Advances (scope : Scope) (step : LinkM α) : Prop :=
  ∀ linking result later, step linking = .ok (result, later) → scope.Advance linking later

/-- Advancing step by step is advancing. -/
instance : IsPreorder Linking scope.Advance where
  refl _ := .refl
  trans _ _ _ := .trans

section Constants

/-- A constant of a type that the documents define may be added. -/
theorem advance_insertConstant {linking later : Linking} {document : Document} {span : Span}
    {declared : Constant} {result : Unit}
    (ran : insertConstant document span declared linking = .ok (result, later))
    (offered : scope.Offers declared.type) : scope.Advance linking later := by
  obtain ⟨free, rfl⟩ := insertConstant_eq_ok.mp ran
  refine ⟨linking.schema.grows_addConstant declared, (·.addConstant free), fun sound => ?_⟩
  exact ⟨sound.schema.addConstant free offered, sound.pending⟩

/-- A constant that is found and added advances. -/
theorem advances_addConstant {constant : Document → ConstantDefinition → LinkM Value}
    (linked : ∀ home ∈ scope.documents, ∀ definition, .constant definition ∈ home.definitions →
      scope.Advances (constant home definition))
    (document : Document) (member : document ∈ scope.documents)
    (definition : ConstantDefinition) (_ : .constant definition ∈ document.definitions) :
    scope.Advances (addConstant scope constant document definition) := by
  intro linking result later ran
  simp only [addConstant, bind_eq_ok, pure_eq_ok] at ran
  obtain ⟨type, _, isType, value, between, isValue, _, _, added, -, rfl⟩ := ran
  obtain ⟨first, offered⟩ := advance_linkReference member isType
  have second := stepwise_convert member linked _ _ _ _ _ isValue
  exact (first.trans second).trans (advance_insertConstant added offered)

/-- The constants of all documents advance. -/
theorem advances_linkConstants : scope.Advances (scope.documents.forM fun document =>
    document.definitions.forM (scope.linkIfConstant document)) :=
  stepwise_linkConstants advances_addConstant

/-- A default may be filled in. -/
theorem advance_withDefault (linking : Linking) (pending : PendingDefault) (value : Value) :
    scope.Advance linking
      { linking with schema := linking.schema.withDefault pending value } :=
  ⟨linking.schema.grows_withDefault pending value, (·.withDefault pending value), fun sound =>
    ⟨sound.schema.withDefault pending value, sound.pending⟩⟩

/-- Defaults that are filled in advance. -/
theorem advances_linkDefaults {waiting : List PendingDefault}
    (known : ∀ pending ∈ waiting, pending.document ∈ scope.documents) :
    scope.Advances (scope.linkDefaults waiting) := by
  refine stepwise_linkDefaults advances_addConstant ?_
  intro pending isPending linked linking value later ran
  have converted := stepwise_convert (known pending isPending) linked _ _ _ _ _ ran
  exact converted.trans (advance_withDefault later pending value)

end Constants

end SchemaCodec.Scope
