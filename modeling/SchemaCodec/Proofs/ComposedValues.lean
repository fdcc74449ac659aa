import SchemaCodec.Proofs.EnumLabels
import SchemaCodec.Proofs.GroundedConstants
import SchemaCodec.Proofs.LinkedRegistry
import SchemaCodec.Proofs.TypedLiterals

/-!
# How values of literals are composed

Where all constants that a literal names are linked, its conversion leaves the state alone, so each
part of the value is made in the same state for the type of its place. One look at the literal then
tells how the value is composed: it is the copy of a constant, an enum, or a layer around its parts.
-/

namespace SchemaCodec

open Linking

namespace Scope

variable {scope : Scope}

/-- A literal that names none but linked constants becomes a value for a type. -/
def Makes (scope : Scope) (context : LiteralContext) (linking : Linking) (value : Value)
    (type : DataType) : Prop :=
  ∃ literal, scope.convert scope.recalled context literal type linking = .ok (value, linking)

/-- How a value is made for a type: as a copy of a constant, as an enum that labels its number, or
as anything else from parts that are made for their places. -/
inductive Composed (scope : Scope) (context : LiteralContext) (linking : Linking)
    (schema : Schema) : Value → DataType → Prop where
  | copied {source : Constant} {type : DataType} (isSource : source ∈ linking.schema.constants)
    (fits : schema.Fits source.value type) : Composed scope context linking schema source.value type
  | labelled {number : Int32} {label : Option String} {type : DataType} {declared : EnumType}
    (behind : schema.enumBehind type = .ok declared) (labels : declared.Labels number label) :
    Composed scope context linking schema (.enum number label) type
  | layered {value : Value} {type behind : DataType} (followed : schema.canonical type = .ok behind)
    (noEnum : ∀ number label, value ≠ .enum number label)
    (layer : Schema.FitsLayer schema (scope.Makes context linking) value behind) :
    Composed scope context linking schema value type

variable {context : LiteralContext} {linking later : Linking} {schema : Schema} {value : Value}
  {type behind : DataType}

section Parts

variable (member : context.document ∈ scope.documents)

include member

/-- A literal that names none but linked constants leaves the state alone. -/
theorem eq_of_convert {literal : Literal}
    (ran : scope.convert scope.recalled context literal type linking = .ok (value, later)) :
    linking = later :=
  stepwise_convert member (@stepwise_recalled scope Eq _) _ _ _ _ _ ran

/-- Literals become items that are made for their type. -/
theorem makes_of_mem_items {items : List Literal} {values : List Value}
    (ran : scope.convertItems scope.recalled context items type linking = .ok (values, later)) :
    ∀ value ∈ values, scope.Makes context linking value type := by
  induction items generalizing values with
  | nil =>
    obtain ⟨rfl, -⟩ := pure_eq_ok.mp ran
    simp
  | cons item rest inductionHypothesis =>
    simp only [convertItems, bind_eq_ok, pure_eq_ok] at ran
    obtain ⟨first, _, isFirst, others, _, areOthers, rfl, rfl⟩ := ran
    obtain rfl := eq_of_convert member isFirst
    exact List.forall_mem_cons.mpr ⟨⟨item, isFirst⟩, inductionHypothesis areOthers⟩

/-- Literals become entries whose keys and values are made for their types. -/
theorem makes_of_mem_entries {entries : List (Literal × Literal)} {keyType valueType : DataType}
    {values : List (Value × Value)}
    (ran : scope.convertEntries scope.recalled context entries keyType valueType linking =
      .ok (values, later)) :
    ∀ entry ∈ values, scope.Makes context linking entry.1 keyType ∧
      scope.Makes context linking entry.2 valueType := by
  induction entries generalizing values with
  | nil =>
    obtain ⟨rfl, -⟩ := pure_eq_ok.mp ran
    simp
  | cons entry rest inductionHypothesis =>
    simp only [convertEntries, bind_eq_ok, pure_eq_ok] at ran
    obtain ⟨key, _, isKey, held, _, isHeld, others, _, areOthers, rfl, rfl⟩ := ran
    obtain rfl := eq_of_convert member isKey
    obtain rfl := eq_of_convert member isHeld
    exact List.forall_mem_cons.mpr
      ⟨⟨⟨entry.1, isKey⟩, entry.2, isHeld⟩, inductionHypothesis areOthers⟩

/-- Literals become fields whose values are made for the types of declared fields. -/
theorem makes_of_mem_fields {entries : List (Literal × Literal)} {declared : List Field}
    {fields : List (Int16 × Value)}
    (ran : scope.convertFields scope.recalled context entries declared linking =
      .ok (fields, later)) :
    ∀ field ∈ fields, ∃ found ∈ declared, found.id = field.1 ∧
      scope.Makes context linking field.2 found.type := by
  induction entries generalizing fields with
  | nil =>
    obtain ⟨rfl, -⟩ := pure_eq_ok.mp ran
    simp
  | cons entry rest inductionHypothesis =>
    simp only [convertFields, bind_eq_ok, pure_eq_ok] at ran
    obtain ⟨field, _, isField, held, _, isHeld, others, _, areOthers, rfl, rfl⟩ := ran
    obtain ⟨isDeclared, rfl⟩ := mem_of_fieldOfKey isField
    obtain rfl := eq_of_convert member isHeld
    exact List.forall_mem_cons.mpr
      ⟨⟨field, isDeclared, rfl, entry.2, isHeld⟩, inductionHypothesis areOthers⟩

end Parts

section Composition

variable (member : context.document ∈ scope.documents)
  (survives : linking.schema.SurvivesIn schema) (isLinked : schema.Linked)

include survives

/-- A number is labelled by the enum behind its type, which stays there. -/
theorem composed_of_enumOfNumber {name : String}
    (followed : linking.schema.canonical type = .ok (.enum name)) {number : Int32}
    (made : linking.schema.enumOfNumber (.enum name) number = .ok value) :
    scope.Composed context linking schema value type := by
  obtain ⟨declared, behind, same⟩ := Outcome.bind_eq_ok.mp made
  obtain rfl := Except.ok.inj same
  have named := survives.enumType (enumBehind_eq_ok behind)
  exact .labelled (Schema.enumBehind_eq_ok_iff.mpr ⟨name, survives.canonical followed, named⟩)
    (declared.labels_memberByNumber? number)

/-- A member that is named is one of the enum behind the type, which stays there. -/
theorem composed_of_enumOfName {name : String}
    (followed : linking.schema.canonical type = .ok (.enum name)) {label : String}
    (made : linking.schema.enumOfName (.enum name) label = .ok value) :
    scope.Composed context linking schema value type := by
  obtain ⟨declared, found, named, known, -, rfl⟩ := exists_member_of_enumOfName made
  have behind := Schema.enumBehind_eq_ok_iff.mpr
    ⟨name, survives.canonical followed, survives.enumType named⟩
  exact .labelled behind ⟨found, List.mem_of_find?_eq_some known, rfl, rfl⟩

/-- An integer literal is composed.

Proof: by the type behind all typedefs. Each numeric type takes the number as it is, a truth value
only one or zero, and an enum labels it when the number is of one of its members; every other type
refuses it. -/
theorem composed_of_convertInt (followed : linking.schema.canonical type = .ok behind)
    {number : Int} (ran : convertInt context number behind linking = .ok (value, later)) :
    scope.Composed context linking schema value type := by
  have followedThere := survives.canonical followed
  cases behind with
  | bool =>
    simp only [convertInt] at ran
    split at ran
    · obtain ⟨rfl, -⟩ := pure_eq_ok.mp ran
      exact .layered followedThere (by simp) rfl
    · split at ran
      · obtain ⟨rfl, -⟩ := pure_eq_ok.mp ran
        exact .layered followedThere (by simp) rfl
      · exact (fail_eq_ok.mp ran).elim
  | byte | i16 | i32 =>
    obtain ⟨-, rfl, -⟩ := inRange_eq_ok.mp ran
    exact .layered followedThere (by simp) rfl
  | i64 | double =>
    obtain ⟨rfl, -⟩ := pure_eq_ok.mp ran
    exact .layered followedThere (by simp) rfl
  | enum name =>
    simp only [convertInt, bind_eq_ok, inRange_eq_ok, schema?_eq_ok] at ran
    obtain ⟨_, _, ⟨-, rfl, rfl⟩, _, _, ⟨rfl, rfl⟩, ran⟩ := ran
    exact composed_of_enumOfNumber survives followed (checked_eq_ok.mp ran).1
  | _ => simp [convertInt, LiteralContext.wrongForm, fail_eq_ok] at ran

/-- An identifier is composed. -/
theorem composed_of_convertIdentifier (followed : linking.schema.canonical type = .ok behind)
    {name : String}
    (ran : scope.convertIdentifier scope.recalled context name type behind linking =
      .ok (value, later)) : scope.Composed context linking schema value type := by
  have followedThere := survives.canonical followed
  obtain ⟨truth, rfl, -, rfl, -⟩ | ⟨label, isMember, made, -⟩ | ⟨_, _, -, recalls, checked⟩ :=
    cases_of_convertIdentifier ran
  · exact .layered followedThere (by simp) rfl
  · obtain ⟨enum, rfl⟩ := enum_of_memberOfIdentifier isMember
    exact composed_of_enumOfName survives followed made
  · obtain ⟨source, found, rfl, rfl⟩ := recalled_eq_ok.mp recalls
    exact .copied (NameIndex.mem_of_lookup? found)
      (survives.fits (Schema.fits_of_validate checked))

include member isLinked

/-- A struct is composed of its fields: it was checked as a whole, so it is complete. -/
theorem composed_of_struct {name : String}
    (followed : linking.schema.canonical type = .ok (.struct name)) {declared : StructType}
    (named : linking.schema.structType name = .ok declared)
    {entries : List (Literal × Literal)} {fields : List (Int16 × Value)}
    (ran : scope.convertFields scope.recalled context entries declared.fields linking =
      .ok (fields, later))
    (checked :
      later.schema.validate (.struct name) (.struct (Value.Fields.ofList fields)) = .ok ()) :
    scope.Composed context linking schema (.struct (Value.Fields.ofList fields)) type := by
  obtain rfl := stepwise_convertFields member (@stepwise_recalled scope Eq _) _ _ _ _ _ ran
  obtain ⟨kept, isKept, same⟩ := survives.structType named
  have fits := survives.fits (Schema.fits_of_validate checked)
  obtain ⟨_, isBehind, _, _, rfl, known, complete, -⟩ := Schema.fits_iff.mp fits
  obtain rfl := DataType.struct.inj (Except.ok.inj isBehind)
  obtain rfl := Except.ok.inj (isKept.symm.trans known)
  refine .layered (survives.canonical followed) (by simp)
    ⟨name, kept, rfl, isKept, complete, fun field isField => ?_⟩
  obtain ⟨found, isFound, sameId, made⟩ :=
    makes_of_mem_fields member ran field (Value.Fields.mem_of_mem_ofList isField)
  obtain ⟨other, isOther, sameType⟩ :=
    fieldById?_of_mem_bare same (isLinked.struct isKept).distinct isFound
  exact ⟨other, sameId ▸ isOther, sameType ▸ made⟩

/-- A union is composed of the one field that it holds. -/
theorem composed_of_union {name : String}
    (followed : linking.schema.canonical type = .ok (.union name)) {declared : UnionType}
    (named : linking.schema.unionType name = .ok declared)
    {entries : List (Literal × Literal)} {fields : List (Int16 × Value)}
    (ran : scope.convertFields scope.recalled context entries declared.fields linking =
      .ok (fields, later))
    (made : Value.unionOf name fields = .ok value) :
    scope.Composed context linking schema value type := by
  obtain ⟨id, held, rfl, rfl⟩ := unionOf_eq_ok made
  obtain ⟨kept, isKept, same⟩ := survives.unionType named
  obtain ⟨found, isFound, rfl, heldMade⟩ :=
    makes_of_mem_fields member ran _ (List.mem_singleton_self _)
  obtain ⟨other, isOther, sameType⟩ :=
    fieldById?_of_mem_bare same (isLinked.union isKept).distinct isFound
  exact .layered (survives.canonical followed) (by simp)
    ⟨name, kept, other, rfl, isKept, isOther, sameType ▸ heldMade⟩

/-- A value that is made for a type is composed for it.

Proof: by the form of the literal and, for each form, the type behind all typedefs. A named constant
is copied, and numbers and texts have no parts. Elements, keys, values and fields are made of the
literals inside, and insertion keeps only what was made. -/
theorem Makes.composed (made : scope.Makes context linking value type) :
    scope.Composed context linking schema value type := by
  obtain ⟨literal, ran⟩ := made
  unfold Scope.convert at ran
  obtain ⟨behind, followed, ran⟩ := lookedUp_canonical_eq_ok.mp ran
  have followedThere := survives.canonical followed
  cases literal with
  | identifier name => exact composed_of_convertIdentifier survives followed ran
  | int number => exact composed_of_convertInt survives followed ran
  | double number =>
    cases behind with
    | double =>
      obtain ⟨rfl, -⟩ := pure_eq_ok.mp ran
      exact .layered followedThere (by simp) rfl
    | _ => exact (fail_eq_ok.mp ran).elim
  | text text =>
    cases behind with
    | string | binary =>
      obtain ⟨rfl, -⟩ := pure_eq_ok.mp ran
      exact .layered followedThere (by simp) rfl
    | _ => exact (fail_eq_ok.mp ran).elim
  | list items =>
    cases behind with
    | list element =>
      obtain ⟨values, _, areValues, same⟩ := bind_eq_ok.mp ran
      obtain ⟨rfl, rfl⟩ := pure_eq_ok.mp same
      exact .layered followedThere (by simp) ⟨element, rfl, makes_of_mem_items member areValues⟩
    | set element =>
      obtain ⟨values, _, areValues, same⟩ := bind_eq_ok.mp ran
      obtain ⟨rfl, rfl⟩ := pure_eq_ok.mp same
      refine .layered followedThere (by simp) ⟨element, rfl, fun item isItem => ?_⟩
      exact makes_of_mem_items member areValues item (Value.mem_of_mem_elementsOf isItem)
    | _ => exact (fail_eq_ok.mp ran).elim
  | map entries =>
    cases behind with
    | map keyType valueType =>
      obtain ⟨values, _, areValues, same⟩ := bind_eq_ok.mp ran
      obtain ⟨rfl, rfl⟩ := pure_eq_ok.mp same
      have each := makes_of_mem_entries member areValues
      refine .layered followedThere (by simp) ⟨keyType, valueType, rfl, fun entry isEntry => ?_⟩
      obtain ⟨⟨_, keyOrigin⟩, _, valueOrigin⟩ := Value.mem_of_mem_entriesOf isEntry
      exact ⟨(each _ keyOrigin).1, (each _ valueOrigin).2⟩
    | struct name =>
      simp only [bind_eq_ok, lookedUp_eq_ok, schema?_eq_ok, checked_eq_ok, pure_eq_ok] at ran
      obtain ⟨declared, _, ⟨named, rfl⟩, fields, _, areFields, _, _, ⟨rfl, rfl⟩, _, _,
        ⟨checked, -⟩, rfl, -⟩ := ran
      exact composed_of_struct member survives isLinked followed named areFields checked
    | union name =>
      simp only [bind_eq_ok, lookedUp_eq_ok, checked_eq_ok] at ran
      obtain ⟨declared, _, ⟨named, rfl⟩, fields, _, areFields, made, -⟩ := ran
      exact composed_of_union member survives isLinked followed named areFields made
    | _ => exact (fail_eq_ok.mp ran).elim

end Composition

end Scope

end SchemaCodec
