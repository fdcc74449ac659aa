import SchemaCodec.Proofs.LinkedRegistry
import SchemaCodec.Proofs.SurvivingTypes

/-!
# Types of a part of a schema

Two schemas may survive in a third one, though neither survives in the other. If one of them is
linked, nothing leads out of it: of the types that are registered there, it tells all that the other
one tells.
-/

namespace SchemaCodec.Schema

open Outcome (bind_eq_ok)

variable {schema part last : Schema} (survives : schema.SurvivesIn last)
  (alsoSurvives : part.SurvivesIn last)

include survives alsoSurvives

/-- A struct that both schemas declare has the same fields, up to their defaults. -/
theorem bare_of_structType {name : String} {declared kept : StructType}
    (named : schema.structType name = .ok declared) (alsoNamed : part.structType name = .ok kept) :
    kept.fields.map (·.bare) = declared.fields.map (·.bare) := by
  obtain ⟨final, isFinal, same⟩ := survives.structType named
  obtain ⟨again, isAgain, alsoSame⟩ := alsoSurvives.structType alsoNamed
  obtain rfl := Except.ok.inj (isFinal.symm.trans isAgain)
  exact alsoSame.symm.trans same

/-- A union that both schemas declare has the same fields, up to their defaults. -/
theorem bare_of_unionType {name : String} {declared kept : UnionType}
    (named : schema.unionType name = .ok declared) (alsoNamed : part.unionType name = .ok kept) :
    kept.fields.map (·.bare) = declared.fields.map (·.bare) := by
  obtain ⟨final, isFinal, same⟩ := survives.unionType named
  obtain ⟨again, isAgain, alsoSame⟩ := alsoSurvives.unionType alsoNamed
  obtain rfl := Except.ok.inj (isFinal.symm.trans isAgain)
  exact alsoSame.symm.trans same

variable (linked : part.Linked)

include linked

/-- A type that is registered in the part has the same end of its chain there. -/
theorem canonical_of_closed {type behind : DataType} (closed : part.Closed type)
    (followed : schema.canonical type = .ok behind) :
    part.canonical type = .ok behind ∧ part.Closed behind := by
  obtain ⟨again, alsoFollowed, closedBehind⟩ := linked.canonical closed
  have same : last.canonical type = .ok again := alsoSurvives.canonical alsoFollowed
  obtain rfl := Except.ok.inj ((survives.canonical followed).symm.trans same)
  exact ⟨alsoFollowed, closedBehind⟩

omit survives alsoSurvives linked in
/-- Fields that are those of well-formed ones, up to defaults, have the types of these. -/
theorem closed_of_bare {fields kept : List Field}
    (same : kept.map (·.bare) = fields.map (·.bare))
    (wellFormed : FieldsWellFormed part.Closed kept) :
    ∀ field ∈ fields, part.Closed field.type := by
  intro field isField
  have isBare : field.bare ∈ kept.map (·.bare) := same ▸ List.mem_map_of_mem isField
  obtain ⟨other, isOther, sameField⟩ := List.mem_map.mp isBare
  have sameType : other.bare.type = field.bare.type := congrArg Field.type sameField
  change other.type = field.type at sameType
  exact sameType ▸ wellFormed.types other isOther

/-- A struct that is registered in the part has its fields there, and so have their types. -/
theorem structType_of_closed {name : String} {declared : StructType}
    (closed : part.Closed (.struct name)) (named : schema.structType name = .ok declared) :
    ∃ kept, part.structType name = .ok kept ∧
      kept.fields.map (·.bare) = declared.fields.map (·.bare) ∧
        ∀ field ∈ declared.fields, part.Closed field.type := by
  obtain ⟨kept, isKept⟩ := exists_structType closed
  have same := bare_of_structType survives alsoSurvives named isKept
  exact ⟨kept, isKept, same, closed_of_bare same (linked.struct isKept)⟩

/-- A union that is registered in the part has its fields there, and so have their types. -/
theorem unionType_of_closed {name : String} {declared : UnionType}
    (closed : part.Closed (.union name)) (named : schema.unionType name = .ok declared) :
    ∃ kept, part.unionType name = .ok kept ∧
      kept.fields.map (·.bare) = declared.fields.map (·.bare) ∧
        ∀ field ∈ declared.fields, part.Closed field.type := by
  obtain ⟨kept, isKept⟩ := exists_unionType closed
  have same := bare_of_unionType survives alsoSurvives named isKept
  exact ⟨kept, isKept, same, closed_of_bare same (linked.union isKept)⟩

omit linked in
/-- An enum that is registered in the part is the same there. -/
theorem enumType_of_closed {name : String} {declared : EnumType}
    (closed : part.Closed (.enum name)) (named : schema.enumType name = .ok declared) :
    part.enumType name = .ok declared := by
  obtain ⟨kept, isKept⟩ := exists_enumType closed
  have same := (survives.enumType named).symm.trans (alsoSurvives.enumType isKept)
  rwa [Except.ok.inj same]

/-- The enum behind a type that is registered in the part is the same there. -/
theorem enumBehind_of_closed {type : DataType} {declared : EnumType} (closed : part.Closed type)
    (found : schema.enumBehind type = .ok declared) : part.enumBehind type = .ok declared := by
  obtain ⟨behind, followed, found⟩ := bind_eq_ok.mp found
  obtain ⟨alsoFollowed, closedBehind⟩ :=
    canonical_of_closed survives alsoSurvives linked closed (lookedUp_eq_ok.mp followed)
  refine bind_eq_ok.mpr ⟨behind, lookedUp_eq_ok.mpr alsoFollowed, ?_⟩
  cases behind with
  | enum name =>
    apply lookedUp_eq_ok.mpr
    exact enumType_of_closed survives alsoSurvives closedBehind (lookedUp_eq_ok.mp found)
  | _ => exact found

/-- What fits a type that is no typedef fits it in the part, when its parts do so in types that are
registered there.

Proof: by the kind of the value. The type of each part is registered in the part of the schema,
since it occurs in a type that is, and so are the structs, unions and enums that are named; these
have the same fields in both schemas. -/
theorem fitsLayer_of_closed {below also : Value → DataType → Prop} {value : Value}
    {behind : DataType} (closed : part.Closed behind)
    (inside : ∀ {held type}, held.nesting < value.nesting → part.Closed type → below held type →
      also held type)
    (fits : FitsLayer schema below value behind) : FitsLayer part also value behind := by
  cases value with
  | list items =>
    obtain ⟨element, rfl, each⟩ := fits
    exact ⟨element, rfl, fun item member =>
      inside (Value.nesting_lt_of_mem_items member) closed (each item member)⟩
  | set elements =>
    obtain ⟨element, rfl, each⟩ := fits
    exact ⟨element, rfl, fun item member =>
      inside (Value.nesting_lt_of_mem_items member) closed (each item member)⟩
  | map entries =>
    obtain ⟨keyType, valueType, rfl, each⟩ := fits
    refine ⟨keyType, valueType, rfl, fun entry member => ?_⟩
    obtain ⟨keyBelow, valueBelow⟩ := Value.nesting_lt_of_mem_entries member
    exact ⟨inside keyBelow closed.1 (each entry member).1,
      inside valueBelow closed.2 (each entry member).2⟩
  | struct fields =>
    obtain ⟨name, declared, rfl, named, complete, each⟩ := fits
    obtain ⟨kept, isKept, same, closedFields⟩ :=
      structType_of_closed survives alsoSurvives linked closed named
    refine ⟨name, kept, rfl, isKept, missingRequired?_of_bare same complete, fun field member => ?_⟩
    obtain ⟨found, known, here⟩ := each field member
    obtain ⟨other, isOther, sameType⟩ := fieldById?_of_bare same known
    refine ⟨other, isOther, sameType ▸ inside (Value.nesting_lt_of_mem_fields member) ?_ here⟩
    exact closedFields found (List.mem_of_find?_eq_some known)
  | union id held =>
    obtain ⟨name, declared, found, rfl, named, known, here⟩ := fits
    obtain ⟨kept, isKept, same, closedFields⟩ :=
      unionType_of_closed survives alsoSurvives linked closed named
    obtain ⟨other, isOther, sameType⟩ := fieldById?_of_bare same known
    refine ⟨name, kept, other, rfl, isKept, isOther, sameType ▸ inside (Nat.lt_succ_self _) ?_ here⟩
    exact closedFields found (List.mem_of_find?_eq_some known)
  | enum number label =>
    obtain ⟨name, declared, rfl, named, labelled⟩ := fits
    exact ⟨name, declared, rfl, enumType_of_closed survives alsoSurvives closed named, labelled⟩
  | _ => exact fits

/-- A value that passes the check for a type that is registered in the part passes it there. The
induction is on the nesting of the value. -/
theorem checkValue_of_closed {limit depth : Nat} {value : Value} {type : DataType}
    (closed : part.Closed type) (checked : schema.checkValue limit value type depth = .ok ()) :
    part.checkValue limit value type depth = .ok () := by
  induction nested : value.nesting using Nat.strongRecOn generalizing value type depth with
  | ind nesting inductionHypothesis =>
    obtain ⟨within, behind, followed, layer⟩ := checkValue_eq_ok.mp checked
    obtain ⟨alsoFollowed, closedBehind⟩ :=
      canonical_of_closed survives alsoSurvives linked closed followed
    refine checkValue_eq_ok.mpr ⟨within, behind, alsoFollowed, ?_⟩
    apply fitsLayer_of_closed survives alsoSurvives linked closedBehind ?_ layer
    intro held type shallower isClosed heldChecked
    exact inductionHypothesis _ (nested ▸ shallower) isClosed heldChecked rfl

/-- Of the types that are registered in the part, it tells all that the other schema tells. -/
theorem tells_of_closed : schema.Tells part.Closed part where
  element isClosed := isClosed.elim id id
  entry isClosed := isClosed
  canonical := canonical_of_closed survives alsoSurvives linked
  structType := structType_of_closed survives alsoSurvives linked
  unionType := unionType_of_closed survives alsoSurvives linked
  enumOfNumber closed made := by
    obtain ⟨declared, found, made⟩ := bind_eq_ok.mp made
    exact bind_eq_ok.mpr
      ⟨declared, enumBehind_of_closed survives alsoSurvives linked closed found, made⟩
  enumOfName closed made := by
    obtain ⟨declared, found, made⟩ := bind_eq_ok.mp made
    exact bind_eq_ok.mpr
      ⟨declared, enumBehind_of_closed survives alsoSurvives linked closed found, made⟩
  checkValue := checkValue_of_closed survives alsoSurvives linked

end SchemaCodec.Schema
