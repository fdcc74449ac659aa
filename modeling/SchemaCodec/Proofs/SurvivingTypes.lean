import SchemaCodec.Proofs.Completion
import SchemaCodec.Proofs.FittingDepth

/-!
# Types that survive

A schema survives in another one when whatever it declares is declared there as well, up to the
defaults of fields. Then all that the schema tells of types, of enums and of values that fit is told
by the other one.
-/

namespace SchemaCodec

open Outcome (bind_eq_ok)

/-- A field that is found is found among the same fields with other defaults. -/
theorem fieldById?_of_bare {fields kept : List Field}
    (same : kept.map (·.bare) = fields.map (·.bare)) {id : Int16} {field : Field}
    (found : fieldById? fields id = some field) :
    ∃ other, fieldById? kept id = some other ∧ other.type = field.type := by
  have bare (fields : List Field) :
      fieldById? (fields.map (·.bare)) id = (fieldById? fields id).map (·.bare) :=
    List.find?_map ..
  have isThere : (fieldById? kept id).map (·.bare) = some field.bare := by
    rw [← bare, same, bare, found]
    rfl
  obtain ⟨other, isOther, sameField⟩ := Option.map_eq_some_iff.mp isThere
  have sameType : other.bare.type = field.bare.type := congrArg Field.type sameField
  exact ⟨other, isOther, sameType⟩

/-- A field is found among the same fields with other defaults, when these have distinct ids. -/
theorem fieldById?_of_mem_bare {fields kept : List Field}
    (same : kept.map (·.bare) = fields.map (·.bare)) (distinct : (kept.map (·.id)).Nodup)
    {field : Field} (member : field ∈ fields) :
    ∃ found, fieldById? kept field.id = some found ∧ found.type = field.type := by
  have isThere : field.bare ∈ kept.map (·.bare) := same ▸ List.mem_map_of_mem member
  obtain ⟨found, isFound, sameField⟩ := List.mem_map.mp isThere
  have sameId : found.bare.id = field.bare.id := congrArg Field.id sameField
  have sameType : found.bare.type = field.bare.type := congrArg Field.type sameField
  exact ⟨found, (find?_key_eq_some distinct).mpr ⟨isFound, sameId⟩, sameType⟩

/-- What is set is complete whatever the defaults. -/
theorem missingRequired?_of_bare {fields kept : List Field}
    (same : kept.map (·.bare) = fields.map (·.bare)) {isSet : Int16 → Bool}
    (complete : Schema.missingRequired? fields isSet = none) :
    Schema.missingRequired? kept isSet = none := by
  have bare (fields : List Field) : Schema.missingRequired? (fields.map (·.bare)) isSet =
      (Schema.missingRequired? fields isSet).map (·.bare) :=
    List.find?_map ..
  have absent : (Schema.missingRequired? kept isSet).map (·.bare) = none := by
    rw [← bare, same, bare, complete]
    rfl
  exact Option.map_eq_none_iff.mp absent

namespace Schema

/-- What a schema declares is declared by another one as well, up to defaults. -/
structure SurvivesIn (schema other : Schema) : Prop where
  declaration? : ∀ {name declared}, schema.declaration? name = some declared →
    ∃ kept, other.declaration? name = some kept ∧ kept.bare = declared.bare
  size : schema.types.length ≤ other.types.length

namespace SurvivesIn

variable {schema other last : Schema}

/-- A schema survives in itself. -/
theorem refl (schema : Schema) : schema.SurvivesIn schema where
  declaration? found := ⟨_, found, rfl⟩
  size := Nat.le_refl _

/-- A schema survives where the very same types are declared at the same positions. -/
theorem of_types (same : other.types = schema.types)
    (alsoSame : other.typePositions = schema.typePositions) : schema.SurvivesIn other where
  declaration? {name declared} found := by
    refine ⟨declared, ?_, rfl⟩
    rwa [Schema.declaration?, same, alsoSame]
  size := Nat.le_of_eq (congrArg List.length same.symm)

/-- A schema that survives in one that survives in a third one survives there. -/
theorem trans (first : schema.SurvivesIn other) (second : other.SurvivesIn last) :
    schema.SurvivesIn last where
  declaration? found := by
    obtain ⟨kept, isKept, same⟩ := first.declaration? found
    obtain ⟨final, isFinal, alsoSame⟩ := second.declaration? isKept
    exact ⟨final, isFinal, alsoSame.trans same⟩
  size := Nat.le_trans first.size second.size

/-- A schema survives where the same types are declared, up to defaults and in any order. -/
theorem of_perm (indexed : schema.Indexed) (alsoIndexed : other.Indexed)
    (permuted : (schema.types.map (·.bare)).Perm (other.types.map (·.bare))) :
    schema.SurvivesIn other where
  declaration? {name declared} found := by
    obtain ⟨isDeclared, rfl⟩ := indexed.declaration?_eq_some.mp found
    obtain ⟨kept, isKept, same⟩ :=
      List.mem_map.mp (permuted.subset (List.mem_map_of_mem isDeclared))
    have sameName : kept.name = declared.name := by
      rw [← kept.name_bare, same, declared.name_bare]
    exact ⟨kept, alsoIndexed.declaration?_eq_some.mpr ⟨isKept, sameName⟩, same⟩
  size := by
    have sameLength := permuted.length_eq
    rw [List.length_map, List.length_map] at sameLength
    exact Nat.le_of_eq sameLength

/-- A struct survives, with its fields up to their defaults. -/
theorem structType (survives : schema.SurvivesIn other) {name : String} {declared : StructType}
    (named : schema.structType name = .ok declared) :
    ∃ kept, other.structType name = .ok kept ∧
      kept.fields.map (·.bare) = declared.fields.map (·.bare) := by
  obtain ⟨kept, found, same⟩ := survives.declaration? (structType_eq_ok.mp named)
  cases kept with
  | struct kept =>
    exact ⟨kept, structType_eq_ok.mpr found,
      congrArg StructType.fields (TypeDeclaration.struct.inj same)⟩
  | _ => simp [TypeDeclaration.bare] at same

/-- A union survives, with its fields up to their defaults. -/
theorem unionType (survives : schema.SurvivesIn other) {name : String} {declared : UnionType}
    (named : schema.unionType name = .ok declared) :
    ∃ kept, other.unionType name = .ok kept ∧
      kept.fields.map (·.bare) = declared.fields.map (·.bare) := by
  obtain ⟨kept, found, same⟩ := survives.declaration? (unionType_eq_ok.mp named)
  cases kept with
  | union kept =>
    exact ⟨kept, unionType_eq_ok.mpr found,
      congrArg UnionType.fields (TypeDeclaration.union.inj same)⟩
  | _ => simp [TypeDeclaration.bare] at same

/-- An enum survives. -/
theorem enumType (survives : schema.SurvivesIn other) {name : String} {declared : EnumType}
    (named : schema.enumType name = .ok declared) : other.enumType name = .ok declared := by
  obtain ⟨kept, found, same⟩ := survives.declaration? (enumType_eq_ok.mp named)
  cases kept with
  | enum kept =>
    obtain rfl := TypeDeclaration.enum.inj same
    exact enumType_eq_ok.mpr found
  | _ => simp [TypeDeclaration.bare] at same

/-- A chain of typedefs has the same end. -/
theorem canonical (survives : schema.SurvivesIn other) {type behind : DataType}
    (followed : schema.canonical type = .ok behind) : other.canonical type = .ok behind := by
  refine canonicalWithin_of_targets (fun {name target} isTarget => ?_)
    (Nat.succ_le_succ survives.size) followed
  obtain ⟨declared, found, sameTarget⟩ := typedefTarget_eq_ok.mp isTarget
  obtain ⟨kept, isKept, same⟩ := survives.declaration? found
  cases kept with
  | typedef kept =>
    obtain rfl := TypeDeclaration.typedef.inj same
    exact typedefTarget_eq_ok.mpr ⟨kept, isKept, sameTarget⟩
  | _ => simp [TypeDeclaration.bare] at same

/-- What fits a type that is no typedef keeps fitting it.

Proof: by the kind of the value. A struct, a union or an enum is found under its name in the other
schema too, with fields of the same ids, types and requiredness; what fits one level below is told
of the same parts and types. -/
theorem fitsLayer (survives : schema.SurvivesIn other) {below : Value → DataType → Prop}
    {value : Value} {behind : DataType} (fits : FitsLayer schema below value behind) :
    FitsLayer other below value behind := by
  cases value with
  | struct fields =>
    obtain ⟨name, declared, rfl, named, complete, each⟩ := fits
    obtain ⟨kept, isKept, same⟩ := survives.structType named
    refine ⟨name, kept, rfl, isKept, missingRequired?_of_bare same complete, fun field member => ?_⟩
    obtain ⟨found, known, here⟩ := each field member
    obtain ⟨other, isOther, sameType⟩ := fieldById?_of_bare same known
    exact ⟨other, isOther, sameType ▸ here⟩
  | union id held =>
    obtain ⟨name, declared, found, rfl, named, known, here⟩ := fits
    obtain ⟨kept, isKept, same⟩ := survives.unionType named
    obtain ⟨other, isOther, sameType⟩ := fieldById?_of_bare same known
    exact ⟨name, kept, other, rfl, isKept, isOther, sameType ▸ here⟩
  | enum number label =>
    obtain ⟨name, declared, rfl, named, labelled⟩ := fits
    exact ⟨name, declared, rfl, survives.enumType named, labelled⟩
  | _ => exact fits

/-- A value that passes the check for a type keeps passing it. The induction is on the nesting of
the value. -/
theorem checkValue (survives : schema.SurvivesIn other) {limit depth : Nat} {value : Value}
    {type : DataType} (checked : schema.checkValue limit value type depth = .ok ()) :
    other.checkValue limit value type depth = .ok () := by
  induction nested : value.nesting using Nat.strongRecOn generalizing value type depth with
  | ind nesting inductionHypothesis =>
    obtain ⟨within, behind, followed, layer⟩ := checkValue_eq_ok.mp checked
    refine checkValue_eq_ok.mpr ⟨within, behind, survives.canonical followed,
      survives.fitsLayer (layer.imp_shallower fun shallower partChecked => ?_)⟩
    exact inductionHypothesis _ (nested ▸ shallower) partChecked rfl

/-- A value that fits a type keeps fitting it. -/
theorem fits (survives : schema.SurvivesIn other) {value : Value} {type : DataType}
    (fits : schema.Fits value type) : other.Fits value type := by
  obtain ⟨limit, depth, checked⟩ := fits
  exact ⟨limit, depth, survives.checkValue checked⟩

/-- The enum behind a type survives. -/
theorem enumBehind (survives : schema.SurvivesIn other) {type : DataType} {declared : EnumType}
    (found : schema.enumBehind type = .ok declared) : other.enumBehind type = .ok declared := by
  obtain ⟨behind, followed, found⟩ := bind_eq_ok.mp found
  have kept : other.canonical type = .ok behind := survives.canonical (lookedUp_eq_ok.mp followed)
  refine bind_eq_ok.mpr ⟨behind, lookedUp_eq_ok.mpr kept, ?_⟩
  cases behind with
  | enum name => exact lookedUp_eq_ok.mpr (survives.enumType (lookedUp_eq_ok.mp found))
  | _ => exact found

/-- A number is labelled alike. -/
theorem enumOfNumber (survives : schema.SurvivesIn other) {type : DataType} {number : Int32}
    {value : Value} (made : schema.enumOfNumber type number = .ok value) :
    other.enumOfNumber type number = .ok value := by
  obtain ⟨declared, found, made⟩ := bind_eq_ok.mp made
  exact bind_eq_ok.mpr ⟨declared, survives.enumBehind found, made⟩

/-- A member of an enum has the same number. -/
theorem enumOfName (survives : schema.SurvivesIn other) {type : DataType} {member : String}
    {value : Value} (made : schema.enumOfName type member = .ok value) :
    other.enumOfName type member = .ok value := by
  obtain ⟨declared, found, made⟩ := bind_eq_ok.mp made
  exact bind_eq_ok.mpr ⟨declared, survives.enumBehind found, made⟩

end SurvivesIn

/-- What a schema tells of usable types is told by another one: what is behind them, which fields
and members they have and which values fit them. What is behind or inside a usable type is usable.
-/
structure Tells (schema : Schema) (usable : DataType → Prop) (other : Schema) : Prop where
  element : ∀ {element}, usable (.list element) ∨ usable (.set element) → usable element
  entry : ∀ {key value}, usable (.map key value) → usable key ∧ usable value
  canonical : ∀ {type behind}, usable type → schema.canonical type = .ok behind →
    other.canonical type = .ok behind ∧ usable behind
  structType : ∀ {name declared}, usable (.struct name) → schema.structType name = .ok declared →
    ∃ kept, other.structType name = .ok kept ∧
      kept.fields.map (·.bare) = declared.fields.map (·.bare) ∧
        ∀ field ∈ declared.fields, usable field.type
  unionType : ∀ {name declared}, usable (.union name) → schema.unionType name = .ok declared →
    ∃ kept, other.unionType name = .ok kept ∧
      kept.fields.map (·.bare) = declared.fields.map (·.bare) ∧
        ∀ field ∈ declared.fields, usable field.type
  enumOfNumber : ∀ {type number value}, usable type →
    schema.enumOfNumber type number = .ok value → other.enumOfNumber type number = .ok value
  enumOfName : ∀ {type member value}, usable type →
    schema.enumOfName type member = .ok value → other.enumOfName type member = .ok value
  checkValue : ∀ {limit depth value type}, usable type →
    schema.checkValue limit value type depth = .ok () →
      other.checkValue limit value type depth = .ok ()

/-- What a schema tells of any type is told where it survives. -/
theorem SurvivesIn.tells {schema other : Schema} (survives : schema.SurvivesIn other) :
    schema.Tells (fun _ => True) other where
  element _ := trivial
  entry _ := ⟨trivial, trivial⟩
  canonical _ followed := ⟨survives.canonical followed, trivial⟩
  structType _ named := by
    obtain ⟨kept, isKept, same⟩ := survives.structType named
    exact ⟨kept, isKept, same, fun _ _ => trivial⟩
  unionType _ named := by
    obtain ⟨kept, isKept, same⟩ := survives.unionType named
    exact ⟨kept, isKept, same, fun _ _ => trivial⟩
  enumOfNumber _ := survives.enumOfNumber
  enumOfName _ := survives.enumOfName
  checkValue _ := survives.checkValue

/-- What a schema tells is told wherever the one to which it tells it survives. -/
theorem Tells.trans {schema other last : Schema} {usable : DataType → Prop}
    (tells : schema.Tells usable other) (survives : other.SurvivesIn last) :
    schema.Tells usable last where
  element := tells.element
  entry := tells.entry
  canonical isUsable followed :=
    (tells.canonical isUsable followed).imp_left survives.canonical
  structType isUsable named := by
    obtain ⟨kept, isKept, same, inside⟩ := tells.structType isUsable named
    obtain ⟨final, isFinal, alsoSame⟩ := survives.structType isKept
    exact ⟨final, isFinal, alsoSame.trans same, inside⟩
  unionType isUsable named := by
    obtain ⟨kept, isKept, same, inside⟩ := tells.unionType isUsable named
    obtain ⟨final, isFinal, alsoSame⟩ := survives.unionType isKept
    exact ⟨final, isFinal, alsoSame.trans same, inside⟩
  enumOfNumber isUsable made := survives.enumOfNumber (tells.enumOfNumber isUsable made)
  enumOfName isUsable made := survives.enumOfName (tells.enumOfName isUsable made)
  checkValue isUsable checked := survives.checkValue (tells.checkValue isUsable checked)

end Schema

/-- A schema survives in one that completes it. -/
theorem Linking.Completes.survives {linking later : Linking} (completes : linking.Completes later) :
    linking.schema.SurvivesIn later.schema where
  declaration? := completes.declaration?
  size := by
    obtain ⟨typedefs, same, -⟩ := completes.types
    have longer := congrArg List.length same
    simp only [List.length_map, List.length_append] at longer
    omega

end SchemaCodec
