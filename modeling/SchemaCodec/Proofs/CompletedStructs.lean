import SchemaCodec.Proofs.Culprits
import SchemaCodec.Proofs.TypedDefaults
import SchemaCodec.Schema.Construction

/-!
# Structs completed by defaults

A struct that is built from given fields takes the defaults of the others before it is checked. The
defaults of a linked schema fit their fields, so this check is about the given fields only, and
about the required fields for which there is neither a value nor a default.

Main statement: which fields may be given, what the struct then holds, and what is wrong otherwise.
-/

namespace SchemaCodec

open Outcome (bind_eq_ok bind_eq_error)
open Value (Fields KeysAscend)

/-- The value that a field takes when none is given for it. -/
def Field.implied (field : Field) : Option Value :=
  if field.requiredness = .optional then none else field.default

/-- The value that a struct takes for the field of an id when none is given for it. -/
def impliedValue (declared : List Field) (id : Int16) : Option Value :=
  (fieldById? declared id).bind Field.implied

/-- A required field takes its default. -/
theorem Field.implied_of_required {field : Field} (required : field.requiredness = .required) :
    field.implied = field.default := by
  simp [implied, required]

/-- What a field takes is its default. -/
theorem Field.default_of_implied {field : Field} {value : Value}
    (implied : field.implied = some value) : field.default = some value :=
  (Option.ite_none_left_eq_some.mp implied).2

/-- A field is set when there is a value under its id. -/
theorem Value.Fields.contains_eq_isSome (fields : Fields) (id : Int16) :
    fields.contains id = (fields.get? id).isSome := by
  rw [Bool.eq_iff_iff]
  simp [Fields.contains, Fields.get?, List.find?_isSome]

namespace Schema

section Filling

variable {declared : List Field}

/-- The defaults of several fields are filled in one after another. -/
theorem fillDefaults_cons (field : Field) (rest : List Field) (fields : Fields) :
    fillDefaults (field :: rest) fields = fillDefaults rest
      (match field.implied with
      | some value => if fields.contains field.id then fields else fields.insert field.id value
      | none => fields) := by
  cases isDefault : field.default <;> cases required : field.requiredness <;>
    simp [fillDefaults, Field.implied, isDefault, required]

/-- Filling in defaults keeps the ids ascending. -/
theorem keysAscend_fillDefaults {fields : Fields} (ascending : KeysAscend compare fields) :
    KeysAscend compare (fillDefaults declared fields) := by
  induction declared generalizing fields with
  | nil => exact ascending
  | cons field rest inductionHypothesis =>
    rw [fillDefaults_cons]
    refine inductionHypothesis ?_
    split
    · split
      · exact ascending
      · exact Fields.keysAscend_insert ascending _ _
    · exact ascending

/-- A struct that is filled in holds what was given and, for the other fields, what is implied. The
induction is on the declared fields: with distinct ids each of them is met once. -/
theorem get?_fillDefaults (distinct : (declared.map (·.id)).Nodup) (fields : Fields) (id : Int16) :
    (fillDefaults declared fields).get? id = (fields.get? id).or (impliedValue declared id) := by
  induction declared generalizing fields with
  | nil => simp [fillDefaults, impliedValue, fieldById?]
  | cons field rest inductionHypothesis =>
    rw [List.map_cons, List.nodup_cons] at distinct
    obtain ⟨new, distinctRest⟩ := distinct
    rw [fillDefaults_cons, inductionHypothesis distinctRest]
    by_cases same : field.id = id
    · subst same
      have behind : impliedValue rest field.id = none := by
        have absent : fieldById? rest field.id = none :=
          List.find?_eq_none.mpr fun other isOther => by
            simpa using fun sameId => new (List.mem_map.mpr ⟨other, isOther, sameId⟩)
        rw [impliedValue, absent]
        rfl
      have here : impliedValue (field :: rest) field.id = field.implied := by
        simp [impliedValue, fieldById?]
      rw [behind, here, Option.or_none]
      cases implied : field.implied with
      | none => simp
      | some value =>
        rw [Fields.contains_eq_isSome]
        cases given : fields.get? field.id with
        | none => simp [Fields.get?_insert]
        | some held => simp [given]
    · have behind : impliedValue (field :: rest) id = impliedValue rest id := by
        simp [impliedValue, fieldById?, same]
      have untouched : Fields.get? (match field.implied with
          | some value => if fields.contains field.id then fields else fields.insert field.id value
          | none => fields) id = fields.get? id := by
        split
        · split
          · rfl
          · rw [Fields.get?_insert, if_neg same]
        · rfl
      rw [behind, untouched]

end Filling

/-- The value that is given last for an id. -/
def lastGiven (given : List (Int16 × Value)) (id : Int16) : Option Value :=
  given.reverse.findSome? fun field => if field.1 = id then some field.2 else none

/-- What may be given for a struct: a value that fits for each field, one level below the struct,
and a value for each required field without default. -/
structure Completable (schema : Schema) (declared : StructType) (given : List (Int16 × Value)) :
    Prop where
  fit : ∀ id value, lastGiven given id = some value →
    ∃ field, fieldById? declared.fields id = some field ∧
      schema.checkValue defaultDepth value field.type 1 = .ok ()
  complete : ∀ field ∈ declared.fields, field.requiredness = .required →
    (lastGiven given field.id).isSome ∨ field.default.isSome

/-- What is wrong with what is given for a struct. Each case blames something that was given or that
is missing, never a default. For an id that is given several times, only the last value counts. -/
inductive GivenFault (schema : Schema) (name : String) (declared : StructType)
    (given : List (Int16 × Value)) : ValueError → Prop where
  /-- A required field has neither a value nor a default. -/
  | missing {field : Field} (isField : field ∈ declared.fields)
    (required : field.requiredness = .required) (absent : lastGiven given field.id = none)
    (noDefault : field.default = none) :
    GivenFault schema name declared given ⟨.missingRequiredField name field.id field.name, []⟩
  /-- A value is given for a field that is not declared. -/
  | undeclared {id : Int16} {value : Value} (isGiven : lastGiven given id = some value)
    (unknown : fieldById? declared.fields id = none) :
    GivenFault schema name declared given ⟨.undeclaredField name id, []⟩
  /-- A value that is given does not fit its field. -/
  | unfit {id : Int16} {value : Value} {field : Field} {inner : ValueError}
    (isGiven : lastGiven given id = some value)
    (known : fieldById? declared.fields id = some field)
    (failed : schema.checkValue defaultDepth value field.type 1 = .error inner) :
    GivenFault schema name declared given (inner.within (.field id))

section Construction

variable {schema : Schema} {type : DataType} {name : String} {declared : StructType}
  {given : List (Int16 × Value)}

/-- A struct passes the check of a whole value when its required fields are set and its fields
fit. -/
theorem validate_struct (followed : schema.canonical type = .ok (.struct name))
    (named : schema.structType name = .ok declared) (fields : Fields) :
    schema.validate type (.struct fields) =
      match missingRequired? declared.fields (Fields.contains fields) with
      | some field => .error ⟨.missingRequiredField name field.id field.name, []⟩
      | none => schema.checkFields defaultDepth fields name declared.fields 1 := by
  have expected : schema.expectedAt defaultDepth type 0 = .ok (.struct name) := by
    simp [expectedAt, lookedUp, followed, Except.mapError]
  rw [validate, checkValue, expected]
  cases missing : missingRequired? declared.fields (Fields.contains fields) <;>
    simp [lookedUp, named, missing, Except.mapError, bind, Except.bind]

/-- A struct is built of what was given and filled in, when this passes the check. -/
theorem newStruct_eq (followed : schema.canonical type = .ok (.struct name))
    (named : schema.structType name = .ok declared) :
    schema.newStruct type given =
      let filled := Value.struct (fillDefaults declared.fields (Fields.ofList given))
      schema.validate type filled >>= fun _ => .ok filled := by
  simp [newStruct, lookedUp, followed, named, Except.mapError, bind, Except.bind]

/-- Under each id a struct that is built has what was given last or, without that, what is
implied. -/
theorem get?_filled (distinct : (declared.fields.map (·.id)).Nodup) (id : Int16) :
    (fillDefaults declared.fields (Fields.ofList given)).get? id =
      (lastGiven given id).or (impliedValue declared.fields id) := by
  rw [get?_fillDefaults distinct, Fields.get?_ofList]
  rfl

/-- A field of a struct that is built was given last, or it is declared and has its default. -/
theorem given_or_implied (distinct : (declared.fields.map (·.id)).Nodup) {id : Int16}
    {value : Value} (isField : (id, value) ∈ fillDefaults declared.fields (Fields.ofList given)) :
    lastGiven given id = some value ∨ ∃ field ∈ declared.fields,
      fieldById? declared.fields id = some field ∧ field.default = some value := by
  have ascending : KeysAscend compare (fillDefaults declared.fields (Fields.ofList given)) :=
    keysAscend_fillDefaults (Fields.keysAscend_ofList given)
  have found := (Value.get?_eq_some_iff (Fields.nodup_of_ascending ascending)).mpr isField
  rw [get?_filled distinct, Option.or_eq_some_iff] at found
  refine found.imp_right fun ⟨_, isImplied⟩ => ?_
  obtain ⟨field, known, implied⟩ := Option.bind_eq_some_iff.mp isImplied
  exact ⟨field, List.mem_of_find?_eq_some known, known, Field.default_of_implied implied⟩

/-- A required field of a struct that is built is set when it was given or has a default. -/
theorem contains_filled (distinct : (declared.fields.map (·.id)).Nodup) {field : Field}
    (isField : field ∈ declared.fields) (required : field.requiredness = .required) :
    (fillDefaults declared.fields (Fields.ofList given)).contains field.id ↔
      (lastGiven given field.id).isSome ∨ field.default.isSome := by
  have known : fieldById? declared.fields field.id = some field :=
    (find?_key_eq_some distinct).mpr ⟨isField, rfl⟩
  rw [Fields.contains_eq_isSome, get?_filled distinct, impliedValue, known, Option.bind_some,
    Field.implied_of_required required, Option.isSome_or, Bool.or_eq_true]

/-- The required fields of a struct that is built are set when each was given or has a default. -/
theorem missingRequired?_filled (distinct : (declared.fields.map (·.id)).Nodup) :
    missingRequired? declared.fields
        (fillDefaults declared.fields (Fields.ofList given)).contains = none ↔
      ∀ field ∈ declared.fields, field.requiredness = .required →
        (lastGiven given field.id).isSome ∨ field.default.isSome := by
  rw [missingRequired?, List.find?_eq_none]
  refine forall₂_congr fun field isField => ?_
  simp only [Bool.and_eq_true, decide_eq_true_eq, Bool.not_eq_true', not_and, Bool.not_eq_false]
  exact forall_congr' (contains_filled distinct isField)

section FittingDefaults

variable (followed : schema.canonical type = .ok (.struct name))
  (named : schema.structType name = .ok declared) (distinct : (declared.fields.map (·.id)).Nodup)
  (fits : ∀ field ∈ declared.fields, ∀ value ∈ field.default,
    schema.checkValue defaultDepth value field.type 1 = .ok ())

include followed named distinct fits

/-- Where all defaults fit, a struct can be built exactly of what is complete with them.

Proof: a struct is built exactly if the validator accepts what is filled in. A given field is in it
under its id, so it fits if the struct is accepted; conversely each field of it was given or comes
from a default, and both fit. -/
theorem exists_newStruct_iff :
    (∃ value, schema.newStruct type given = .ok value) ↔ schema.Completable declared given := by
  simp only [newStruct_eq followed named, bind_eq_ok, validate_struct followed named]
  constructor
  · rintro ⟨_, ⟨⟩, checked, -⟩
    cases missing : missingRequired? declared.fields
        (fillDefaults declared.fields (Fields.ofList given)).contains with
    | some field => simp [missing] at checked
    | none =>
      simp only [missing, checkFields_eq_ok] at checked
      refine ⟨fun id value isGiven => ?_, (missingRequired?_filled distinct).mp missing⟩
      have filled : (fillDefaults declared.fields (Fields.ofList given)).get? id = some value := by
        rw [get?_filled distinct, isGiven, Option.some_or]
      exact checked _ (Value.mem_of_get? filled)
  · rintro ⟨fit, complete⟩
    refine ⟨_, (), ?_, rfl⟩
    rw [(missingRequired?_filled distinct).mpr complete]
    refine checkFields_eq_ok.mpr fun field isField => ?_
    rcases given_or_implied distinct isField with isGiven | ⟨found, isFound, known, isDefault⟩
    · exact fit _ _ isGiven
    · exact ⟨found, known, fits found isFound _ isDefault⟩

/-- Where all defaults fit, what is wrong is wrong with what is given.

Proof: the validator fails on the completed struct either for a missing field, which was then
neither given nor has a default, or at a field that is there. That field was given or comes from a
default, and the defaults fit, so the fault is one of the given values. -/
theorem givenFault_of_newStruct {error : ValueError}
    (failed : schema.newStruct type given = .error error) :
    schema.GivenFault name declared given error := by
  simp only [newStruct_eq followed named, bind_eq_error, validate_struct followed named] at failed
  rcases failed with failed | ⟨_, -, built⟩
  · cases missing : missingRequired? declared.fields
        (fillDefaults declared.fields (Fields.ofList given)).contains with
    | some field =>
      simp only [missing, Except.error.injEq] at failed
      subst failed
      have isField := List.mem_of_find?_eq_some missing
      obtain ⟨required, absent⟩ : field.requiredness = .required ∧
          (fillDefaults declared.fields (Fields.ofList given)).contains field.id = false := by
        simpa using List.find?_some missing
      have neither : ¬((lastGiven given field.id).isSome ∨ field.default.isSome) := by
        rw [← contains_filled distinct isField required, absent]
        decide
      obtain ⟨notGiven, noDefault⟩ := not_or.mp neither
      exact .missing isField required (by simpa using notGiven) (by simpa using noDefault)
    | none =>
      simp only [missing] at failed
      obtain ⟨before, id, value, after, split, -, culprit⟩ := checkFields_eq_error failed
      have isField : (id, value) ∈ fillDefaults declared.fields (Fields.ofList given) := by
        rw [split]
        simp
      have origin := given_or_implied distinct isField
      rcases culprit with ⟨unknown, rfl⟩ | ⟨field, inner, known, valueFailed, rfl⟩
      · rcases origin with isGiven | ⟨field, -, known, -⟩
        · exact .undeclared isGiven unknown
        · simp [unknown] at known
      · rcases origin with isGiven | ⟨found, isFound, alsoKnown, isDefault⟩
        · exact .unfit isGiven known valueFailed
        · obtain rfl := Option.some.inj (known.symm.trans alsoKnown)
          rw [fits field isFound value isDefault] at valueFailed
          cases valueFailed
  · cases built

end FittingDefaults

end Construction

end Schema

/-- Structs are never refused because of a default. In a linked schema, for a type that stands for a
declared struct with defaults that nest at most 63 levels: a struct can be built of exactly those
fields that are declared, fit one level below and leave no required field without a value and a
default; the struct holds what was given last under each id and the default of each other field that
is not optional and has one; and otherwise the error is about a field that was given or about a
required field without default. A struct that is not declared cannot be built at all.

Proof: defaults of a linked schema fit the types of their fields, and those that nest no deeper than
a built struct is checked pass this check one level below it. So only what was given, or what is
missing, can be at fault. What a struct holds is read off the fields after the defaults were filled
in. -/
theorem defaults_complete_structs {documents : List Document} {schema : Schema}
    (linked : link documents = .ok schema) {type : DataType} {name : String}
    (followed : schema.canonical type = .ok (.struct name)) (given : List (Int16 × Value)) :
    (∀ declared, schema.structType name = .ok declared →
      (∀ field ∈ declared.fields, ∀ value ∈ field.default, value.nesting ≤ 63) →
        ((∃ value, schema.newStruct type given = .ok value) ↔
          schema.Completable declared given) ∧
        (∀ value, schema.newStruct type given = .ok value → ∃ fields, value = .struct fields ∧
          KeysAscend compare fields ∧ ∀ id, Fields.get? fields id =
            (Schema.lastGiven given id).or (impliedValue declared.fields id)) ∧
        ∀ error, schema.newStruct type given = .error error →
          schema.GivenFault name declared given error) ∧
    ∀ reason, schema.structType name = .error reason →
      schema.newStruct type given = .error (.ofLookup reason) := by
  have wellFormed := linked_of_link linked
  obtain ⟨scope, -, typed, settled, last, passes, rfl⟩ := Scope.link_eq_ok.mp linked
  refine ⟨fun declared named shallow => ?_, fun reason unknown => ?_⟩
  · have distinct := (wellFormed.struct named).distinct
    have isDeclared := Schema.mem_of_declaration? (Schema.structType_eq_ok.mp named)
    have fits : ∀ field ∈ declared.fields, ∀ value ∈ field.default,
        last.schema.checkValue Schema.defaultDepth value field.type 1 = .ok () := by
      intro field isField value isDefault
      have nests := shallow field isField value isDefault
      obtain ⟨fits, -⟩ := passes.lastTyped.fields _ isDeclared _ rfl field isField value isDefault
      exact fits.checkValue (by unfold Schema.defaultDepth; omega)
    refine ⟨Schema.exists_newStruct_iff followed named distinct fits, fun value built => ?_,
      fun error => Schema.givenFault_of_newStruct followed named distinct fits⟩
    rw [Schema.newStruct_eq followed named] at built
    obtain ⟨_, -, same⟩ := bind_eq_ok.mp built
    obtain rfl := Except.ok.inj same
    exact ⟨_, rfl, Schema.keysAscend_fillDefaults (Fields.keysAscend_ofList given),
      Schema.get?_filled distinct⟩
  · simp [Schema.newStruct, Schema.lookedUp, followed, unknown, Except.mapError, bind, Except.bind]

/-- The items of the store. -/
def storeItem : StructType where
  name := "a.Item"
  isException := false
  fields := [
    { id := 1, name := "label", type := .typedef labelName, requiredness := .required },
    { id := 2, name := "color", type := .enum "b.Color", requiredness := .unspecified,
      default := some (.enum 2 (some "BLUE")) },
    { id := 3, name := "parts", type := .list (.struct "a.Item"), requiredness := .unspecified }]

/-- An item of the store can be built of its label alone, and it takes its color by default; it
cannot be built of its color alone.

Proof: by applying the general theorem to both lists of given fields, once to build the struct and
read its color, and once to see that without a label none is built. -/
theorem items_are_completed :
    (∃ fields, storeSchema.newStruct (.struct "a.Item") [(1, .string "bolt")] =
        .ok (.struct fields) ∧ Fields.get? fields 2 = some (.enum 2 (some "BLUE"))) ∧
      ∃ error, storeSchema.newStruct (.struct "a.Item") [(2, .enum 1 none)] = .error error ∧
        storeSchema.GivenFault "a.Item" storeItem [(2, .enum 1 none)] error := by
  have followed : storeSchema.canonical (.struct "a.Item") = .ok (.struct "a.Item") := rfl
  have named : storeSchema.structType "a.Item" = .ok storeItem := rfl
  have shallow : ∀ field ∈ storeItem.fields, ∀ value ∈ field.default, value.nesting ≤ 63 := by
    simp [storeItem, Value.nesting]
  constructor
  · obtain ⟨exists_iff, held, -⟩ :=
      (defaults_complete_structs link_storeDocument followed [(1, .string "bolt")]).1 _ named
        shallow
    have completable : storeSchema.Completable storeItem [(1, .string "bolt")] := by
      refine ⟨fun id value isGiven => ?_, by simp [storeItem, Schema.lastGiven]⟩
      obtain ⟨rfl, rfl⟩ : 1 = id ∧ .string "bolt" = value := by
        simpa [Schema.lastGiven] using isGiven
      exact ⟨_, rfl, rfl⟩
    obtain ⟨_, built⟩ := exists_iff.mpr completable
    obtain ⟨fields, rfl, -, holds⟩ := held _ built
    exact ⟨fields, built, holds 2⟩
  · obtain ⟨exists_iff, -, wrong⟩ :=
      (defaults_complete_structs link_storeDocument followed [(2, .enum 1 none)]).1 _ named shallow
    cases built : storeSchema.newStruct (.struct "a.Item") [(2, .enum 1 none)] with
    | error error => exact ⟨error, rfl, wrong error built⟩
    | ok value =>
      have complete := (exists_iff.mp ⟨value, built⟩).complete _ List.mem_cons_self rfl
      simp [Schema.lastGiven] at complete

end SchemaCodec
