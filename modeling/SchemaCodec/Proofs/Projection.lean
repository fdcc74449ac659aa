import SchemaCodec.Proofs.Ascending
import SchemaCodec.Proofs.Fitting
import SchemaCodec.Proofs.ValueParts

/-!
# Values seen through another schema

A reader that knows fewer fields than the writer sees a value without the fields that it does not
declare, at every depth. Sets and maps are built anew from what is left of their elements and
entries, in their order: two of them may have become equal.

Main statement: through the schema that it fits, an ordered value is seen as it is.
-/

namespace SchemaCodec.Schema

mutual

/-- What is left of a value of a type for a schema that may not declare all of its fields. -/
def project (schema : Schema) : Value → DataType → Value
  | .list items, type =>
    match schema.canonical type with
    | .ok (.list element) => .list (schema.projectElements items element)
    | _ => .list items
  | .set elements, type =>
    match schema.canonical type with
    | .ok (.set element) => .set (Value.elementsOf (schema.projectElements elements element))
    | _ => .set elements
  | .map entries, type =>
    match schema.canonical type with
    | .ok (.map keyType valueType) =>
      .map (Value.entriesOf (schema.projectEntries entries keyType valueType))
    | _ => .map entries
  | .struct fields, type =>
    match schema.canonical type with
    | .ok (.struct name) =>
      match schema.structType name with
      | .ok declared => .struct (schema.projectFields fields declared.fields)
      | .error _ => .struct fields
    | _ => .struct fields
  | .union id held, type =>
    match schema.canonical type with
    | .ok (.union name) =>
      match schema.unionType name with
      | .ok declared =>
        match fieldById? declared.fields id with
        | some found => .union id (schema.project held found.type)
        | none => .union id held
      | .error _ => .union id held
    | _ => .union id held
  | value, _ => value
termination_by structural value => value

/-- What is left of the elements of one type. -/
def projectElements (schema : Schema) : List Value → DataType → List Value
  | [], _ => []
  | value :: rest, type => schema.project value type :: schema.projectElements rest type
termination_by structural values => values

/-- What is left of entries of one key type and one value type. -/
def projectEntries (schema : Schema) :
    List (Value × Value) → DataType → DataType → List (Value × Value)
  | [], _, _ => []
  | (key, value) :: rest, keyType, valueType =>
    (schema.project key keyType, schema.project value valueType) ::
      schema.projectEntries rest keyType valueType
termination_by structural entries => entries

/-- What is left of fields: only declared ones stay, in the order in which they were, and each value
is projected to the type that its field has for the reader. -/
def projectFields (schema : Schema) :
    List (Int16 × Value) → List Field → List (Int16 × Value)
  | [], _ => []
  | (id, value) :: rest, declared =>
    match fieldById? declared id with
    | none => schema.projectFields rest declared
    | some found => (id, schema.project value found.type) :: schema.projectFields rest declared
termination_by structural fields => fields

end

variable {schema : Schema}

/-- What is left of elements is what is left of each of them. -/
theorem projectElements_eq (items : List Value) (type : DataType) :
    schema.projectElements items type = items.map (schema.project · type) := by
  induction items with
  | nil => rfl
  | cons item rest inductionHypothesis =>
    rw [projectElements, inductionHypothesis, List.map_cons]

/-- What is left of entries is what is left of each key and each value. -/
theorem projectEntries_eq (entries : List (Value × Value)) (keyType valueType : DataType) :
    schema.projectEntries entries keyType valueType = entries.map fun entry =>
      (schema.project entry.1 keyType, schema.project entry.2 valueType) := by
  induction entries with
  | nil => rfl
  | cons entry rest inductionHypothesis =>
    rw [projectEntries, inductionHypothesis, List.map_cons]

/-- What is left of one field. -/
def projectField (schema : Schema) (declared : List Field) (field : Int16 × Value) :
    Option (Int16 × Value) :=
  (fieldById? declared field.1).map fun found => (field.1, schema.project field.2 found.type)

/-- What is left of fields is what is left of each of them. -/
theorem projectFields_eq (fields : List (Int16 × Value)) (declared : List Field) :
    schema.projectFields fields declared = fields.filterMap (schema.projectField declared) := by
  induction fields with
  | nil => rfl
  | cons field rest inductionHypothesis =>
    cases known : fieldById? declared field.1 <;>
      simp [projectFields, projectField, known, inductionHypothesis]

/-- The fields that are left ascend like the fields that were there. -/
theorem keysAscend_projectField {fields : List (Int16 × Value)} (declared : List Field)
    (ascending : Value.KeysAscend compare fields) :
    Value.KeysAscend compare (fields.filterMap (schema.projectField declared)) := by
  refine List.Pairwise.filterMap _ ?_ ascending
  intro first second before left leftKept right rightKept
  simp only [projectField, Option.map_eq_some_iff] at leftKept rightKept
  obtain ⟨_, _, rfl⟩ := leftKept
  obtain ⟨_, _, rfl⟩ := rightKept
  exact before

section Kinds

variable {type : DataType}

/-- What is left of a list. -/
theorem project_list {element : DataType} (followed : schema.canonical type = .ok (.list element))
    (items : List Value) :
    schema.project (.list items) type = .list (items.map (schema.project · element)) := by
  rw [project, followed, ← projectElements_eq]

/-- What is left of a set. -/
theorem project_set {element : DataType} (followed : schema.canonical type = .ok (.set element))
    (elements : List Value) : schema.project (.set elements) type =
      .set (Value.elementsOf (elements.map (schema.project · element))) := by
  rw [project, followed, ← projectElements_eq]

/-- What is left of a map. -/
theorem project_map {keyType valueType : DataType}
    (followed : schema.canonical type = .ok (.map keyType valueType))
    (entries : List (Value × Value)) : schema.project (.map entries) type =
      .map (Value.entriesOf (entries.map fun entry =>
        (schema.project entry.1 keyType, schema.project entry.2 valueType))) := by
  rw [project, followed, ← projectEntries_eq]

/-- What is left of a struct. -/
theorem project_struct {name : String} {declared : StructType}
    (followed : schema.canonical type = .ok (.struct name))
    (named : schema.structType name = .ok declared) (fields : List (Int16 × Value)) :
    schema.project (.struct fields) type =
      .struct (fields.filterMap (schema.projectField declared.fields)) := by
  rw [project, followed, ← projectFields_eq]
  simp only [named]

/-- What is left of a union. -/
theorem project_union {name : String} {declared : UnionType} {id : Int16} {found : Field}
    (followed : schema.canonical type = .ok (.union name))
    (named : schema.unionType name = .ok declared)
    (known : fieldById? declared.fields id = some found) (held : Value) :
    schema.project (.union id held) type = .union id (schema.project held found.type) := by
  rw [project, followed]
  simp only [named, known]

end Kinds

/-- Seen through the schema that it fits, an ordered value is the same. Each part is the same by
induction, and an ascending container is rebuilt as it is. -/
theorem project_of_fits {limit depth : Nat} {value : Value} {type : DataType}
    (fits : schema.checkValue limit value type depth = .ok ()) (ordered : value.Ordered) :
    schema.project value type = value := by
  induction value using Value.induction generalizing type depth with
  | bool | byte | i16 | i32 | i64 | double | string | binary | enum => rfl
  | list items inductionHypothesis =>
    obtain ⟨-, _, followed, element, rfl, each⟩ := checkValue_eq_ok.mp fits
    obtain ⟨-, parts⟩ := Value.throughout_list.mp ordered
    have same : items.map (schema.project · element) = items.map id := by
      refine List.map_congr_left fun item member => ?_
      exact inductionHypothesis item member (each item member) (parts item member)
    rw [project_list followed, same, List.map_id]
  | set elements inductionHypothesis =>
    obtain ⟨-, _, followed, element, rfl, each⟩ := checkValue_eq_ok.mp fits
    obtain ⟨ascending, parts⟩ := Value.throughout_set.mp ordered
    have same : elements.map (schema.project · element) = elements.map id := by
      refine List.map_congr_left fun item member => ?_
      exact inductionHypothesis item member (each item member) (parts item member)
    rw [project_set followed, same, List.map_id, Value.elementsOf_of_ascending ascending]
  | map entries inductionHypothesis =>
    obtain ⟨-, _, followed, keyType, valueType, rfl, each⟩ := checkValue_eq_ok.mp fits
    obtain ⟨ascending, parts⟩ := Value.throughout_map.mp ordered
    have same : entries.map (fun entry => (schema.project entry.1 keyType,
        schema.project entry.2 valueType)) = entries.map id := by
      refine List.map_congr_left fun entry member => ?_
      obtain ⟨keySame, valueSame⟩ := inductionHypothesis entry member
      obtain ⟨keyFits, valueFits⟩ := each entry member
      obtain ⟨keyOrdered, valueOrdered⟩ := parts entry member
      exact Prod.ext (keySame keyFits keyOrdered) (valueSame valueFits valueOrdered)
    rw [project_map followed, same, List.map_id, Value.entriesOf_of_ascending ascending]
  | struct fields inductionHypothesis =>
    obtain ⟨-, _, followed, name, declared, rfl, named, -, each⟩ := checkValue_eq_ok.mp fits
    obtain ⟨-, parts⟩ := Value.throughout_struct.mp ordered
    have same : fields.filterMap (schema.projectField declared.fields) =
        fields.filterMap some := by
      refine List.filterMap_congr fun field member => ?_
      obtain ⟨found, known, fieldFits⟩ := each field member
      have sameValue := inductionHypothesis field member fieldFits (parts field member)
      simp only [projectField, known, Option.map_some, sameValue]
    rw [project_struct followed named, same, List.filterMap_some]
  | union id held inductionHypothesis =>
    obtain ⟨-, _, followed, name, declared, found, rfl, named, known, heldFits⟩ :=
      checkValue_eq_ok.mp fits
    obtain ⟨-, part⟩ := Value.throughout_union.mp ordered
    rw [project_union followed named known, inductionHypothesis heldFits part]

end SchemaCodec.Schema
