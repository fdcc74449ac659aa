import SchemaCodec.Proofs.FittingDepth
import SchemaCodec.Proofs.ValueParts

/-!
# Walks into values and types

A path leads from a value to a value inside it, and from a type to the type that is asked for at
that place. Both walks go step by step, each by itself: a value does not tell its type, and the type
behind a step is the same whatever the value. Where a value fits its type the two walks go together.
-/

namespace SchemaCodec

namespace Value

/-- The value to which one step leads. -/
def at? : Value → PathStep → Option Value
  | list items, .index position | set items, .index position => items[position]?
  | map entries, .key position => entries[position]?.map (·.1)
  | map entries, .value position => entries[position]?.map (·.2)
  | struct fields, .field id => Fields.get? fields id
  | union id held, .field wanted => if wanted = id then some held else none
  | _, _ => none

/-- The value at the end of a path, if every step of the path leads into the value before it. The
empty path leads to the value itself. -/
def walk (value : Value) (path : FieldPath) : Option Value := path.foldlM at? value

/-- A path goes one step and then on. -/
theorem walk_cons_eq_some {value part : Value} {step : PathStep} {rest : FieldPath} :
    value.walk (step :: rest) = some part ↔
      ∃ inside, value.at? step = some inside ∧ inside.walk rest = some part := by
  simp only [walk, List.foldlM_cons, Option.bind_eq_bind, Option.bind_eq_some_iff]

/-- A value of a field that is set is the value of some field. -/
theorem mem_of_get? {fields : Fields} {id : Int16} {held : Value}
    (found : fields.get? id = some held) : (id, held) ∈ fields := by
  obtain ⟨⟨other, _⟩, isFound, rfl⟩ := Option.map_eq_some_iff.mp found
  obtain rfl : other = id := by simpa using List.find?_some isFound
  exact List.mem_of_find?_eq_some isFound

/-- Where ids are distinct, each field is found under its id. -/
theorem get?_eq_some_iff {fields : Fields} (distinct : (fields.map (·.1)).Nodup) {id : Int16}
    {held : Value} : fields.get? id = some held ↔ (id, held) ∈ fields := by
  refine ⟨mem_of_get?, fun member => ?_⟩
  have found : fields.find? (·.1 = id) = some (id, held) :=
    (find?_key_eq_some distinct).mpr ⟨member, rfl⟩
  rw [Fields.get?, found]
  rfl

/-- What holds throughout a value holds throughout the value behind a step. -/
theorem Throughout.at? {condition : Value → Prop} {value part : Value} {step : PathStep}
    (holds : value.Throughout condition) (reached : value.at? step = some part) :
    part.Throughout condition := by
  unfold Value.at? at reached
  split at reached
  · exact (throughout_list.mp holds).2 part (List.mem_of_getElem? reached)
  · exact (throughout_set.mp holds).2 part (List.mem_of_getElem? reached)
  · obtain ⟨entry, isEntry, rfl⟩ := Option.map_eq_some_iff.mp reached
    exact ((throughout_map.mp holds).2 entry (List.mem_of_getElem? isEntry)).1
  · obtain ⟨entry, isEntry, rfl⟩ := Option.map_eq_some_iff.mp reached
    exact ((throughout_map.mp holds).2 entry (List.mem_of_getElem? isEntry)).2
  · exact (throughout_struct.mp holds).2 _ (mem_of_get? reached)
  · obtain ⟨-, same⟩ := Option.ite_none_right_eq_some.mp reached
    obtain rfl := Option.some.inj same
    exact (throughout_union.mp holds).2
  · simp at reached

end Value

namespace Schema

variable {schema : Schema} {limit depth : Nat}

/-- The type that is asked for one step inside a type that is no typedef. -/
def partType? (schema : Schema) : DataType → PathStep → Option DataType
  | .list element, .index _ | .set element, .index _ => some element
  | .map keyType _, .key _ => some keyType
  | .map _ valueType, .value _ => some valueType
  | .struct name, .field id => do
    let declared ← (schema.structType name).toOption
    let field ← fieldById? declared.fields id
    some field.type
  | .union name, .field id => do
    let declared ← (schema.unionType name).toOption
    let field ← fieldById? declared.fields id
    some field.type
  | _, _ => none

/-- The type that is asked for one step inside a type. -/
def typeAt? (schema : Schema) (type : DataType) (step : PathStep) : Option DataType := do
  let behind ← (schema.canonical type).toOption
  schema.partType? behind step

/-- The type that is asked for at the end of a path, if every step of the path belongs to the type
before it. Typedefs are followed before each step. -/
def typeWalk (schema : Schema) (type : DataType) (path : FieldPath) : Option DataType :=
  path.foldlM schema.typeAt? type

/-- A lookup that is told as an option is found where it succeeds. -/
theorem toOption_eq_some {outcome : Except ε α} {result : α} :
    outcome.toOption = some result ↔ outcome = .ok result := by
  cases outcome <;> simp [Except.toOption]

/-- The fields of a struct have the types that are declared under their ids. -/
theorem partType?_struct {name : String} {id : Int16} {inner : DataType} :
    schema.partType? (.struct name) (.field id) = some inner ↔
      ∃ declared field, schema.structType name = .ok declared ∧
        fieldById? declared.fields id = some field ∧ field.type = inner := by
  simp only [partType?, Option.bind_eq_bind, Option.bind_eq_some_iff, toOption_eq_some,
    Option.some.injEq, exists_and_left]

/-- The one field of a union has the type that is declared under its id. -/
theorem partType?_union {name : String} {id : Int16} {inner : DataType} :
    schema.partType? (.union name) (.field id) = some inner ↔
      ∃ declared field, schema.unionType name = .ok declared ∧
        fieldById? declared.fields id = some field ∧ field.type = inner := by
  simp only [partType?, Option.bind_eq_bind, Option.bind_eq_some_iff, toOption_eq_some,
    Option.some.injEq, exists_and_left]

/-- A step inside a type is one inside the type behind all typedefs. -/
theorem typeAt?_eq_some {type inner : DataType} {step : PathStep} :
    schema.typeAt? type step = some inner ↔
      ∃ behind, schema.canonical type = .ok behind ∧
        schema.partType? behind step = some inner := by
  simp only [typeAt?, Option.bind_eq_bind, Option.bind_eq_some_iff, toOption_eq_some]

/-- A path goes one step and then on. -/
theorem typeWalk_cons_eq_some {type inner : DataType} {step : PathStep} {rest : FieldPath} :
    schema.typeWalk type (step :: rest) = some inner ↔
      ∃ inside, schema.typeAt? type step = some inside ∧
        schema.typeWalk inside rest = some inner := by
  simp only [typeWalk, List.foldlM_cons, Option.bind_eq_bind, Option.bind_eq_some_iff]

/-- A path goes one step inside the type behind all typedefs and then on. -/
theorem typeWalk_cons {type behind between inner : DataType} {step : PathStep} {rest : FieldPath}
    (followed : schema.canonical type = .ok behind)
    (inside : schema.partType? behind step = some between)
    (isInner : schema.typeWalk between rest = some inner) :
    schema.typeWalk type (step :: rest) = some inner :=
  typeWalk_cons_eq_some.mpr ⟨between, typeAt?_eq_some.mpr ⟨behind, followed, inside⟩, isInner⟩

/-- Where a value fits, a step inside the value is one inside the type, and the part fits there.

Proof: by the kinds of containers that a step may enter. In each of them what fits is told of every
part, and the step enters one of these. -/
theorem FitsLayer.at? {below : Value → DataType → Prop} {value part : Value} {behind : DataType}
    {step : PathStep} (fits : FitsLayer schema below value behind)
    (reached : value.at? step = some part) :
    ∃ inner, schema.partType? behind step = some inner ∧ below part inner := by
  unfold Value.at? at reached
  split at reached
  · obtain ⟨element, rfl, each⟩ := fits
    exact ⟨element, rfl, each part (List.mem_of_getElem? reached)⟩
  · obtain ⟨element, rfl, each⟩ := fits
    exact ⟨element, rfl, each part (List.mem_of_getElem? reached)⟩
  · obtain ⟨keyType, valueType, rfl, each⟩ := fits
    obtain ⟨entry, isEntry, rfl⟩ := Option.map_eq_some_iff.mp reached
    exact ⟨keyType, rfl, (each entry (List.mem_of_getElem? isEntry)).1⟩
  · obtain ⟨keyType, valueType, rfl, each⟩ := fits
    obtain ⟨entry, isEntry, rfl⟩ := Option.map_eq_some_iff.mp reached
    exact ⟨valueType, rfl, (each entry (List.mem_of_getElem? isEntry)).2⟩
  · obtain ⟨name, declared, rfl, named, -, each⟩ := fits
    obtain ⟨field, known, here⟩ := each _ (Value.mem_of_get? reached)
    exact ⟨field.type, partType?_struct.mpr ⟨declared, field, named, known, rfl⟩, here⟩
  · obtain ⟨name, declared, field, rfl, named, known, here⟩ := fits
    obtain ⟨rfl, same⟩ := Option.ite_none_right_eq_some.mp reached
    obtain rfl := Option.some.inj same
    exact ⟨field.type, partType?_union.mpr ⟨declared, field, named, known, rfl⟩, here⟩
  · simp at reached

/-- What lies one step inside an accepted value has a type and is accepted one level deeper. -/
theorem checkValue_at? {value part : Value} {type : DataType} {step : PathStep}
    (checked : schema.checkValue limit value type depth = .ok ())
    (reached : value.at? step = some part) :
    ∃ inner, schema.typeAt? type step = some inner ∧
      schema.checkValue limit part inner (depth + 1) = .ok () := by
  obtain ⟨-, behind, followed, layer⟩ := checkValue_eq_ok.mp checked
  obtain ⟨inner, isInner, partChecked⟩ := layer.at? reached
  exact ⟨inner, typeAt?_eq_some.mpr ⟨behind, followed, isInner⟩, partChecked⟩

/-- Whatever lies inside an accepted value has a type and is accepted at its own depth. -/
theorem checkValue_walk {path : FieldPath} {value part : Value} {type : DataType}
    (checked : schema.checkValue limit value type depth = .ok ())
    (reached : value.walk path = some part) :
    ∃ inner, schema.typeWalk type path = some inner ∧
      schema.checkValue limit part inner (depth + path.length) = .ok () := by
  induction path generalizing value type depth with
  | nil =>
    obtain rfl := Option.some.inj reached
    exact ⟨type, rfl, checked⟩
  | cons step rest inductionHypothesis =>
    obtain ⟨inside, first, behind⟩ := Value.walk_cons_eq_some.mp reached
    obtain ⟨between, isBetween, insideChecked⟩ := checkValue_at? checked first
    obtain ⟨inner, isInner, partChecked⟩ := inductionHypothesis insideChecked behind
    refine ⟨inner, typeWalk_cons_eq_some.mpr ⟨between, isBetween, isInner⟩, ?_⟩
    rwa [List.length_cons, Nat.add_comm rest.length, ← Nat.add_assoc]

/-- Whatever lies inside a value that fits has a type and fits it. -/
theorem Fits.walk {path : FieldPath} {value part : Value} {type : DataType}
    (fits : schema.Fits value type) (reached : value.walk path = some part) :
    ∃ inner, schema.typeWalk type path = some inner ∧ schema.Fits part inner := by
  obtain ⟨limit, depth, checked⟩ := fits
  obtain ⟨inner, isInner, partChecked⟩ := checkValue_walk checked reached
  exact ⟨inner, isInner, _, _, partChecked⟩

end Schema

end SchemaCodec
