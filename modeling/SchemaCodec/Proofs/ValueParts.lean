import SchemaCodec.Proofs.Ascending
import SchemaCodec.Wire.Limits

/-!
# Properties of a value and of every value inside it

A value is ordered when its sets, maps and structs ascend at every depth; no operation on values
builds any other. A value is within limits when no string, binary or container in it, at whatever
depth, is longer than a reader accepts. Both are a shallow condition on all parts, so both open at a
container in one way.
-/

namespace SchemaCodec.Value

mutual

/-- A value and all values inside it, outermost first. -/
def parts : Value → List Value
  | list items => list items :: partsOfItems items
  | set elements => set elements :: partsOfItems elements
  | map entries => map entries :: partsOfEntries entries
  | struct fields => struct fields :: partsOfFields fields
  | union id held => union id held :: held.parts
  | value => [value]
termination_by structural value => value

/-- The parts of items or elements. -/
def partsOfItems : List Value → List Value
  | [] => []
  | item :: rest => item.parts ++ partsOfItems rest
termination_by structural items => items

/-- The parts of keys and of the values under them. -/
def partsOfEntries : List (Value × Value) → List Value
  | [] => []
  | (key, held) :: rest => key.parts ++ held.parts ++ partsOfEntries rest
termination_by structural entries => entries

/-- The parts of fields. -/
def partsOfFields : List (Int16 × Value) → List Value
  | [] => []
  | (_, held) :: rest => held.parts ++ partsOfFields rest
termination_by structural fields => fields

end

/-- A condition holds of a value and of every value inside it. -/
def Throughout (condition : Value → Prop) (value : Value) : Prop :=
  ∀ part ∈ value.parts, condition part

/-- Whether a condition holds throughout a value can be computed, if it can be for single values. -/
instance (condition : Value → Prop) [DecidablePred condition] (value : Value) :
    Decidable (value.Throughout condition) :=
  inferInstanceAs (Decidable (∀ part ∈ value.parts, condition part))

/-- What holds throughout a value holds of the value. -/
theorem Throughout.here {condition : Value → Prop} {value : Value}
    (holds : value.Throughout condition) : condition value :=
  holds value (by cases value <;> simp [parts])

/-- The parts of items are those of each item. -/
theorem forall_mem_partsOfItems {condition : Value → Prop} {items : List Value} :
    (∀ part ∈ partsOfItems items, condition part) ↔
      ∀ item ∈ items, item.Throughout condition := by
  induction items with
  | nil => simp [partsOfItems]
  | cons item rest inductionHypothesis =>
    simp only [partsOfItems, List.mem_append, or_imp, forall_and, inductionHypothesis,
      List.forall_mem_cons, Throughout]

/-- The parts of entries are those of each key and of each value. -/
theorem forall_mem_partsOfEntries {condition : Value → Prop} {entries : List (Value × Value)} :
    (∀ part ∈ partsOfEntries entries, condition part) ↔
      ∀ entry ∈ entries, entry.1.Throughout condition ∧ entry.2.Throughout condition := by
  induction entries with
  | nil => simp [partsOfEntries]
  | cons entry rest inductionHypothesis =>
    simp only [partsOfEntries, List.mem_append, or_imp, forall_and, inductionHypothesis,
      List.forall_mem_cons, Throughout]
    tauto

/-- The parts of fields are those of each value. -/
theorem forall_mem_partsOfFields {condition : Value → Prop} {fields : List (Int16 × Value)} :
    (∀ part ∈ partsOfFields fields, condition part) ↔
      ∀ field ∈ fields, field.2.Throughout condition := by
  induction fields with
  | nil => simp [partsOfFields]
  | cons field rest inductionHypothesis =>
    simp only [partsOfFields, List.mem_append, or_imp, forall_and, inductionHypothesis,
      List.forall_mem_cons, Throughout]

section Containers

variable {condition : Value → Prop}

/-- A condition throughout a list: at the list and throughout its items. -/
@[simp] theorem throughout_list {items : List Value} : (list items).Throughout condition ↔
    condition (list items) ∧ ∀ item ∈ items, item.Throughout condition := by
  rw [Throughout, parts, List.forall_mem_cons, forall_mem_partsOfItems]

/-- A condition throughout a set: at the set and throughout its elements. -/
@[simp] theorem throughout_set {elements : List Value} : (set elements).Throughout condition ↔
    condition (set elements) ∧ ∀ element ∈ elements, element.Throughout condition := by
  rw [Throughout, parts, List.forall_mem_cons, forall_mem_partsOfItems]

/-- A condition throughout a map: at the map and throughout its keys and values. -/
@[simp] theorem throughout_map {entries : List (Value × Value)} :
    (map entries).Throughout condition ↔ condition (map entries) ∧
      ∀ entry ∈ entries, entry.1.Throughout condition ∧ entry.2.Throughout condition := by
  rw [Throughout, parts, List.forall_mem_cons, forall_mem_partsOfEntries]

/-- A condition throughout a struct: at the struct and throughout the values of its fields. -/
@[simp] theorem throughout_struct {fields : List (Int16 × Value)} :
    (struct fields).Throughout condition ↔
      condition (struct fields) ∧ ∀ field ∈ fields, field.2.Throughout condition := by
  rw [Throughout, parts, List.forall_mem_cons, forall_mem_partsOfFields]

/-- A condition throughout a union: at the union and throughout the value it holds. -/
@[simp] theorem throughout_union {id : Int16} {held : Value} :
    (union id held).Throughout condition ↔
      condition (union id held) ∧ held.Throughout condition := by
  rw [Throughout, parts, List.forall_mem_cons, Throughout]

end Containers

/-- The elements, keys or ids of a value strictly ascend. -/
def Ascends : Value → Prop
  | set elements => ElementsAscend elements
  | map entries => KeysAscend order entries
  | struct fields => KeysAscend compare fields
  | _ => True

/-- Whether a value ascends can be computed. -/
instance : DecidablePred Ascends
  | set elements =>
    inferInstanceAs (Decidable (elements.Pairwise fun first second => order first second = .lt))
  | map entries =>
    inferInstanceAs (Decidable (entries.Pairwise fun first second =>
      order first.1 second.1 = .lt))
  | struct fields =>
    inferInstanceAs (Decidable (fields.Pairwise fun first second =>
      compare first.1 second.1 = .lt))
  | bool _ | byte _ | i16 _ | i32 _ | i64 _ | double _ | string _ | binary _ | list _ | union _ _
  | enum _ _ => .isTrue trivial

/-- Sets, maps and structs ascend at every depth, as insertion leaves them. -/
def Ordered : Value → Prop := Throughout Ascends

/-- Whether a value ascends at every depth can be computed. -/
instance : DecidablePred Ordered := fun value =>
  inferInstanceAs (Decidable (value.Throughout Ascends))

/-- The length of a string or binary, or the count of a container, is accepted by a reader. -/
def LengthWithin (limits : Limits) : Value → Prop
  | string text => (Utf8.encode text).length ≤ limits.stringLength
  | binary bytes => bytes.length ≤ limits.stringLength
  | list items => items.length ≤ limits.containerLength
  | set elements => elements.length ≤ limits.containerLength
  | map entries => entries.length ≤ limits.containerLength
  | _ => True

/-- Whether a length or count is accepted can be computed. -/
instance (limits : Limits) : DecidablePred (LengthWithin limits)
  | string text => inferInstanceAs (Decidable ((Utf8.encode text).length ≤ limits.stringLength))
  | binary bytes => inferInstanceAs (Decidable (bytes.length ≤ limits.stringLength))
  | list items => inferInstanceAs (Decidable (items.length ≤ limits.containerLength))
  | set elements => inferInstanceAs (Decidable (elements.length ≤ limits.containerLength))
  | map entries => inferInstanceAs (Decidable (entries.length ≤ limits.containerLength))
  | bool _ | byte _ | i16 _ | i32 _ | i64 _ | double _ | struct _ | union _ _ | enum _ _ =>
    .isTrue trivial

/-- Every length and count in a value, at whatever depth, is accepted by a reader. -/
def Within (limits : Limits) : Value → Prop := Throughout (LengthWithin limits)

/-- Whether all lengths and counts in a value are accepted can be computed. -/
instance (limits : Limits) : DecidablePred (Within limits) := fun value =>
  inferInstanceAs (Decidable (value.Throughout (LengthWithin limits)))

end SchemaCodec.Value
