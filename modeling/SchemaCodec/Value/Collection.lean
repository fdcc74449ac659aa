import SchemaCodec.Value.Order

/-!
# Ascending sets, maps and fields

A set element that is already present is dropped. A map key that is already present keeps its place
and its own form, and takes the new value. A field that is already set takes the new value. Each
operation keeps its list ascending and free of duplicates.

A set or map that is collected from a whole batch is sorted first, and of members that compare equal
the last one stays. `Proofs.Batches` shows that this gives an equal set or map.
-/

namespace SchemaCodec.Value

/-- Put an element in its place unless an equal one is present. -/
def insertElement (element : Value) : List Value → List Value
  | [] => [element]
  | head :: rest =>
    match order element head with
    | .lt => element :: head :: rest
    | .eq => head :: rest
    | .gt => head :: insertElement element rest

/-- The ascending list of distinct elements, inserted one after another. -/
def elementsOf (elements : List Value) : List Value :=
  elements.foldl (fun held element => insertElement element held) []

/-- A list in ascending order; what compares equal keeps the order in which it was given. -/
def arrange {α : Type} (comparison : α → α → Ordering) (given : List α) : List α :=
  given.mergeSort fun first second => (comparison first second).isLE

/-- Of each run of members that compare equal, the last one. -/
def lastOfRuns {α : Type} (comparison : α → α → Ordering) : List α → List α
  | [] => []
  | [only] => [only]
  | first :: second :: rest =>
    if (comparison first second).isEq then lastOfRuns comparison (second :: rest)
    else first :: lastOfRuns comparison (second :: rest)

/-- Values in ascending order; equal ones keep the order in which they were given. -/
def sort (values : List Value) : List Value := arrange order values

/-- The ascending list of distinct elements of a batch. Of equal elements the last one stays, unlike
when they are inserted one after another. -/
def elementsOfBatch (elements : List Value) : List Value := lastOfRuns order (sort elements)

/-- Put a value under its key. An equal key stays as it is and only its value changes. -/
def insertEntry (key value : Value) : List (Value × Value) → List (Value × Value)
  | [] => [(key, value)]
  | (head, held) :: rest =>
    match order key head with
    | .lt => (key, value) :: (head, held) :: rest
    | .eq => (head, value) :: rest
    | .gt => (head, held) :: insertEntry key value rest

/-- The ascending list of entries, inserted one after another. -/
def entriesOf (entries : List (Value × Value)) : List (Value × Value) :=
  entries.foldl (fun held (key, value) => insertEntry key value held) []

/-- Entries in the order of their keys. -/
def orderKeys (first second : Value × Value) : Ordering := order first.1 second.1

/-- The ascending list of entries of a batch. Of entries with equal keys the last one stays as it
is. -/
def entriesOfBatch (entries : List (Value × Value)) : List (Value × Value) :=
  lastOfRuns orderKeys (arrange orderKeys entries)

/-- The values of a struct's fields by id, ascending. -/
abbrev Fields := List (Int16 × Value)

namespace Fields

/-- Set a field, whether or not it is set already. -/
def insert (id : Int16) (value : Value) : Fields → Fields
  | [] => [(id, value)]
  | (head, held) :: rest =>
    match compare id head with
    | .lt => (id, value) :: (head, held) :: rest
    | .eq => (id, value) :: rest
    | .gt => (head, held) :: insert id value rest

/-- The value of a field, if it is set. -/
def get? (fields : Fields) (id : Int16) : Option Value :=
  (fields.find? (·.1 = id)).map (·.2)

/-- Whether a field is set. -/
def contains (fields : Fields) (id : Int16) : Bool := fields.any (·.1 = id)

/-- Unset a field. -/
def erase (fields : Fields) (id : Int16) : Fields := fields.filter (·.1 ≠ id)

/-- The ascending list of fields, set one after another: the last value of an id stays. -/
def ofList (fields : List (Int16 × Value)) : Fields :=
  fields.foldl (fun held (id, value) => held.insert id value) []

end Fields

end SchemaCodec.Value
