import SchemaCodec.Schema.Validation
import SchemaCodec.Wire.Decoding
import SchemaCodec.Wire.Sink

/-!
# Writing typed values

A value is checked as a whole before any of it is written, so a value that does not fit its type
leaves no bytes behind. Sets and maps are written in their ascending order and structs in the order
in which their fields are declared.
-/

namespace SchemaCodec

/-- Why writing fails. A value may not match its type, a length may be too great for a prefix, or
the sink may take no more. -/
inductive EncodeError where
  | valueMismatch (error : ValueError)
  /-- A length that no length prefix can hold. -/
  | lengthOverflow (length : Nat)
  /-- The sink took no more, with a text of its own. -/
  | sink (reason : String)
deriving DecidableEq, Repr

/-- The text of an error. -/
def EncodeError.message : EncodeError → String
  | valueMismatch error => "value does not match its type: " ++ error.message
  | lengthOverflow length => "length " ++ toString length ++ " does not fit in an i32 length prefix"
  | sink reason => "IO: " ++ reason

/-- A length prefix: a signed number of 32 bits, so a length has 31 bits at most. -/
def encodeLength (length : Nat) : Except EncodeError Bytes :=
  if length < 0x80000000 then .ok (BigEndian.encode 4 length) else .error (.lengthOverflow length)

/-- Bytes behind their length. -/
def encodeLengthPrefixed (bytes : Bytes) : Except EncodeError Bytes := do
  let length ← encodeLength bytes.length
  .ok (length ++ bytes)

namespace Schema

/-- A failed lookup while writing. -/
def writing (outcome : Except LookupError α) : Except EncodeError α :=
  outcome.mapError fun error => .valueMismatch (ValueError.ofLookup error)

/-- The code of the tag of a type's values. -/
def tagCode (schema : Schema) (type : DataType) : Except EncodeError UInt8 :=
  match schema.wireTag type with
  | .ok tag => .ok tag.code
  | .error reason => .error (.valueMismatch ⟨.unknownType reason, []⟩)

/-- The bytes of a struct's fields in the order of their declarations, or the first failure in that
order; what was found for a field stands under its id. -/
def inDeclaredOrder (declared : List Field) (encoded : List (Int16 × Except EncodeError Bytes)) :
    Except EncodeError (List Bytes) :=
  (declared.filterMap fun field => (encoded.find? (·.1 = field.id)).map (·.2)).mapM id

/-- A value of one kind where a type asks for another. -/
def mismatch (expected : DataType) (found : String) : EncodeError :=
  .valueMismatch (.mismatch expected found)

/-- The bytes of a value without parts, where a type asks for its kind. -/
def encodePrimitive (schema : Schema) (kind type : DataType) (encoded : Except EncodeError Bytes) :
    Except EncodeError Bytes := do
  let expected ← writing (schema.canonical type)
  if expected = kind then encoded else .error (mismatch expected kind.display)

mutual

/-- The bytes of a value for a type. It is meant for values that were checked against the type, but
it does not rely on this: where the kinds differ or a name is unknown it fails as well. Only a
length that no prefix can hold is a failure of its own. Labels of enums are not written. -/
def encodeValue (schema : Schema) : Value → DataType → Except EncodeError Bytes
  | .bool held, type => schema.encodePrimitive .bool type (.ok [if held then 1 else 0])
  | .byte number, type => schema.encodePrimitive .byte type (.ok (encodeInt8 number))
  | .i16 number, type => schema.encodePrimitive .i16 type (.ok (encodeInt16 number))
  | .i32 number, type => schema.encodePrimitive .i32 type (.ok (encodeInt32 number))
  | .i64 number, type => schema.encodePrimitive .i64 type (.ok (encodeInt64 number))
  | .double number, type => schema.encodePrimitive .double type (.ok number.encode)
  | .string text, type =>
    schema.encodePrimitive .string type (encodeLengthPrefixed (Utf8.encode text))
  | .binary bytes, type => schema.encodePrimitive .binary type (encodeLengthPrefixed bytes)
  | .list items, type => do
    match ← writing (schema.canonical type) with
    | .list element =>
      let code ← schema.tagCode element
      let length ← encodeLength items.length
      let body ← schema.encodeElements items element
      .ok (code :: length ++ body)
    | other => .error (mismatch other "list")
  | .set elements, type => do
    match ← writing (schema.canonical type) with
    | .set element =>
      let code ← schema.tagCode element
      let length ← encodeLength elements.length
      let body ← schema.encodeElements elements element
      .ok (code :: length ++ body)
    | other => .error (mismatch other "set")
  | .map entries, type => do
    match ← writing (schema.canonical type) with
    | .map keyType valueType =>
      let keyCode ← schema.tagCode keyType
      let valueCode ← schema.tagCode valueType
      let length ← encodeLength entries.length
      let body ← schema.encodeEntries entries keyType valueType
      .ok (keyCode :: valueCode :: length ++ body)
    | other => .error (mismatch other "map")
  | .struct fields, type => do
    match ← writing (schema.canonical type) with
    | .struct name =>
      let declared ← writing (schema.structType name)
      let encoded ← inDeclaredOrder declared.fields (schema.encodeFields fields declared.fields)
      .ok (encoded.flatten ++ [WireTag.stop.code])
    | other => .error (mismatch other "struct")
  | .union id held, type => do
    match ← writing (schema.canonical type) with
    | .union name =>
      let declared ← writing (schema.unionType name)
      match fieldById? declared.fields id with
      | none => .error (.valueMismatch ⟨.undeclaredField name id, []⟩)
      | some field =>
        let code ← schema.tagCode field.type
        let body ← schema.encodeValue held field.type
        .ok (code :: encodeInt16 id ++ body ++ [WireTag.stop.code])
    | other => .error (mismatch other "union")
  | .enum number _, type => do
    match ← writing (schema.canonical type) with
    | .enum _ => .ok (encodeInt32 number)
    | other => .error (mismatch other "enum")
termination_by structural value => value

/-- The bytes of elements of one type, one after another. -/
def encodeElements (schema : Schema) : List Value → DataType → Except EncodeError Bytes
  | [], _ => .ok []
  | value :: rest, type => do
    let head ← schema.encodeValue value type
    let tail ← schema.encodeElements rest type
    .ok (head ++ tail)
termination_by structural values => values

/-- The bytes of entries, each key before its value, in the order in which the map holds them. The
kinds of keys and values stand in front of all of them and are not repeated. -/
def encodeEntries (schema : Schema) :
    List (Value × Value) → DataType → DataType → Except EncodeError Bytes
  | [], _, _ => .ok []
  | (key, value) :: rest, keyType, valueType => do
    let keyBytes ← schema.encodeValue key keyType
    let valueBytes ← schema.encodeValue value valueType
    let tail ← schema.encodeEntries rest keyType valueType
    .ok (keyBytes ++ valueBytes ++ tail)
termination_by structural entries => entries

/-- The bytes of each declared field, header included, under its id. What is not declared is left
out, and a failure is kept beside the id, since the order in which failures count is that of the
declarations and not that of the fields. -/
def encodeFields (schema : Schema) :
    List (Int16 × Value) → List Field → List (Int16 × Except EncodeError Bytes)
  | [], _ => []
  | (id, value) :: rest, declared =>
    match fieldById? declared id with
    | none => schema.encodeFields rest declared
    | some field =>
      let encoded : Except EncodeError Bytes := do
        let code ← schema.tagCode field.type
        let body ← schema.encodeValue value field.type
        .ok (code :: encodeInt16 id ++ body)
      (id, encoded) :: schema.encodeFields rest declared
termination_by structural fields => fields

end

/-- The bytes of a value, once it is known to fit its type within the depth. -/
def encode (schema : Schema) (limits : Limits) (type : DataType) (value : Value) :
    Except EncodeError Bytes := do
  (schema.checkValue limits.depth value type 0).mapError EncodeError.valueMismatch
  schema.encodeValue value type

end Schema

/-- Write a value to a sink, and count the bytes. Nothing is written for a value that does not
fit. -/
def Schema.write (schema : Schema) (limits : Limits) (type : DataType) (value : Value)
    (sink : Sink) : Except EncodeError Nat × Sink :=
  match schema.encode limits type value with
  | .error error => (.error error, sink)
  | .ok bytes =>
    match sink.write bytes with
    | (.ok (), sink) => (.ok bytes.length, sink)
    | (.error reason, sink) => (.error (.sink reason), sink)

end SchemaCodec
