import SchemaCodec.Schema.Basic
import SchemaCodec.Value.Collection
import SchemaCodec.Text.Utf8
import SchemaCodec.Wire.Skip

/-!
# Reading typed values

Reading follows the type: every tag on the wire must be the one that the type asks for, a field that
the type does not declare is stepped over, and a set, map or struct is rebuilt by insertion in wire
order. An enum keeps any number and is labelled when a member has it.
-/

namespace SchemaCodec

namespace Schema

/-- The tag of a type's values, behind all typedefs. -/
def wireTag (schema : Schema) (type : DataType) : Except String WireTag :=
  match schema.canonical type with
  | .error error => .error error.message
  | .ok canonical =>
    match canonical.wireTag? with
    | some tag => .ok tag
    | none => .error ("no wire type for " ++ canonical.display)

end Schema

namespace Decoder

/-- The header of a list or set: the tag of the elements and their count. -/
def sequenceHeader (schema : Schema) (limits : Limits) (element : DataType) : Decoder Nat := do
  let start ← position
  let tag ← lookup start id (schema.wireTag element)
  expectTag tag
  count limits tag.leastSize

/-- The field sequence of a struct or union: declared fields are read as their types ask, others are
stepped over. A declared field with another tag than its type asks for is an error, not an unknown
field. The readers of both are given, so the same sequence serves every level of nesting. -/
def declaredFields (schema : Schema) (declared : List Field) (read : DataType → Decoder Value)
    (skip : WireTag → Decoder Unit) : Decoder (List (Int16 × Value)) :=
  fields fun header =>
    match fieldById? declared header.id with
    | some field => do
      let expected ← lookup header.offset id (schema.wireTag field.type)
      if header.tag = expected then
        let value ← within (.field header.id) (read field.type)
        pure (some value)
      else
        within (.field header.id)
          (fail (.unexpectedTypeTag expected header.tag.code) header.offset)
    | none => do
      within (.field header.id) (skip header.tag)
      pure none

/-- The bytes behind a length prefix. -/
def lengthPrefixed (limits : Limits) : Decoder Bytes := do
  let size ← length limits
  payload size

/-- A value of a type, at most that many levels deep. The level is used up before the type is looked
at, so even a value without parts is refused where no level is left. What is inside a value, whether
it is read as a type asks or stepped over, has one level less. -/
def valueWithin (schema : Schema) (limits : Limits) : Nat → DataType → Decoder Value
  | 0, _ => do
    let start ← position
    fail (.depthLimitExceeded limits.depth) start
  | levels + 1, type => do
    let start ← position
    match ← lookup start LookupError.message (schema.canonical type) with
    | .bool =>
      let code ← uint8
      pure (.bool (code ≠ 0))
    | .byte =>
      let number ← int8
      pure (.byte number)
    | .i16 =>
      let number ← int16
      pure (.i16 number)
    | .i32 =>
      let number ← int32
      pure (.i32 number)
    | .i64 =>
      let number ← int64
      pure (.i64 number)
    | .double =>
      let number ← double
      pure (.double number)
    | .string =>
      let bytes ← lengthPrefixed limits
      match Utf8.decode? bytes with
      | some text => pure (.string text)
      | none => fail .invalidUtf8 start
    | .binary =>
      let bytes ← lengthPrefixed limits
      pure (.binary bytes)
    | .list element =>
      let size ← sequenceHeader schema limits element
      let items ← collect (fun position =>
        within (.index position) (valueWithin schema limits levels element)) size 0
      pure (.list items)
    | .set element =>
      let size ← sequenceHeader schema limits element
      let items ← collect (fun position =>
        within (.index position) (valueWithin schema limits levels element)) size 0
      pure (.set (Value.elementsOf items))
    | .map keyType valueType =>
      let keyTag ← lookup start id (schema.wireTag keyType)
      let valueTag ← lookup start id (schema.wireTag valueType)
      expectTag keyTag
      expectTag valueTag
      let size ← count limits (keyTag.leastSize + valueTag.leastSize)
      let entries ← collect (fun position => do
        let key ← within (.key position) (valueWithin schema limits levels keyType)
        let value ← within (.value position) (valueWithin schema limits levels valueType)
        pure (key, value)) size 0
      pure (.map (Value.entriesOf entries))
    | .struct name =>
      let declared ← lookup start LookupError.message (schema.structType name)
      let read ← declaredFields schema declared.fields (valueWithin schema limits levels)
        (skipWithin limits levels)
      let held := Value.Fields.ofList read
      match declared.fields.find? fun field =>
          field.requiredness = .required && !held.contains field.id with
      | some field =>
        let here ← position
        fail (.missingRequiredField declared.name field.id field.name) here
      | none => pure (.struct held)
    | .union name =>
      let declared ← lookup start LookupError.message (schema.unionType name)
      let read ← declaredFields schema declared.fields (valueWithin schema limits levels)
        (skipWithin limits levels)
      match Value.Fields.ofList read with
      | [(id, value)] => pure (.union id value)
      | held =>
        let here ← position
        fail (.invalidUnionArity declared.name held.length) here
    | .enum name =>
      let number ← int32
      let declared ← lookup start LookupError.message (schema.enumType name)
      pure (.enum number ((declared.memberByNumber? number).map (·.name)))
    | .typedef name => fail (.unknownType name) start

/-- A value of a type; the source is left just behind it. -/
def value (schema : Schema) (limits : Limits) (type : DataType) : Decoder Value :=
  valueWithin schema limits (limits.depth + 1) type

/-- Run a decoder on all of some bytes: none may be left over. -/
def runOnAll (decoder : Decoder α) (bytes : Bytes) : Except DecodeError α :=
  match decoder.run (Source.ofBytes bytes) with
  | (.error error, _) => .error error
  | (.ok result, source) =>
    if source.unread.isEmpty then .ok result
    else .error ⟨.trailingBytes source.unread.length, source.position, []⟩

end Decoder

/-- The value of a type that occupies all of some bytes. -/
def Schema.decode (schema : Schema) (limits : Limits) (type : DataType) (bytes : Bytes) :
    Except DecodeError Value :=
  (Decoder.value schema limits type).runOnAll bytes

end SchemaCodec
