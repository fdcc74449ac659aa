import SchemaCodec.Wire.Limits
import SchemaCodec.Wire.Source
import SchemaCodec.Wire.Tag
import SchemaCodec.Value.Path
import SchemaCodec.Number.Double

/-!
# Reading from a source

A decoder reads from a source and either gives a result or an error that names the byte offset and
the path to the value at fault. The source moves on in both cases. The readers of numbers, tags,
lengths, counts and field headers stand here; they serve typed reading and untyped skipping alike.
-/

namespace SchemaCodec

/-- Why reading fails. A value may be cut short, be of another kind than the type asks for, exceed a
limit, or lack what its type requires; or the source fails, or the type itself is not known. -/
inductive DecodeFault where
  | unexpectedTypeTag (expected : WireTag) (found : UInt8)
  | truncatedInput
  | negativeOrExcessiveLength (length : Int) (limit : Nat)
  | missingRequiredField (type : String) (id : Int16) (name : String)
  | invalidUnionArity (type : String) (count : Nat)
  | invalidTypeTag (found : UInt8)
  | depthLimitExceeded (limit : Nat)
  | invalidUtf8
  | trailingBytes (count : Nat)
  | unknownType (reason : String)
  | source (error : StreamError)
deriving DecidableEq, Repr

/-- The text of a fault. -/
def DecodeFault.message : DecodeFault → String
  | unexpectedTypeTag expected found =>
    "expected " ++ expected.display ++ ", found tag " ++ toString found.toNat
  | truncatedInput => "input ended early"
  | negativeOrExcessiveLength length limit =>
    "length " ++ toString length ++ " is negative or exceeds " ++ toString limit
  | missingRequiredField type id name =>
    "missing required field " ++ toString id.toInt ++ " (" ++ name ++ ") of " ++ type
  | invalidUnionArity type count =>
    "union " ++ type ++ " carries " ++ toString count ++ " fields, expected exactly one"
  | invalidTypeTag found => "invalid type tag " ++ toString found.toNat
  | depthLimitExceeded limit => "nesting deeper than " ++ toString limit ++ " levels"
  | invalidUtf8 => "string is not valid UTF-8"
  | trailingBytes count => toString count ++ " bytes left after the value"
  | unknownType reason => "unknown type: " ++ reason
  | source error => "IO: " ++ error.reason

/-- A fault, the byte offset at which it was met, and the path to the value that was being read. -/
structure DecodeError where
  fault : DecodeFault
  offset : Nat
  path : FieldPath := []
deriving DecidableEq, Repr

namespace DecodeError

/-- The text of an error. -/
def message (error : DecodeError) : String :=
  error.fault.message ++ " at byte " ++ toString error.offset ++
    " (path " ++ error.path.display ++ ")"

/-- The same error, seen from the value around. -/
def within (step : PathStep) (error : DecodeError) : DecodeError :=
  { error with path := step :: error.path }

/-- A failed read: the end of the input cuts a value short, whoever says that it ended, and all else
is the source's own failure. -/
def ofRead (offset : Nat) : ReadFailure → DecodeError
  | .endOfInput => ⟨.truncatedInput, offset, []⟩
  | .broken error =>
    ⟨if error.kind = .unexpectedEnd then .truncatedInput else .source error, offset, []⟩

end DecodeError

/-- A computation that reads from a source and may fail; the source moves on in either case. -/
def Decoder (α : Type) : Type := Source → Except DecodeError α × Source

namespace Decoder

/-- Run a decoder on a source. What is left of the source is told in either case, since a failed
read may have moved it. -/
def run (decoder : Decoder α) (source : Source) : Except DecodeError α × Source := decoder source

/-- Give a result without reading. -/
def give (result : α) : Decoder α := fun source => (.ok result, source)

/-- Read on with the result of a decoder, unless it failed. -/
def andThen (first : Decoder α) (next : α → Decoder β) : Decoder β := fun source =>
  match first source with
  | (.ok result, source) => next result source
  | (.error error, source) => (.error error, source)

/-- Decoders are run one behind another on what is left of the source. -/
instance : Monad Decoder where
  pure := give
  bind := andThen

/-- A result that is given without reading leaves the source in place. -/
@[simp] theorem run_pure (result : α) (source : Source) :
    (pure result : Decoder α).run source = (.ok result, source) := rfl

/-- The second decoder starts where the first one stopped, and a failure of the first one is
final. -/
@[simp] theorem run_bind (first : Decoder α) (next : α → Decoder β) (source : Source) :
    (first >>= next).run source =
      match first.run source with
      | (.ok result, source) => (next result).run source
      | (.error error, source) => (.error error, source) := rfl

/-- Two decoders that agree on every source are one. -/
theorem ext {first second : Decoder α} (agree : ∀ source, first.run source = second.run source) :
    first = second := funext agree

/-- The order in which sequences of decoders are bracketed does not matter. -/
instance : LawfulMonad Decoder :=
  LawfulMonad.mk' Decoder
    (fun decoder => ext fun source => by
      simp only [Functor.map, run, andThen]
      rcases decoder source with ⟨_ | _, _⟩ <;> rfl)
    (fun _ _ => rfl)
    (fun decoder _ _ => ext fun source => by
      simp only [run_bind]
      rcases decoder.run source with ⟨_ | _, _⟩ <;> rfl)

/-- Fail with an error. -/
def failWith (error : DecodeError) : Decoder α := fun source => (.error error, source)

/-- Fail at an offset, at the value that is being read. -/
def fail (fault : DecodeFault) (offset : Nat) : Decoder α := failWith ⟨fault, offset, []⟩

/-- A lookup that needs no input: its failure makes the type at an offset unknown. -/
def lookup (offset : Nat) (reason : ε → String) : Except ε α → Decoder α
  | .ok result => give result
  | .error error => fail (.unknownType (reason error)) offset

/-- Read a value inside the one at hand: an error gains the step that leads there. -/
def within (step : PathStep) (decoder : Decoder α) : Decoder α := fun source =>
  match decoder source with
  | (.ok result, source) => (.ok result, source)
  | (.error error, source) => (.error (error.within step), source)

/-- The number of bytes read so far. -/
def position : Decoder Nat := fun source => (.ok source.position, source)

/-- The number of bytes left, where it is known. -/
def remaining? : Decoder (Option Nat) := fun source => (.ok source.remaining?, source)

/-- An upper bound on the bytes that can still be read. -/
def available : Decoder Nat := fun source => (.ok source.unread.length, source)

/-- Exactly that many bytes. A failure is reported at a given offset. -/
def bytesFrom (offset : Nat) (count : Nat) : Decoder Bytes := fun source =>
  match source.readExact count with
  | (.ok bytes, source) => (.ok bytes, source)
  | (.error failure, source) => (.error (DecodeError.ofRead offset failure), source)

/-- Exactly that many bytes. A failure is reported where they start. -/
def bytes (count : Nat) : Decoder Bytes := do
  let start ← position
  bytesFrom start count

/-- Move past bytes without keeping them. A failure is reported where they start. -/
def skipBytes (count : Nat) : Decoder Unit := fun source =>
  match source.skip count with
  | (.ok (), after) => (.ok (), after)
  | (.error failure, after) => (.error (DecodeError.ofRead source.position failure), after)

/-- A byte as it is. -/
def uint8 : Decoder UInt8 := do
  let read ← bytes 1
  pure (UInt8.ofNat (BigEndian.decode read))

/-- A signed byte. -/
def int8 : Decoder Int8 := do
  let read ← bytes 1
  pure (decodeInt8 read)

/-- A signed number of two bytes. -/
def int16 : Decoder Int16 := do
  let read ← bytes 2
  pure (decodeInt16 read)

/-- A signed number of four bytes. -/
def int32 : Decoder Int32 := do
  let read ← bytes 4
  pure (decodeInt32 read)

/-- A signed number of eight bytes. -/
def int64 : Decoder Int64 := do
  let read ← bytes 8
  pure (decodeInt64 read)

/-- A double of eight bytes. -/
def double : Decoder Double := do
  let read ← bytes 8
  pure (Double.decode read)

/-- Read that many items in a row. Each is told its position, counted on from the one that is given,
since an error in an item names it. -/
def collect (item : Nat → Decoder α) : Nat → Nat → Decoder (List α)
  | 0, _ => pure []
  | count + 1, position => do
    let head ← item position
    let rest ← collect item count (position + 1)
    pure (head :: rest)

/-- The tag of a container's elements, of any kind that has values. -/
def elementTag : Decoder WireTag := do
  let start ← position
  let code ← uint8
  match WireTag.ofCode? code with
  | some .stop | none => fail (.invalidTypeTag code) start
  | some tag => pure tag

/-- The tag of a container's elements, which must be the expected one even if there are no
elements. -/
def expectTag (expected : WireTag) : Decoder Unit := do
  let start ← position
  let code ← uint8
  if code = expected.code then pure () else fail (.unexpectedTypeTag expected code) start

/-- The length of a string or binary, within the limit and, where it is known, within the bytes
left. A length beyond the limit is a fault of its own and lies at the prefix; a length beyond the
bytes left is an input cut short and lies behind the prefix. -/
def length (limits : Limits) : Decoder Nat := do
  let start ← position
  let announced ← int32
  if announced.toInt < 0 ∨ limits.stringLength < announced.toInt.toNat then
    fail (.negativeOrExcessiveLength announced.toInt limits.stringLength) start
  else
    match ← remaining? with
    | some left =>
      if left < announced.toInt.toNat then
        let here ← position
        fail .truncatedInput here
      else pure announced.toInt.toNat
    | none => pure announced.toInt.toNat

/-- The count of a container, within the limit and within what the bytes left can hold when each
item takes a least size. Unlike a length, a count that the bytes left cannot hold is an excessive
one, and the error names the greatest count that they could. -/
def count (limits : Limits) (leastSize : Nat) : Decoder Nat := do
  let start ← position
  let announced ← int32
  if announced.toInt < 0 ∨ limits.containerLength < announced.toInt.toNat then
    fail (.negativeOrExcessiveLength announced.toInt limits.containerLength) start
  else
    match ← remaining? with
    | some left =>
      if left < announced.toInt.toNat * leastSize then
        fail (.negativeOrExcessiveLength announced.toInt (left / max leastSize 1)) start
      else pure announced.toInt.toNat
    | none => pure announced.toInt.toNat

/-- The largest piece in which a payload is read from a stream. -/
def payloadBlock : Nat := 4096

/-- Read a payload block by block, for at most that many blocks, so that no more than a block is
asked for ahead of what the stream has given. A failure in any block is reported where the payload
starts. -/
def payloadBlocks (start : Nat) : Nat → Nat → Decoder Bytes
  | 0, _ => pure []
  | blocks + 1, size => do
    if size = 0 then pure []
    else
      let block ← bytesFrom start (min size payloadBlock)
      let rest ← payloadBlocks start blocks (size - payloadBlock)
      pure (block ++ rest)

/-- The bytes behind a length: in one piece where it was checked against the bytes left, and block
by block where it was not. -/
def payload (size : Nat) : Decoder Bytes := do
  match ← remaining? with
  | some _ => bytes size
  | none =>
    let start ← position
    payloadBlocks start (size / payloadBlock + 1) size

/-- What precedes a field's value. -/
structure FieldHeader where
  tag : WireTag
  id : Int16
  /-- The offset of the tag. -/
  offset : Nat
deriving DecidableEq, Repr

/-- The header of the next field, or none where the fields end. -/
def fieldHeader : Decoder (Option FieldHeader) := do
  let start ← position
  let code ← uint8
  if code = WireTag.stop.code then pure none
  else
    match WireTag.ofCode? code with
    | none => fail (.invalidTypeTag code) start
    | some tag => do
      let id ← int16
      pure (some ⟨tag, id, start⟩)

/-- Read fields until they end, at most that many headers. The value of a field is left to the
reader of a field, which may also give nothing; then nothing is kept, though the field was read. -/
def fieldsWithin (field : FieldHeader → Decoder (Option α)) : Nat → Decoder (List (Int16 × α))
  | 0 => do
    let here ← position
    fail .truncatedInput here
  | attempts + 1 => do
    match ← fieldHeader with
    | none => pure []
    | some header =>
      let found ← field header
      let rest ← fieldsWithin field attempts
      match found with
      | some value => pure ((header.id, value) :: rest)
      | none => pure rest

/-- Read fields until they end, and keep those that the reader of a field gives. Every field takes
at least one byte, so the bytes left bound their number. -/
def fields (field : FieldHeader → Decoder (Option α)) : Decoder (List (Int16 × α)) := do
  let bound ← available
  fieldsWithin field (bound + 1)

end Decoder

end SchemaCodec
