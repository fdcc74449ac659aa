import SchemaCodec.Wire.Encoding

/-!
# Message headers

A header names a method, tells what kind of message follows and carries a sequence id. The versioned
form starts with a word whose sign bit is set; the older form starts with the length of the name.
Both are read, and only the versioned form is written.
-/

namespace SchemaCodec

/-- What a message is for. A oneway message is a call to which no reply is expected. -/
inductive MessageType where
  | call | reply | exception | oneway
deriving DecidableEq, Repr

namespace MessageType

/-- The code of a message type. -/
def code : MessageType → UInt8
  | call => 1
  | reply => 2
  | exception => 3
  | oneway => 4

/-- The message type of a code. -/
def ofCode? (code : UInt8) : Option MessageType :=
  [call, reply, exception, oneway].find? (·.code = code)

/-- The word for a message type. -/
def name : MessageType → String
  | call => "Call"
  | reply => "Reply"
  | exception => "Exception"
  | oneway => "Oneway"

end MessageType

/-- Why a message is not written or not read. What is wrong with a header, or with a reply that no
method gives, has faults of its own; all else are errors of lookups, of writing and of reading,
taken over as they are. -/
inductive MessageError where
  | badVersion (word : UInt32)
  | unknownMessageType (code : UInt8)
  | invalidName
  | noReply (method : String)
  | lookup (error : LookupError)
  | encode (error : EncodeError)
  | decode (error : DecodeError)
deriving DecidableEq, Repr

/-- The text of an error. -/
def MessageError.message : MessageError → String
  | badVersion word =>
    let digits := Nat.toDigits 16 word.toNat
    "bad protocol version 0x" ++ String.ofList (List.replicate (8 - digits.length) '0' ++ digits)
  | unknownMessageType code => "unknown message type " ++ toString code.toNat
  | invalidName => "message name is not valid UTF-8"
  | noReply method => "method " ++ method ++ " is oneway and has no reply"
  | lookup error => error.message
  | encode error => error.message
  | decode error => error.message

/-- What stands in front of a message's body. -/
structure MessageHeader where
  name : String
  type : MessageType
  sequenceId : Int32
deriving DecidableEq, Repr

namespace MessageHeader

/-- The upper half of the first word of the versioned form. -/
def version : Nat := 0x8001

/-- The bytes of the versioned form. The type of the message is the last byte of the first word. It
can only fail for a name that is too long. -/
def encode (header : MessageHeader) : Except EncodeError Bytes := do
  let name ← encodeLengthPrefixed (Utf8.encode header.name)
  .ok (BigEndian.encode 4 (version * 0x10000 + header.type.code.toNat) ++ name ++
    encodeInt32 header.sequenceId)

/-- The end of a header, behind its name and the code of its type. -/
def sequencePart (name : String) (code : UInt8) : Decoder (Except MessageError MessageHeader) := do
  match MessageType.ofCode? code with
  | none => pure (.error (.unknownMessageType code))
  | some type =>
    let sequenceId ← Decoder.int32
    pure (.ok ⟨name, type, sequenceId⟩)

/-- The rest of the versioned form, behind its first word. -/
def versioned (limits : Limits) (word : UInt32) : Decoder (Except MessageError MessageHeader) := do
  if word.toNat / 0x10000 ≠ version then pure (.error (.badVersion word))
  else
    let bytes ← Decoder.lengthPrefixed limits
    match Utf8.decode? bytes with
    | none => pure (.error .invalidName)
    | some name => sequencePart name (UInt8.ofNat word.toNat)

/-- The rest of the older form, behind the length of the name. The length was read as the first
word, so a fault of it lies where the header starts. A length beyond the bytes left is an excessive
one here, as it is for a count. -/
def unversioned (limits : Limits) (start size : Nat) :
    Decoder (Except MessageError MessageHeader) := do
  let left? ← Decoder.remaining?
  if limits.stringLength < size ∨ left?.any (· < size) then
    Decoder.fail (.negativeOrExcessiveLength size limits.stringLength) start
  else
    let bytes ← Decoder.payload size
    match Utf8.decode? bytes with
    | none => pure (.error .invalidName)
    | some name =>
      let code ← Decoder.uint8
      sequencePart name code

/-- A header of either form, told apart by the sign of the first word. An error about the header
itself is a result, since it is no error of reading and has no offset. -/
def decoder (limits : Limits) : Decoder (Except MessageError MessageHeader) := do
  let start ← Decoder.position
  let first ← Decoder.int32
  if first.toInt < 0 then versioned limits first.toUInt32
  else unversioned limits start first.toInt.toNat

/-- Read a header of either form from a source. -/
def read (limits : Limits) (source : Source) : Except MessageError MessageHeader × Source :=
  match (decoder limits).run source with
  | (.ok outcome, source) => (outcome, source)
  | (.error error, source) => (.error (.decode error), source)

end MessageHeader

end SchemaCodec
