import SchemaCodec.Message.ApplicationException
import SchemaCodec.Message.Header

/-!
# Messages

A message is a header and the struct that its type calls for: the arguments of a call, the result of
a reply, or an application exception. The method, and with it the struct, is looked up on a service
and along the services that it extends.
-/

namespace SchemaCodec

/-- What follows a header. Which of the three it is depends on the type of the message alone. -/
inductive MessageBody where
  | arguments (value : Value)
  | result (value : Value)
  | exception (exception : ApplicationException)

/-- A header with its body. The method that the body belongs to is named in the header. -/
structure Message where
  header : MessageHeader
  body : MessageBody

namespace Schema

/-- A lookup or an encoding while handling a message. -/
def inMessage (cause : ε → MessageError) (outcome : Except ε α) : Except MessageError α :=
  outcome.mapError cause

/-- The result struct of a method; a oneway method has none. -/
def resultStruct (method : Method) (name : String) : Except MessageError String :=
  match method.resultStruct with
  | some result => .ok result
  | none => .error (.noReply name)

/-- The bytes of a header and of a struct behind it. -/
def encodeEnvelope (schema : Schema) (limits : Limits) (header : MessageHeader) (struct : String)
    (value : Value) : Except MessageError Bytes := do
  let front ← inMessage .encode header.encode
  let body ← inMessage .encode (schema.encode limits (.struct struct) value)
  .ok (front ++ body)

/-- A call with its arguments. The header of a oneway method announces that no reply is expected. -/
def encodeCall (schema : Schema) (limits : Limits) (service method : String) (sequenceId : Int32)
    (arguments : Value) : Except MessageError Bytes := do
  let (_, declared) ← inMessage .lookup (schema.findMethod service method)
  let type := if declared.oneway then MessageType.oneway else .call
  schema.encodeEnvelope limits ⟨method, type, sequenceId⟩ declared.argumentsStruct arguments

/-- A reply with its result. A oneway method has none, so there is no reply to it. -/
def encodeReply (schema : Schema) (limits : Limits) (service method : String) (sequenceId : Int32)
    (result : Value) : Except MessageError Bytes := do
  let (_, declared) ← inMessage .lookup (schema.findMethod service method)
  let struct ← resultStruct declared method
  schema.encodeEnvelope limits ⟨method, .reply, sequenceId⟩ struct result

/-- A decoder for the body that a header announces. Finding it reads nothing and may fail: the
method may be unknown, or a reply may come for a method that has none. An exception needs neither
the service nor the method. -/
def bodyDecoder (schema : Schema) (limits : Limits) (service : String) (header : MessageHeader) :
    Except MessageError (Decoder MessageBody) :=
  match header.type with
  | .call | .oneway => do
    let (_, declared) ← inMessage .lookup (schema.findMethod service header.name)
    .ok (do
      let value ← Decoder.value schema limits (.struct declared.argumentsStruct)
      pure (.arguments value))
  | .reply => do
    let (_, declared) ← inMessage .lookup (schema.findMethod service header.name)
    let struct ← resultStruct declared header.name
    .ok (do
      let value ← Decoder.value schema limits (.struct struct)
      pure (.result value))
  | .exception =>
    .ok (do
      let exception ← ApplicationException.decoder limits
      pure (.exception exception))

/-- A whole message addressed to a service. Nothing may follow it: bytes behind the body are an
error even though header and body were read. The offset of an error counts from the start of the
message. -/
def decodeMessage (schema : Schema) (limits : Limits) (service : String) (bytes : Bytes) :
    Except MessageError Message :=
  match MessageHeader.read limits (Source.ofBytes bytes) with
  | (.error error, _) => .error error
  | (.ok header, source) => do
    let decoder ← schema.bodyDecoder limits service header
    match decoder.run source with
    | (.error error, _) => .error (.decode error)
    | (.ok body, source) =>
      if source.unread.isEmpty then .ok ⟨header, body⟩
      else .error (.decode ⟨.trailingBytes source.unread.length, source.position, []⟩)

end Schema

/-- An exception message. It needs no schema, since its body is the same for every method. -/
def encodeException (method : String) (sequenceId : Int32) (exception : ApplicationException) :
    Except MessageError Bytes := do
  let front ← Schema.inMessage .encode (MessageHeader.encode ⟨method, .exception, sequenceId⟩)
  let body ← Schema.inMessage .encode exception.encode
  .ok (front ++ body)

end SchemaCodec
