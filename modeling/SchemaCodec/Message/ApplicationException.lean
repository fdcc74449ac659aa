import SchemaCodec.Wire.Encoding

/-!
# Application exceptions

The body of an exception message is a struct of an optional text and a code. A code without a
meaning of its own is kept as it is. Unknown fields are stepped over, and of a repeated field the
last value counts.
-/

namespace SchemaCodec

/-- What went wrong at the other side. A code without a meaning of its own is kept, so that nothing
is lost when an exception is passed on. -/
inductive ExceptionKind where
  | unknown | unknownMethod | invalidMessageType | wrongMethodName | badSequenceId | missingResult
  | internalError | protocolError | invalidTransform | invalidProtocol | unsupportedClientType
  | other (code : Int32)
deriving DecidableEq, Repr

namespace ExceptionKind

/-- The code of a kind. -/
def code : ExceptionKind → Int32
  | unknown => 0
  | unknownMethod => 1
  | invalidMessageType => 2
  | wrongMethodName => 3
  | badSequenceId => 4
  | missingResult => 5
  | internalError => 6
  | protocolError => 7
  | invalidTransform => 8
  | invalidProtocol => 9
  | unsupportedClientType => 10
  | other code => code

/-- The kinds with a meaning of their own, ascending by code. -/
def named : List ExceptionKind :=
  [unknown, unknownMethod, invalidMessageType, wrongMethodName, badSequenceId, missingResult,
    internalError, protocolError, invalidTransform, invalidProtocol, unsupportedClientType]

/-- The kind of a code. A code with a meaning of its own becomes the kind that means it, never the
kind of other codes. -/
def ofCode (code : Int32) : ExceptionKind := (named.find? (·.code = code)).getD (other code)

/-- The word for a kind. -/
def display : ExceptionKind → String
  | unknown => "Unknown"
  | unknownMethod => "UnknownMethod"
  | invalidMessageType => "InvalidMessageType"
  | wrongMethodName => "WrongMethodName"
  | badSequenceId => "BadSequenceId"
  | missingResult => "MissingResult"
  | internalError => "InternalError"
  | protocolError => "ProtocolError"
  | invalidTransform => "InvalidTransform"
  | invalidProtocol => "InvalidProtocol"
  | unsupportedClientType => "UnsupportedClientType"
  | other code => "Other(" ++ toString code.toInt ++ ")"

end ExceptionKind

/-- An error that the other side reports instead of a result. -/
structure ApplicationException where
  text : Option String
  kind : ExceptionKind
deriving DecidableEq, Repr

namespace ApplicationException

/-- The field that holds the text. -/
def textId : Int16 := 1

/-- The field that holds the code. -/
def codeId : Int16 := 2

/-- The bytes of the text field, if there is a text. -/
def encodeText : Option String → Except EncodeError Bytes
  | none => .ok []
  | some text => do
    let body ← encodeLengthPrefixed (Utf8.encode text)
    .ok (WireTag.string.code :: encodeInt16 textId ++ body)

/-- The bytes of an exception: the text where there is one, then always the code, each as a field of
a struct. It can only fail for a text that is too long. -/
def encode (exception : ApplicationException) : Except EncodeError Bytes := do
  let text ← encodeText exception.text
  .ok (text ++ WireTag.i32.code :: encodeInt16 codeId ++ encodeInt32 exception.kind.code ++
    [WireTag.stop.code])

/-- What one field adds to an exception. -/
inductive Part where
  | text (text : String)
  | code (code : Int32)
deriving DecidableEq, Repr

/-- An exception with one part replaced. -/
def update (exception : ApplicationException) : Part → ApplicationException
  | .text text => { exception with text := some text }
  | .code code => { exception with kind := .ofCode code }

/-- The value of one field: a part where both id and tag are known, else nothing. A known id with
another tag is an unknown field and not an error. What is unknown is skipped as if it were an
outermost value, with all levels that the limits allow. -/
def part (limits : Limits) (header : Decoder.FieldHeader) : Decoder (Option Part) := do
  if header.id = textId ∧ header.tag = .string then
    let start ← Decoder.position
    let bytes ← Decoder.lengthPrefixed limits
    match Utf8.decode? bytes with
    | some text => pure (some (.text text))
    | none => Decoder.fail .invalidUtf8 start
  else if header.id = codeId ∧ header.tag = .i32 then
    let code ← Decoder.int32
    pure (some (.code code))
  else
    Decoder.within (.field header.id) (Decoder.skipValue limits header.tag)
    pure none

/-- An exception; the source is left just behind it. -/
def decoder (limits : Limits) : Decoder ApplicationException := do
  let parts ← Decoder.fields (part limits)
  pure (parts.foldl (fun exception (_, part) => exception.update part) ⟨none, .unknown⟩)

end ApplicationException

end SchemaCodec
