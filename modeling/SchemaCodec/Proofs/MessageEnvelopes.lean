import SchemaCodec.Message.Envelope
import SchemaCodec.Proofs.MessageFormat
import SchemaCodec.Proofs.RoundTrip
import SchemaCodec.Proofs.Skipping
import SchemaCodec.Proofs.SourceAgreement

/-!
# The format of whole messages

Which bytes are which message for a service, told without reading: a header, and behind it the body
that the header calls for. Decoding gives exactly the message that all of the bytes are.

Main statement: no message stands in front of other bytes that are a message too. Header and body
both tell where they end, and where a struct ends does not depend on its type; so this holds for
messages to different services as well.
-/

namespace SchemaCodec

open Decoder (Recognises)

section Headers

variable {limits : Limits}

/-- The first word of the versioned form tells the version and the message type. -/
theorem MessageType.exists_word (type : MessageType) : ∃ word : Int32,
    encodeInt32 word = BigEndian.encode 4 (MessageHeader.version * 0x10000 + type.code.toNat) ∧
      word.toInt < 0 ∧ word.toUInt32.toNat / 0x10000 = MessageHeader.version ∧
        UInt8.ofNat word.toUInt32.toNat = type.code := by
  refine ⟨(UInt32.ofNat (MessageHeader.version * 0x10000 + type.code.toNat)).toInt32, ?_⟩
  cases type <;> decide

/-- The code of a message type tells it. -/
theorem MessageType.ofCode?_code (type : MessageType) : ofCode? type.code = some type := by
  cases type <;> rfl

/-- A header that is written is read, where the name is not too long for the reader.

Proof: the first word of a written header is negative and has the version, so the bytes have the
versioned form; the name and the sequence number stand behind it as they were written. -/
theorem MessageHeader.form_of_encode {header : MessageHeader} {front : Bytes}
    (written : header.encode = .ok front)
    (within : (Utf8.encode header.name).length ≤ limits.stringLength) :
    Form limits front (.ok header) := by
  unfold encode at written
  obtain ⟨name, isName, same⟩ := Outcome.bind_eq_ok.mp written
  obtain rfl := Except.ok.inj same
  obtain ⟨word, isWord, negative, versioned, typed⟩ := header.type.exists_word
  have behindName : NamedForm (Utf8.encode header.name)
      (SequenceForm (UInt8.ofNat word.toUInt32.toNat)) (encodeInt32 header.sequenceId)
      (.ok header) := by
    simp only [NamedForm, Utf8.decode?_eq_some_iff.mpr rfl, SequenceForm, typed,
      MessageType.ofCode?_code]
    exact ⟨header.sequenceId, rfl, rfl⟩
  refine ⟨word, name ++ encodeInt32 header.sequenceId, by rw [isWord, List.append_assoc], ?_⟩
  rw [if_pos negative, VersionedForm, if_neg (not_not_intro versioned)]
  exact ⟨Utf8.encode header.name, name, _, rfl,
    ⟨within, Schema.encodeLengthPrefixed_eq_ok.mp isName⟩, behindName⟩

end Headers

section Exceptions

variable {limits : Limits}

/-- A kind keeps the code that it was made from. -/
theorem ExceptionKind.code_ofCode (code : Int32) : (ofCode code).code = code := by
  unfold ofCode
  cases found : named.find? (·.code = code) with
  | none => rfl
  | some kind => simpa using List.find?_some found

/-- An exception that is written is read, where its text is not too long for the reader and its kind
is the one of its code.

Proof: the bytes are the field of the text, if there is one, the field of the code and the stop.
From the stop backwards each of them prolongs the row of fields by one part. -/
theorem ApplicationException.form_of_encode {exception : ApplicationException} {bytes : Bytes}
    (written : exception.encode = .ok bytes)
    (kind : exception.kind = .ofCode exception.kind.code)
    (within : ∀ text ∈ exception.text, (Utf8.encode text).length ≤ limits.stringLength) :
    Form limits bytes exception := by
  obtain ⟨text, code⟩ := exception
  change code = .ofCode code.code at kind
  unfold encode at written
  obtain ⟨front, isFront, same⟩ := Outcome.bind_eq_ok.mp written
  obtain rfl := Except.ok.inj same
  have ended : Decoder.FieldSequence (PartForm limits) [WireTag.stop.code] [] := .stop
  have coded := ended.cons ⟨.i32, codeId, encodeInt32 code.code, some (.code code.code)⟩ (by simp)
    ⟨code.code, rfl, rfl⟩
  cases text with
  | none =>
    obtain rfl := Except.ok.inj isFront
    exact ⟨_, coded, congrArg (ApplicationException.mk none) kind⟩
  | some text =>
    unfold encodeText at isFront
    obtain ⟨body, isBody, same⟩ := Outcome.bind_eq_ok.mp isFront
    obtain rfl := Except.ok.inj same
    have part : PartForm limits .string textId body (some (.text text)) :=
      ⟨Utf8.encode text, ⟨within text rfl, Schema.encodeLengthPrefixed_eq_ok.mp isBody⟩, text,
        Utf8.decode?_eq_some_iff.mpr rfl, rfl⟩
    have texted := coded.cons ⟨.string, textId, body, some (.text text)⟩ (by simp) part
    refine ⟨[(textId, .text text), (codeId, .code code.code)], ?_,
      congrArg (ApplicationException.mk (some text)) kind⟩
    simpa [Decoder.WireField.bytes, Decoder.WireField.kept] using texted

end Exceptions

section Messages

variable {schema : Schema} {limits : Limits} {service : String}

/-- The body that a header calls for, as bytes: a struct of the method that the service has under
the name in the header, or an application exception. -/
inductive BodyForm (schema : Schema) (limits : Limits) (service : String) (header : MessageHeader) :
    Bytes → MessageBody → Prop where
  | arguments {owner : Service} {declared : Method} {taken : Bytes} {value : Value}
      (type : header.type = .call ∨ header.type = .oneway)
      (found : schema.findMethod service header.name = .ok (owner, declared))
      (denotes : Denotes schema limits (limits.depth + 1) (.struct declared.argumentsStruct) taken
        value) : BodyForm schema limits service header taken (.arguments value)
  | result {owner : Service} {declared : Method} {struct : String} {taken : Bytes} {value : Value}
      (type : header.type = .reply)
      (found : schema.findMethod service header.name = .ok (owner, declared))
      (named : declared.resultStruct = some struct)
      (denotes : Denotes schema limits (limits.depth + 1) (.struct struct) taken value) :
      BodyForm schema limits service header taken (.result value)
  | exception {exception : ApplicationException} {taken : Bytes} (type : header.type = .exception)
      (formed : ApplicationException.Form limits taken exception) :
      BodyForm schema limits service header taken (.exception exception)

/-- A body is read as its form tells.

Proof: by the type of the message. A call and a reply read the struct that the method names, and an
exception reads itself. In each case the form has a single way to be met, because the header tells
which one and lookups have one result. -/
theorem recognises_bodyDecoder {header : MessageHeader} {decoder : Decoder MessageBody}
    (known : schema.bodyDecoder limits service header = .ok decoder) :
    Recognises decoder (BodyForm schema limits service header) := by
  have readers (struct : String) :=
    Decoder.recognises_valueWithin schema limits (limits.depth + 1) (.struct struct)
  unfold Schema.bodyDecoder at known
  cases type : header.type with
  | call | oneway =>
    simp only [type, Schema.inMessage, Outcome.bind_eq_ok, Outcome.mapError_eq_ok] at known
    obtain ⟨⟨owner, declared⟩, found, same⟩ := known
    obtain rfl := Except.ok.inj same
    refine ((readers _).map MessageBody.arguments).of_iff fun taken body => ?_
    constructor
    · rintro ⟨value, denotes, rfl⟩
      exact .arguments (by simp [type]) found denotes
    · rintro (⟨-, alsoFound, denotes⟩ | ⟨isReply, -⟩ | ⟨isException, -⟩)
      · obtain ⟨rfl, rfl⟩ := Prod.mk.inj (Except.ok.inj (found.symm.trans alsoFound))
        exact ⟨_, denotes, rfl⟩
      · simp [type] at isReply
      · simp [type] at isException
  | reply =>
    simp only [type, Schema.inMessage, Outcome.bind_eq_ok, Outcome.mapError_eq_ok] at known
    obtain ⟨⟨owner, declared⟩, found, struct, named, same⟩ := known
    obtain rfl := Except.ok.inj same
    have isNamed : declared.resultStruct = some struct := by
      unfold Schema.resultStruct at named
      cases isResult : declared.resultStruct with
      | none => simp [isResult] at named
      | some other => simpa [isResult] using named
    refine ((readers _).map MessageBody.result).of_iff fun taken body => ?_
    constructor
    · rintro ⟨value, denotes, rfl⟩
      exact .result type found isNamed denotes
    · rintro (⟨isCall, -, -⟩ | ⟨-, alsoFound, alsoNamed, denotes⟩ | ⟨isException, -⟩)
      · simp [type] at isCall
      · obtain ⟨rfl, rfl⟩ := Prod.mk.inj (Except.ok.inj (found.symm.trans alsoFound))
        obtain rfl := Option.some.inj (isNamed.symm.trans alsoNamed)
        exact ⟨_, denotes, rfl⟩
      · simp [type] at isException
  | exception =>
    simp only [type, Except.ok.injEq] at known
    subst known
    refine ((ApplicationException.recognises_decoder limits).map
      MessageBody.exception).of_iff fun taken body => ?_
    constructor
    · rintro ⟨exception, formed, rfl⟩
      exact .exception type formed
    · rintro (⟨isCall, -, -⟩ | ⟨isReply, -⟩ | ⟨-, formed⟩)
      · simp [type] at isCall
      · simp [type] at isReply
      · exact ⟨_, formed, rfl⟩

/-- A body that is there can be decoded. -/
theorem BodyForm.exists_bodyDecoder {header : MessageHeader} {taken : Bytes} {body : MessageBody}
    (formed : BodyForm schema limits service header taken body) :
    ∃ decoder, schema.bodyDecoder limits service header = .ok decoder := by
  unfold Schema.bodyDecoder
  cases formed with
  | arguments type found _ =>
    rcases type with type | type <;> simp only [type, found] <;> exact ⟨_, rfl⟩
  | result type found named _ =>
    simp only [type, found, Schema.inMessage, Except.mapError, Schema.resultStruct]
    exact ⟨_, by simp only [bind, Except.bind, named]; rfl⟩
  | exception type _ =>
    simp only [type]
    exact ⟨_, rfl⟩

/-- A whole message to a service, as bytes: a header, and the body that it calls for. -/
def MessageForm (schema : Schema) (limits : Limits) (service : String) (bytes : Bytes)
    (message : Message) : Prop :=
  ∃ front back, bytes = front ++ back ∧ MessageHeader.Form limits front (.ok message.header) ∧
    BodyForm schema limits service message.header back message.body

/-- Decoding gives exactly the message that all of the bytes are.

Proof: the header is read from the front and the body from what is left, and decoding succeeds
exactly if nothing is left behind the body. Both decoders recognise their forms, so the bytes split
as the form of a message says; conversely they read it as it is split. -/
theorem decodeMessage_eq_ok {bytes : Bytes} {message : Message} :
    schema.decodeMessage limits service bytes = .ok message ↔
      MessageForm schema limits service bytes message := by
  have headers := MessageHeader.recognises_decoder limits
  unfold Schema.decodeMessage MessageForm
  constructor
  · intro decoded
    rcases read : MessageHeader.read limits (.ofBytes bytes) with ⟨_ | header, source⟩ <;>
      simp only [read, reduceCtorEq] at decoded
    obtain ⟨front, back, rfl, formed, rfl⟩ :=
      headers.form_of_slice (MessageHeader.read_eq_ok.mp read)
    obtain ⟨decoder, known, decoded⟩ := Outcome.bind_eq_ok.mp decoded
    rcases readBody : decoder.run ⟨0 + front.length, .slice back⟩ with ⟨_ | body, after⟩ <;>
      simp only [readBody, reduceCtorEq] at decoded
    obtain ⟨taken, rest, rfl, bodyFormed, rfl⟩ :=
      (recognises_bodyDecoder known).form_of_slice readBody
    cases rest with
    | cons byte rest => simp [Source.unread] at decoded
    | nil =>
      obtain rfl := Except.ok.inj decoded
      exact ⟨front, taken, by rw [List.append_nil], formed, bodyFormed⟩
  · rintro ⟨front, back, rfl, formed, bodyFormed⟩
    obtain ⟨decoder, known⟩ := bodyFormed.exists_bodyDecoder
    have readHeader := MessageHeader.read_eq_ok.mpr (headers.run_slice formed 0 back)
    have readBody := (recognises_bodyDecoder known).run_slice bodyFormed (0 + front.length) []
    rw [List.append_nil] at readBody
    simp only [Source.ofBytes, readHeader, known]
    simp only [bind, Except.bind, readBody]
    rfl

/-- A struct of any type is stepped over by its tag. -/
theorem Denotes.skippable_struct {levels : Nat} {struct : String} {taken : Bytes} {value : Value}
    (denotes : Denotes schema limits levels (.struct struct) taken value) :
    Skippable limits levels .struct taken :=
  denotes.skippable rfl

/-- Bodies that one header calls for, even of two services, end at the same byte of the same bytes.

Proof: by the type of the header, which both bodies share. The structs of calls and replies can be
stepped over by their tag, and stepping over recognises where it ends; an exception is recognised by
its own decoder. -/
theorem BodyForm.delimits {other : String} {header : MessageHeader} {taken again rest tail : Bytes}
    {body another : MessageBody} (formed : BodyForm schema limits service header taken body)
    (alsoFormed : BodyForm schema limits other header again another)
    (same : taken ++ rest = again ++ tail) : taken = again := by
  have structs {taken again : Bytes} (first : Skippable limits (limits.depth + 1) .struct taken)
      (second : Skippable limits (limits.depth + 1) .struct again)
      (same : taken ++ rest = again ++ tail) : taken = again := by
    have delimited : taken = again ∧ () = () :=
      (Decoder.recognises_skipWithin limits _ .struct).delimits first second same
    exact delimited.1
  cases formed with
  | arguments type _ denotes =>
    cases alsoFormed with
    | arguments _ _ alsoDenotes =>
      exact structs denotes.skippable_struct alsoDenotes.skippable_struct same
    | result isReply => simp [isReply] at type
    | exception isException => simp [isException] at type
  | result type _ _ denotes =>
    cases alsoFormed with
    | arguments isCall => simp [type] at isCall
    | result _ _ _ alsoDenotes =>
      exact structs denotes.skippable_struct alsoDenotes.skippable_struct same
    | exception isException => simp [isException] at type
  | exception type formed =>
    cases alsoFormed with
    | arguments isCall => simp [type] at isCall
    | result isReply => simp [isReply] at type
    | exception _ alsoFormed =>
      exact ((ApplicationException.recognises_decoder limits).delimits formed alsoFormed same).1

/-- A message in front of other bytes is no message together with them, not even for another
service. -/
theorem MessageForm.eq_of_prefix {other : String} {bytes longer : Bytes}
    {message another : Message} (formed : MessageForm schema limits service bytes message)
    (alsoFormed : MessageForm schema limits other longer another) (front : bytes <+: longer) :
    bytes = longer := by
  obtain ⟨rest, rfl⟩ := front
  obtain ⟨header, body, rfl, headerFormed, bodyFormed⟩ := formed
  obtain ⟨otherHeader, otherBody, same, otherHeaderFormed, otherBodyFormed⟩ := alsoFormed
  rw [List.append_assoc] at same
  obtain ⟨rfl, sameHeader⟩ := (MessageHeader.recognises_decoder limits).delimits headerFormed
    otherHeaderFormed same
  rw [← Except.ok.inj sameHeader] at otherBodyFormed
  have sameBodies : body ++ rest = otherBody ++ [] := by
    rw [List.append_nil]
    exact List.append_cancel_left same
  obtain rfl := bodyFormed.delimits otherBodyFormed sameBodies
  rw [List.append_cancel_left sameBodies, List.append_nil]

end Messages

end SchemaCodec
