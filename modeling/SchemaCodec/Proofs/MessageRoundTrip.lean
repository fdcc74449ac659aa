import SchemaCodec.Proofs.ClosedGraph
import SchemaCodec.Proofs.MessageEnvelopes
import SchemaCodec.Proofs.ValueIdentity

/-!
# Messages are received as they were sent

A call, a reply or an exception that is written is decoded as the same message by every service that
finds the same method, and neither a part of its bytes nor more than them is a message to any
service. A reply is refused exactly for oneway methods: of all methods of a linked schema only these
have no result struct.
-/

namespace SchemaCodec

section Methods

variable {schema : Schema}

/-- A method that is found on a chain of services belongs to a service of the schema. -/
theorem Schema.mem_of_findMethodWithin {failure : LookupError} {method : String} {steps : Nat}
    {start owner : Service} {declared : Method} (isService : start ∈ schema.services)
    (found : schema.findMethodWithin failure method steps start = .ok (owner, declared)) :
    owner ∈ schema.services ∧ declared ∈ owner.methods := by
  induction steps generalizing start with
  | zero => cases found
  | succ steps inductionHypothesis =>
    unfold findMethodWithin at found
    split at found
    · next here =>
      obtain ⟨rfl, rfl⟩ := Prod.mk.inj (Except.ok.inj found)
      exact ⟨isService, List.mem_of_find?_eq_some here⟩
    · cases found
    · obtain ⟨above, isAbove, found⟩ := Outcome.bind_eq_ok.mp found
      exact inductionHypothesis (mem_of_service? (service_eq_ok.mp isAbove)) found

/-- A method that is found belongs to a service of the schema. -/
theorem Schema.mem_of_findMethod {service method : String} {owner : Service} {declared : Method}
    (found : schema.findMethod service method = .ok (owner, declared)) :
    owner ∈ schema.services ∧ declared ∈ owner.methods := by
  obtain ⟨start, isStart, found⟩ := Outcome.bind_eq_ok.mp found
  exact mem_of_findMethodWithin (mem_of_service? (service_eq_ok.mp isStart)) found

/-- In a linked schema the oneway methods are those without a result struct. -/
theorem resultStruct_eq_none_iff {documents : List Document} (linked : link documents = .ok schema)
    {service : Service} (isService : service ∈ schema.services) {method : Method}
    (isMethod : method ∈ service.methods) :
    method.resultStruct = none ↔ method.oneway = true := by
  obtain ⟨scope, -, typed, settled, later, passes, rfl⟩ := Scope.link_eq_ok.mp linked
  obtain ⟨old, sameMethod, ⟨_, _, definition, follows⟩, -⟩ :=
    passes.exists_declaredMethod isService isMethod
  obtain ⟨-, -, -, -, sameOneway, -, sameResult⟩ := Method.mk.inj sameMethod
  rw [← sameOneway, ← sameResult, follows.oneway, follows.resultStruct]
  cases definition.oneway <;> simp

end Methods

namespace Schema

variable {schema : Schema} {limits : Limits}

/-- An envelope is written when its header and its struct are. -/
theorem encodeEnvelope_eq_ok {header : MessageHeader} {struct : String} {value : Value}
    {bytes : Bytes} : schema.encodeEnvelope limits header struct value = .ok bytes ↔
      ∃ front back, header.encode = .ok front ∧
        schema.encode limits (.struct struct) value = .ok back ∧ front ++ back = bytes := by
  simp only [encodeEnvelope, inMessage, Outcome.bind_eq_ok, Outcome.mapError_eq_ok,
    Except.ok.injEq]
  constructor
  · rintro ⟨front, isFront, back, isBack, same⟩
    exact ⟨front, back, isFront, isBack, same⟩
  · rintro ⟨front, back, isFront, isBack, same⟩
    exact ⟨front, isFront, back, isBack, same⟩

/-- An envelope never fails for want of a reply. -/
theorem encodeEnvelope_ne_noReply {header : MessageHeader} {struct : String} {value : Value}
    {name : String} :
    schema.encodeEnvelope limits header struct value ≠ .error (.noReply name) := by
  unfold encodeEnvelope inMessage
  cases header.encode with
  | error error => simp [bind, Except.bind, Except.mapError]
  | ok front =>
    cases schema.encode limits (.struct struct) value <;>
      simp [bind, Except.bind, Except.mapError]

/-- A call is the envelope of the arguments of its method. -/
theorem encodeCall_of_found {service method : String} {owner : Service} {declared : Method}
    (found : schema.findMethod service method = .ok (owner, declared)) (sequenceId : Int32)
    (value : Value) : schema.encodeCall limits service method sequenceId value =
      schema.encodeEnvelope limits
        ⟨method, if declared.oneway then .oneway else .call, sequenceId⟩ declared.argumentsStruct
        value := by
  unfold encodeCall
  rw [found]
  rfl

/-- A reply is the envelope of the result of its method, where the method has one. -/
theorem encodeReply_of_found {service method : String} {owner : Service} {declared : Method}
    (found : schema.findMethod service method = .ok (owner, declared)) (sequenceId : Int32)
    (value : Value) : schema.encodeReply limits service method sequenceId value =
      match declared.resultStruct with
      | some struct =>
        schema.encodeEnvelope limits ⟨method, .reply, sequenceId⟩ struct value
      | none => .error (.noReply method) := by
  unfold encodeReply resultStruct
  cases named : declared.resultStruct <;>
    simp [found, named, inMessage, bind, Except.bind, Except.mapError]

/-- No proper part of the front of these bytes is a message to any service, and neither is anything
that goes on behind them. -/
def DecodesOnlyWhole (schema : Schema) (limits : Limits) (bytes : Bytes) : Prop :=
  ∀ service other, other ≠ bytes → other <+: bytes ∨ bytes <+: other →
    ∀ message, schema.decodeMessage limits service other ≠ .ok message

/-- A message is a message only as a whole. -/
theorem decodesOnlyWhole_of_form {service : String} {bytes : Bytes} {message : Message}
    (formed : MessageForm schema limits service bytes message) :
    schema.DecodesOnlyWhole limits bytes := by
  intro other longer different related another decoded
  have alsoFormed := decodeMessage_eq_ok.mp decoded
  rcases related with front | front
  · exact different (alsoFormed.eq_of_prefix formed front)
  · exact different (formed.eq_of_prefix alsoFormed front).symm

/-- An envelope that is written is a header and the bytes of a value that is equal to the one that
was sent. -/
theorem exists_form_of_envelope (distinct : schema.DistinctIds) {header : MessageHeader}
    {struct : String} {value : Value} {bytes : Bytes}
    (within : (Utf8.encode header.name).length ≤ limits.stringLength) (ordered : value.Ordered)
    (valueWithin : value.Within limits)
    (written : schema.encodeEnvelope limits header struct value = .ok bytes) :
    ∃ front back result, front ++ back = bytes ∧ MessageHeader.Form limits front (.ok header) ∧
      Denotes schema limits (limits.depth + 1) (.struct struct) back result ∧
        (result == value) = true := by
  obtain ⟨front, back, isFront, isBack, same⟩ := encodeEnvelope_eq_ok.mp written
  obtain ⟨result, denotes, equal⟩ := distinct.denotes (sent_of_encode ordered valueWithin isBack)
  exact ⟨front, back, result, same, MessageHeader.form_of_encode isFront within, denotes,
    Value.beq_iff_order_eq.mpr equal⟩

section Travel

variable {sender receiver method : String} {owner : Service} {declared : Method}
  {sequenceId : Int32} {value : Value} {bytes : Bytes}

/-- A call that one service writes is a message to every service with the same method of the same
owner, and its body equals what was sent. -/
theorem exists_form_of_call (distinct : schema.DistinctIds)
    (found : schema.findMethod sender method = .ok (owner, declared))
    (alsoFound : schema.findMethod receiver method = .ok (owner, declared))
    (within : (Utf8.encode method).length ≤ limits.stringLength) (ordered : value.Ordered)
    (valueWithin : value.Within limits)
    (written : schema.encodeCall limits sender method sequenceId value = .ok bytes) :
    ∃ result, (result == value) = true ∧ MessageForm schema limits receiver bytes
      ⟨⟨method, if declared.oneway then .oneway else .call, sequenceId⟩, .arguments result⟩ := by
  rw [encodeCall_of_found found] at written
  obtain ⟨front, back, result, same, headerFormed, denotes, equal⟩ :=
    exists_form_of_envelope distinct within ordered valueWithin written
  have type : (if declared.oneway then MessageType.oneway else .call) = .call ∨
      (if declared.oneway then MessageType.oneway else .call) = .oneway := by
    cases declared.oneway <;> simp
  exact ⟨result, equal, front, back, same.symm, headerFormed, .arguments type alsoFound denotes⟩

/-- A reply that one service writes is a message to every service with the same method of the same
owner, and its body equals what was sent. -/
theorem exists_form_of_reply (distinct : schema.DistinctIds)
    (found : schema.findMethod sender method = .ok (owner, declared))
    (alsoFound : schema.findMethod receiver method = .ok (owner, declared))
    (within : (Utf8.encode method).length ≤ limits.stringLength) (ordered : value.Ordered)
    (valueWithin : value.Within limits)
    (written : schema.encodeReply limits sender method sequenceId value = .ok bytes) :
    ∃ result, (result == value) = true ∧ MessageForm schema limits receiver bytes
      ⟨⟨method, .reply, sequenceId⟩, .result result⟩ := by
  rw [encodeReply_of_found found] at written
  cases named : declared.resultStruct with
  | none => simp [named] at written
  | some struct =>
    rw [named] at written
    obtain ⟨front, back, result, same, headerFormed, denotes, equal⟩ :=
      exists_form_of_envelope distinct within ordered valueWithin written
    exact ⟨result, equal, front, back, same.symm, headerFormed, .result rfl alsoFound named denotes⟩

/-- An exception of a kind that a code stands for is written as a message to every service. -/
theorem form_of_encodeException {exception : ApplicationException} {code : Int32}
    (within : (Utf8.encode method).length ≤ limits.stringLength)
    (textWithin : ∀ text ∈ exception.text, (Utf8.encode text).length ≤ limits.stringLength)
    (kind : exception.kind = .ofCode code)
    (written : encodeException method sequenceId exception = .ok bytes) (service : String) :
    MessageForm schema limits service bytes
      ⟨⟨method, .exception, sequenceId⟩, .exception exception⟩ := by
  unfold encodeException inMessage at written
  simp only [Outcome.bind_eq_ok, Outcome.mapError_eq_ok] at written
  obtain ⟨front, isFront, back, isBack, same⟩ := written
  have coded : exception.kind = .ofCode exception.kind.code := by
    rw [kind, ExceptionKind.code_ofCode]
  have exceptionFormed := ApplicationException.form_of_encode isBack coded textWithin
  exact ⟨front, back, (Except.ok.inj same).symm, MessageHeader.form_of_encode isFront within,
    .exception rfl exceptionFormed⟩

end Travel

end Schema

/-- Messages travel intact. A call and a reply that one service writes are decoded by another one
that finds the same method of the same owner: the header names the method, its kind and the sequence
id, and the body equals what was sent. A reply fails for want of one exactly for a oneway method. An
exception of a kind that a code stands for is decoded as itself by every service. None of these
messages can be cut short or continued.

Proof: what is written has the form of a message of the receiving service, since both find the same
method; and a message is decoded exactly if its bytes have a form. A form is used up to its last
byte, so no other length of the same bytes has one. -/
theorem messages_travel_intact {documents : List Document} {schema : Schema}
    (linked : link documents = .ok schema) (limits : Limits) :
    (∀ sender receiver method owner declared,
      schema.findMethod sender method = .ok (owner, declared) →
      schema.findMethod receiver method = .ok (owner, declared) →
      (Utf8.encode method).length ≤ limits.stringLength →
      ∀ sequenceId value bytes, value.Ordered → value.Within limits →
        (schema.encodeCall limits sender method sequenceId value = .ok bytes →
          (∃ result, (result == value) = true ∧ schema.decodeMessage limits receiver bytes =
            .ok ⟨⟨method, if declared.oneway then .oneway else .call, sequenceId⟩,
              .arguments result⟩) ∧ schema.DecodesOnlyWhole limits bytes) ∧
        (schema.encodeReply limits sender method sequenceId value = .ok bytes →
          (∃ result, (result == value) = true ∧ schema.decodeMessage limits receiver bytes =
            .ok ⟨⟨method, .reply, sequenceId⟩, .result result⟩) ∧
            schema.DecodesOnlyWhole limits bytes)) ∧
    (∀ sender method owner declared, schema.findMethod sender method = .ok (owner, declared) →
      ∀ sequenceId value name,
        schema.encodeReply limits sender method sequenceId value = .error (.noReply name) ↔
          declared.oneway = true ∧ name = method) ∧
    (∀ method sequenceId exception code bytes,
      (Utf8.encode method).length ≤ limits.stringLength →
      (∀ text ∈ exception.text, (Utf8.encode text).length ≤ limits.stringLength) →
      exception.kind = .ofCode code → encodeException method sequenceId exception = .ok bytes →
        (∀ service, schema.decodeMessage limits service bytes =
          .ok ⟨⟨method, .exception, sequenceId⟩, .exception exception⟩) ∧
          schema.DecodesOnlyWhole limits bytes) := by
  have distinct : schema.DistinctIds := (linked_of_link linked).distinctIds
  refine ⟨?_, ?_, ?_⟩
  · intro sender receiver method owner declared found alsoFound within sequenceId value bytes
      ordered valueWithin
    constructor
    · intro written
      obtain ⟨result, equal, formed⟩ := Schema.exists_form_of_call distinct found alsoFound within
        ordered valueWithin written
      exact ⟨⟨result, equal, decodeMessage_eq_ok.mpr formed⟩,
        Schema.decodesOnlyWhole_of_form formed⟩
    · intro written
      obtain ⟨result, equal, formed⟩ := Schema.exists_form_of_reply distinct found alsoFound within
        ordered valueWithin written
      exact ⟨⟨result, equal, decodeMessage_eq_ok.mpr formed⟩,
        Schema.decodesOnlyWhole_of_form formed⟩
  · intro sender method owner declared found sequenceId value name
    obtain ⟨isService, isMethod⟩ := Schema.mem_of_findMethod found
    rw [← resultStruct_eq_none_iff linked isService isMethod, Schema.encodeReply_of_found found]
    cases declared.resultStruct with
    | none => simp [eq_comm]
    | some struct => simp [Schema.encodeEnvelope_ne_noReply]
  · intro method sequenceId exception code bytes within textWithin kind written
    have formed : ∀ service, MessageForm schema limits service bytes _ :=
      Schema.form_of_encodeException within textWithin kind written
    exact ⟨fun service => decodeMessage_eq_ok.mpr (formed service),
      Schema.decodesOnlyWhole_of_form (formed "")⟩

/-- A document with a clock and an alarm that is a clock. -/
def clockDocument : Document where
  path := "t.thrift"
  module := "t"
  definitions := [
    .service { name := "A", parent := some "C" },
    .service { name := "C", functions := [
      { name := "read", returns := some (.base .i64),
        arguments := [{ id := 1, name := "zones", type := .set (.base .string) }] },
      { name := "stop", oneway := true }] }]

/-- The method that tells the time in some zones. -/
def readMethod : Method where
  name := "read"
  arguments := [{ id := 1, name := "zones", type := .set .string, requiredness := .unspecified }]
  returns := some .i64
  throws := []
  oneway := false
  argumentsStruct := "t.C.read_args"
  resultStruct := some "t.C.read_result"

/-- The method that stops a clock. -/
def stopMethod : Method where
  name := "stop"
  arguments := []
  returns := none
  throws := []
  oneway := true
  argumentsStruct := "t.C.stop_args"
  resultStruct := none

/-- The service of a clock. -/
def clockService : Service where
  name := "t.C"
  parent := none
  methods := [readMethod, stopMethod]

/-- The schema of the clock. -/
def clockSchema : Schema :=
  .ofEntries [
    .struct ⟨"t.C.read_args", false, readMethod.arguments⟩,
    .struct ⟨"t.C.read_result", false, [
      { id := 0, name := "success", type := .i64, requiredness := .optional }]⟩,
    .struct ⟨"t.C.stop_args", false, []⟩]
  [
    { name := "t.A", parent := some "t.C", methods := [] },
    clockService] []

/-- The bytes of a call that asks a clock for two zones. -/
def questionBytes : Bytes :=
  [128, 1, 0, 1, 0, 0, 0, 4, 114, 101, 97, 100, 255, 255, 255, 249, 14, 0, 1, 11, 0, 0, 0, 2, 0, 0,
    0, 0, 0, 0, 0, 4, 195, 150, 115, 116, 0]

/-- The arguments of that call. -/
def question : Value := .struct [(1, .set [.string "", .string "Öst"])]

/-- The bytes of the reply. -/
def answerBytes : Bytes :=
  [128, 1, 0, 2, 0, 0, 0, 4, 114, 101, 97, 100, 255, 255, 255, 249, 10, 0, 0, 0, 0, 0, 0, 0, 0, 0,
    5, 0]

/-- The bytes of an exception that a code stands for and that has no text. -/
def exceptionBytes : Bytes :=
  [128, 1, 0, 3, 0, 0, 0, 4, 114, 101, 97, 100, 0, 0, 0, 0, 8, 0, 2, 0, 0, 0, 99, 0]

/-- A clock receives what is sent to it as an alarm: a question for two zones, and the answer. The
order to stop has no answer, and an exception of a code without a name comes with that code.

Proof: the clock document links, and the calls are encoded by evaluation. Both services find the
same declaration of the method, so the general theorem says what the receiver makes of each message.
-/
theorem clock_receives_messages :
    ((∃ result, (result == question) = true ∧ clockSchema.decodeMessage {} "t.C"
        questionBytes = .ok ⟨⟨"read", .call, -7⟩, .arguments result⟩) ∧
      clockSchema.DecodesOnlyWhole {} questionBytes) ∧
    ((∃ result, (result == .struct [(0, .i64 5)]) = true ∧ clockSchema.decodeMessage {}
        "t.C" answerBytes = .ok ⟨⟨"read", .reply, -7⟩, .result result⟩) ∧
      clockSchema.DecodesOnlyWhole {} answerBytes) ∧
    clockSchema.encodeReply {} "t.A" "stop" 1 (.struct []) = .error (.noReply "stop") ∧
    clockSchema.decodeMessage {} "t.Other" exceptionBytes =
      .ok ⟨⟨"read", .exception, 0⟩, .exception ⟨none, .other 99⟩⟩ := by
  have linked : link [clockDocument] = .ok clockSchema := by cbv
  obtain ⟨exchange, refuse, except⟩ := messages_travel_intact linked {}
  have asked : clockSchema.encodeCall {} "t.A" "read" (-7) question =
      .ok questionBytes := by cbv
  have answered : clockSchema.encodeReply {} "t.A" "read" (-7) (.struct [(0, .i64 5)]) =
      .ok answerBytes := by cbv
  have failed : encodeException "read" 0 ⟨none, .other 99⟩ = .ok exceptionBytes := by cbv
  have sender : clockSchema.findMethod "t.A" "read" = .ok (clockService, readMethod) := by
    cbv
  have receiver : clockSchema.findMethod "t.C" "read" = .ok (clockService, readMethod) := by
    cbv
  have stopped : clockSchema.findMethod "t.A" "stop" = .ok (clockService, stopMethod) := by
    cbv
  have short : (Utf8.encode "read").length ≤ Limits.stringLength {} := by decide
  have exchanged := exchange _ _ _ _ _ sender receiver short (-7)
  refine ⟨?_, ?_, ?_, ?_⟩
  · exact (exchanged question questionBytes (by decide) (by decide)).1 asked
  · exact (exchanged _ answerBytes (by decide) (by decide)).2 answered
  · exact (refuse _ _ _ _ stopped 1 (.struct []) "stop").mpr ⟨rfl, rfl⟩
  · exact (except "read" 0 ⟨none, .other 99⟩ 99 _ short (by simp) (by decide) failed).1
      "t.Other"

end SchemaCodec
