import SchemaCodec.Message.ApplicationException
import SchemaCodec.Message.Header
import SchemaCodec.Proofs.WireFormat

/-!
# The formats of message headers and application exceptions

What the readers of headers and of application exceptions accept, told without reading. A header of
either form may be read and still be no header, when its version, its name or its message type is
wrong; that outcome is part of what the bytes mean.
-/

namespace SchemaCodec

open Decoder (FieldSequence Recognises)

namespace MessageHeader

variable {limits : Limits}

/-- What a name's bytes make of a header, and what is read behind them if they are a text. -/
def NamedForm (bytes : Bytes) (behind : String → Bytes → Except MessageError MessageHeader → Prop)
    (taken : Bytes) (outcome : Except MessageError MessageHeader) : Prop :=
  match Utf8.decode? bytes with
  | none => taken = [] ∧ outcome = .error .invalidName
  | some name => behind name taken outcome

/-- The end of a header: nothing more behind an unknown message type, else a sequence id. -/
def SequenceForm (code : UInt8) (name : String) (taken : Bytes)
    (outcome : Except MessageError MessageHeader) : Prop :=
  match MessageType.ofCode? code with
  | none => taken = [] ∧ outcome = .error (.unknownMessageType code)
  | some type => ∃ sequenceId, taken = encodeInt32 sequenceId ∧
      outcome = .ok ⟨name, type, sequenceId⟩

/-- The versioned form behind its first word. -/
def VersionedForm (limits : Limits) (word : UInt32) (taken : Bytes)
    (outcome : Except MessageError MessageHeader) : Prop :=
  if word.toNat / 0x10000 ≠ version then taken = [] ∧ outcome = .error (.badVersion word)
  else ∃ bytes head tail, taken = head ++ tail ∧ LengthPrefixed limits head bytes ∧
    NamedForm bytes (SequenceForm (UInt8.ofNat word.toNat)) tail outcome

/-- The older form behind the length of the name. -/
def UnversionedForm (limits : Limits) (size : Nat) (taken : Bytes)
    (outcome : Except MessageError MessageHeader) : Prop :=
  size ≤ limits.stringLength ∧ ∃ bytes tail, taken = bytes ++ tail ∧ bytes.length = size ∧
    NamedForm bytes (fun name taken outcome => ∃ code tail, taken = code :: tail ∧
      SequenceForm code name tail outcome) tail outcome

/-- Either form, told apart by the sign of the first word. -/
def Form (limits : Limits) (taken : Bytes) (outcome : Except MessageError MessageHeader) : Prop :=
  ∃ first tail, taken = encodeInt32 first ++ tail ∧
    if first.toInt < 0 then VersionedForm limits first.toUInt32 tail outcome
    else UnversionedForm limits first.toInt.toNat tail outcome

/-- The end of a header is read as its form tells. -/
theorem recognises_sequencePart (name : String) (code : UInt8) :
    Recognises (sequencePart name code) (SequenceForm code name) := by
  unfold sequencePart SequenceForm
  cases MessageType.ofCode? code with
  | none => exact .pure _
  | some type => exact Decoder.recognises_int32.map fun sequenceId =>
      (.ok ⟨name, type, sequenceId⟩ : Except MessageError MessageHeader)

/-- A name decides whether anything is read behind it. -/
theorem recognises_named {behind : String → Bytes → Except MessageError MessageHeader → Prop}
    {next : String → Decoder (Except MessageError MessageHeader)}
    (continued : ∀ name, Recognises (next name) (behind name)) (bytes : Bytes) :
    Recognises (match Utf8.decode? bytes with
      | none => pure (.error .invalidName)
      | some name => next name) (NamedForm bytes behind) := by
  unfold NamedForm
  cases Utf8.decode? bytes with
  | none => exact .pure _
  | some name => exact continued name

/-- The versioned form is read as it is told. -/
theorem recognises_versioned (limits : Limits) (word : UInt32) :
    Recognises (versioned limits word) (VersionedForm limits word) := by
  unfold versioned VersionedForm
  by_cases other : word.toNat / 0x10000 ≠ version
  · simp only [if_pos other]
    exact .pure _
  · simp only [if_neg other]
    exact (Decoder.recognises_lengthPrefixed limits).bind
      (recognises_named fun name => recognises_sequencePart name _)

/-- The older form is read as it is told. Where the bytes left are known, a name that they cannot
hold is refused at once, but a name that is there is not.

Proof: the check in front of the name consumes nothing, so behind it the form is recognised part by
part. A successful read has passed the check, which bounds the length of the name; and where the
bytes of the form are offered, as many are left as the name has, so the check lets them pass. -/
theorem recognises_unversioned (limits : Limits) (start size : Nat) :
    Recognises (unversioned limits start size) (UnversionedForm limits size) := by
  have behindCheck : Recognises (do
      let bytes ← Decoder.payload size
      match Utf8.decode? bytes with
      | none => pure (.error .invalidName)
      | some name =>
        let code ← Decoder.uint8
        sequencePart name code) fun taken outcome => ∃ bytes tail, taken = bytes ++ tail ∧
          bytes.length = size ∧ NamedForm bytes (fun name taken outcome => ∃ code tail,
            taken = code :: tail ∧ SequenceForm code name tail outcome) tail outcome := by
    have behindName (name : String) : Recognises (do
        let code ← Decoder.uint8
        sequencePart name code) fun taken outcome => ∃ code tail, taken = code :: tail ∧
          SequenceForm code name tail outcome := by
      refine (Decoder.recognises_uint8.bind (recognises_sequencePart name)).of_iff
        fun taken outcome => ?_
      constructor
      · rintro ⟨code, _, tail, rfl, rfl, formed⟩
        exact ⟨code, tail, rfl, formed⟩
      · rintro ⟨code, tail, rfl, formed⟩
        exact ⟨code, [code], tail, rfl, rfl, formed⟩
    refine ((Decoder.recognises_payload size).bind (recognises_named behindName)).of_iff
      fun taken outcome => ?_
    constructor
    · rintro ⟨_, bytes, tail, rfl, ⟨rfl, length⟩, formed⟩
      exact ⟨bytes, tail, rfl, length, formed⟩
    · rintro ⟨bytes, tail, rfl, length, formed⟩
      exact ⟨bytes, bytes, tail, rfl, ⟨rfl, length⟩, formed⟩
  constructor
  · intro source outcome after read
    simp only [unversioned, Decoder.run_bind, Decoder.run_remaining] at read
    by_cases refused : limits.stringLength < size ∨ source.remaining?.any (· < size)
    · simp [refused] at read
    · rw [if_neg refused] at read
      obtain ⟨taken, gives, formed⟩ := behindCheck.sound read
      exact ⟨taken, gives, Nat.le_of_not_lt fun long => refused (.inl long), formed⟩
  · intro source taken outcome offers formed
    obtain ⟨within, bytes, tail, rfl, length, named⟩ := formed
    have accepted : ¬(limits.stringLength < size ∨ source.remaining?.any (· < size)) := by
      intro refused
      rcases refused with long | short
      · omega
      · obtain ⟨left, known, few⟩ := (Option.any_eq_true _ _).mp short
        have enough := offers.front.prefix_unread.length_le
        rw [← Decoder.remaining_eq_unread known] at enough
        simp only [decide_eq_true_eq] at few
        omega
    simp only [unversioned, Decoder.run_bind, Decoder.run_remaining]
    rw [if_neg accepted]
    exact behindCheck.complete offers ⟨bytes, tail, rfl, length, named⟩

/-- A header is read exactly from the bytes of either form.

Proof: the first word is read, and its sign decides which of both forms is read behind it. Each of
them is recognised. -/
theorem recognises_decoder (limits : Limits) : Recognises (decoder limits) (Form limits) := by
  refine .position_bind fun start => ?_
  have behindWord (first : Int32) : Recognises
      (if first.toInt < 0 then versioned limits first.toUInt32
        else unversioned limits start first.toInt.toNat) fun tail outcome =>
      if first.toInt < 0 then VersionedForm limits first.toUInt32 tail outcome
      else UnversionedForm limits first.toInt.toNat tail outcome := by
    by_cases negative : first.toInt < 0
    · simp only [if_pos negative]
      exact recognises_versioned limits _
    · simp only [if_neg negative]
      exact recognises_unversioned limits start _
  refine (Decoder.recognises_int32.bind behindWord).of_iff fun taken outcome => ?_
  constructor
  · rintro ⟨first, _, tail, rfl, rfl, formed⟩
    exact ⟨first, tail, rfl, formed⟩
  · rintro ⟨first, tail, rfl, formed⟩
    exact ⟨first, _, tail, rfl, rfl, formed⟩

end MessageHeader

namespace ApplicationException

/-- The value of a field of an exception: a part where both id and tag are known, else anything that
can be stepped over. -/
def PartForm (limits : Limits) (tag : WireTag) (id : Int16) (body : Bytes) (found : Option Part) :
    Prop :=
  if id = textId ∧ tag = .string then
    ∃ bytes, LengthPrefixed limits body bytes ∧
      ∃ text, Utf8.decode? bytes = some text ∧ found = some (.text text)
  else if id = codeId ∧ tag = .i32 then
    ∃ code, body = encodeInt32 code ∧ found = some (.code code)
  else Skippable limits (limits.depth + 1) tag body ∧ found = none

/-- What parts make of an exception without any: each of them in turn replaces the one before. -/
def ofParts (parts : List (Int16 × Part)) : ApplicationException :=
  parts.foldl (fun held (_, part) => held.update part) ⟨none, .unknown⟩

/-- An exception on the wire: the parts in a field sequence. -/
def Form (limits : Limits) (taken : Bytes) (exception : ApplicationException) : Prop :=
  ∃ parts, FieldSequence (PartForm limits) taken parts ∧ exception = ofParts parts

/-- The value of a field is read as it is told.

Proof: by id and tag of the field. The text and the code are recognised by the decoders of their
types, and whatever else stands there is stepped over by its tag. -/
theorem recognises_part (limits : Limits) (header : Decoder.FieldHeader) :
    Recognises (part limits header) (PartForm limits header.tag header.id) := by
  unfold part PartForm
  by_cases text : header.id = textId ∧ header.tag = .string
  · simp only [if_pos text]
    refine .position_bind fun start => ?_
    refine Recognises.finish (fun bytes found => ∃ text, Utf8.decode? bytes = some text ∧
      found = some (Part.text text)) (Decoder.recognises_lengthPrefixed limits) fun bytes => ?_
    cases known : Utf8.decode? bytes with
    | none => exact (Recognises.fail _ start).of_iff fun _ _ => by simp
    | some text => exact (Recognises.pure _).of_iff fun _ _ => by simp
  · simp only [if_neg text]
    by_cases code : header.id = codeId ∧ header.tag = .i32
    · simp only [if_pos code]
      exact Decoder.recognises_int32.map fun code => some (Part.code code)
    · simp only [if_neg code]
      have skipped := Decoder.recognises_skipWithin limits (limits.depth + 1) header.tag
      refine ((skipped.within (.field header.id)).map fun _ => none).of_iff fun body found => ?_
      simp

/-- An exception is read exactly from the bytes of its form. -/
theorem recognises_decoder (limits : Limits) : Recognises (decoder limits) (Form limits) :=
  (Decoder.recognises_fields (recognises_part limits)).map ofParts

end ApplicationException

end SchemaCodec
