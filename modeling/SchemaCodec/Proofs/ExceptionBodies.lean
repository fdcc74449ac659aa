import SchemaCodec.Proofs.LooserLimits
import SchemaCodec.Proofs.MessageEnvelopes
import SchemaCodec.Proofs.SeenOnce
import SchemaCodec.Proofs.SkipAgreement

/-!
# Application exceptions as structs

The body of an exception message is a struct of two optional fields, and its reader has a loop of
its own beside the one for structs. Both get through the same rows of fields and both keep the last
text and the last code. They differ in where they start to count levels: the reader of exceptions
starts anew with each field that it steps over, while in a struct the fields are one level down
already. So under the same limits exceptions may be nested one level deeper than structs of the same
fields.

The two are compared on the format: the forms of their fields are the same, field by field, when the
struct is read under limits that are one level deeper.
-/

namespace SchemaCodec

open Decoder (FieldRow FieldSequence Recognises WireField)

/-- Limits that are one level deeper. Lengths and counts are limited as before. -/
def Limits.deeper (limits : Limits) : Limits := { limits with depth := limits.depth + 1 }

/-- Deeper limits are looser. -/
theorem Limits.atMost_deeper (limits : Limits) : limits.AtMost limits.deeper :=
  ⟨Nat.le_succ limits.depth, Nat.le_refl _, Nat.le_refl _⟩

/-- What can be stepped over within so many levels does not depend on the limit on depth. -/
theorem skippable_deeper (limits : Limits) (levels : Nat) :
    Skippable limits.deeper levels = Skippable limits levels := by
  have layer (below : WireTag → Bytes → Prop) :
      SkippableLayer limits.deeper below = SkippableLayer limits below := by
    funext tag taken
    cases tag <;> rfl
  induction levels with
  | zero => rfl
  | succ levels inductionHypothesis =>
    rw [Skippable, Skippable, inductionHypothesis, layer]

namespace Source

variable {source after behind : Source} {taken : Bytes}

/-- Where the same bytes are taken, the same place is reached. -/
theorem Gives.same_place (gives : source.Gives taken after)
    (givesAlso : source.Gives taken behind) :
    after.position = behind.position ∧ after.unread = behind.unread :=
  ⟨gives.position.trans givesAlso.position.symm,
    List.append_cancel_left (gives.unread.symm.trans givesAlso.unread)⟩

/-- A source that fails at its end only offers again what was taken. -/
theorem Unfailing.offers_taken (unfailing : source.Unfailing) (gives : source.Gives taken after) :
    source.Offers taken :=
  offers_in_part unfailing.offers ⟨after.unread, gives.unread.symm⟩

end Source

namespace Decoder

/-- A row of fields in which something else is found in each field. -/
theorem FieldRow.refound {form : WireTag → Int16 → Bytes → Option α → Prop}
    {other : WireTag → Int16 → Bytes → Option β → Prop} {row : List (WireField α)} {taken : Bytes}
    {result : List (Int16 × α)} (formed : FieldRow form row taken result)
    (found : WireField α → Option β)
    (each : ∀ field ∈ row, other field.tag field.id field.body (found field)) :
    FieldSequence other taken (row.filterMap fun field => (found field).map (field.id, ·)) := by
  refine ⟨row.map fun field => ⟨field.tag, field.id, field.body, found field⟩, ?_, ?_, ?_⟩
  · intro field member
    obtain ⟨origin, present, rfl⟩ := List.mem_map.mp member
    exact ⟨(formed.each origin present).1, each origin present⟩
  · rw [List.flatMap_map]
    exact formed.bytes
  · rw [List.filterMap_map]
    rfl

/-- The ids of the fields in a row, each with its tag. -/
def fieldTags (limits : Limits) : Decoder (List (Int16 × WireTag)) :=
  fields fun header => do
    within (.field header.id) (skipValue limits header.tag)
    pure (some header.tag)

/-- The tags in a row are told where each of its fields can be stepped over. -/
theorem recognises_fieldTags (limits : Limits) : Recognises (fieldTags limits)
    (FieldSequence fun tag _ body found =>
      Skippable limits (limits.depth + 1) tag body ∧ found = some tag) := by
  refine recognises_fields fun header => ?_
  have skipped := recognises_skipWithin limits (limits.depth + 1) header.tag
  refine ((skipped.within (.field header.id)).map fun _ => some header.tag).of_iff
    fun body found => ?_
  simp

end Decoder

namespace ApplicationException

/-- The fields of a struct like the body of an exception message. -/
def bodyFields : List Field := [
  { id := 1, name := "message", type := .string, requiredness := .optional },
  { id := 2, name := "type", type := .i32, requiredness := .optional }]

/-- In the row of fields that comes next, if there is one, fields with the ids of the parts of an
exception have the tags of these parts. -/
def WellTagged (limits : Limits) (source : Source) : Prop :=
  ∀ tags after, (Decoder.fieldTags limits).run source = (.ok tags, after) →
    ∀ field ∈ tags, (field.1 = textId → field.2 = .string) ∧ (field.1 = codeId → field.2 = .i32)

/-- An exception and a struct have the same text and the same code, which is 0 where there is
none. -/
structure AgreesWith (exception : ApplicationException) (fields : Value.Fields) : Prop where
  text : fields.get? textId = exception.text.map .string
  code : (fields.get? codeId).getD (.i32 0) = .i32 exception.kind.code

/-- An exception is read under some limits, and a struct under others, from the same bytes, and they
agree. -/
def ReadAlike (schema : Schema) (name : String) (limits others : Limits) (source : Source) : Prop :=
  ∃ exception after fields behind,
    (decoder limits).run source = (.ok exception, after) ∧
      (Decoder.value schema others (.struct name)).run source = (.ok (.struct fields), behind) ∧
        after.position = behind.position ∧ after.unread = behind.unread ∧
          exception.AgreesWith fields

section Parts

/-- The id of the field that has a part. -/
def Part.id : Part → Int16
  | .text _ => textId
  | .code _ => codeId

/-- The value that a part is in a struct. -/
def Part.value : Part → Value
  | .text content => .string content
  | .code number => .i32 number

/-- A part counts in an exception as its value counts in a struct. -/
theorem AgreesWith.update {exception : ApplicationException} {fields : Value.Fields}
    (agrees : exception.AgreesWith fields) (part : Part) :
    (exception.update part).AgreesWith (fields.insert part.id part.value) := by
  have other : textId ≠ codeId := by decide
  cases part with
  | text text =>
    constructor
    · simp [Part.id, Part.value, ApplicationException.update, Value.Fields.get?_insert]
    · simpa [Part.id, ApplicationException.update, Value.Fields.get?_insert, other]
        using agrees.code
  | code code =>
    constructor
    · simpa [Part.id, ApplicationException.update, Value.Fields.get?_insert, other.symm]
        using agrees.text
    · simp [Part.id, Part.value, ApplicationException.update, Value.Fields.get?_insert,
        ExceptionKind.code_ofCode]

/-- Parts make an exception as their values make a struct: of each the last one counts. The
induction is on the parts that are still to come. -/
theorem agrees_ofParts {parts : List (Int16 × Part)} (named : ∀ part ∈ parts, part.1 = part.2.id) :
    (ofParts parts).AgreesWith (.ofList (parts.map fun part => (part.1, part.2.value))) := by
  have step (exception : ApplicationException) (fields : Value.Fields)
      (agrees : exception.AgreesWith fields) :
      (parts.foldl (fun held part => held.update part.2) exception).AgreesWith
        ((parts.map fun part => (part.1, part.2.value)).foldl
          (fun held field => held.insert field.1 field.2) fields) := by
    induction parts generalizing exception fields with
    | nil => exact agrees
    | cons part rest inductionHypothesis =>
      obtain ⟨here, others⟩ := List.forall_mem_cons.mp named
      have updated := agrees.update part.2
      rw [← here] at updated
      exact inductionHypothesis others _ _ updated
  exact step ⟨none, .unknown⟩ [] ⟨rfl, rfl⟩

end Parts

section Forms

variable {schema : Schema} {declared : List Field} {limits : Limits} {tag : WireTag} {id : Int16}
  {body : Bytes}

/-- What a struct like an exception declares under an id. -/
theorem fieldById?_of_perm (shape : declared.Perm bodyFields) (id : Int16) :
    fieldById? declared id = fieldById? bodyFields id := by
  have distinct : (bodyFields.map Field.id).Nodup := by decide
  exact find?_key_perm distinct shape.symm id

/-- Nothing else is declared in a struct like an exception. -/
theorem fieldById?_eq_none (isText : id ≠ textId) (isCode : id ≠ codeId) :
    fieldById? bodyFields id = none := by
  have notText : ¬(1 : Int16) = id := Ne.symm isText
  have notCode : ¬(2 : Int16) = id := Ne.symm isCode
  simp [fieldById?, bodyFields, notText, notCode]

/-- What a field of a struct like an exception holds, one level down, under deeper limits. -/
abbrev BodyFieldForm (schema : Schema) (declared : List Field) (limits : Limits) :
    WireTag → Int16 → Bytes → Option Value → Prop :=
  FieldForm schema declared (Denotes schema limits.deeper (limits.depth + 1))
    (Skippable limits.deeper (limits.depth + 1))

/-- What a field is for an exception: its text, its code, or something else that can be stepped
over. -/
theorem PartForm.cases {found : Option Part} (formed : PartForm limits tag id body found) :
    (id = textId ∧ tag = .string ∧ ∃ bytes text, LengthPrefixed limits body bytes ∧
      Utf8.decode? bytes = some text ∧ found = some (.text text)) ∨
    (id = codeId ∧ tag = .i32 ∧ ∃ code, body = encodeInt32 code ∧ found = some (.code code)) ∨
    (¬(id = textId ∧ tag = .string) ∧ ¬(id = codeId ∧ tag = .i32) ∧
      Skippable limits (limits.depth + 1) tag body ∧ found = none) := by
  unfold PartForm at formed
  split at formed
  · next isText =>
      obtain ⟨bytes, lengthPrefixed, text, known, same⟩ := formed
      exact .inl ⟨isText.1, isText.2, bytes, text, lengthPrefixed, known, same⟩
  · next notText =>
      split at formed
      · next isCode => exact .inr (.inl ⟨isCode.1, isCode.2, formed⟩)
      · next notCode => exact .inr (.inr ⟨notText, notCode, formed⟩)

/-- A part of an exception is a field of the struct, if its tag is right. -/
theorem fieldForm_of_part (shape : declared.Perm bodyFields) {found : Option Part}
    (tagged : (id = textId → tag = .string) ∧ (id = codeId → tag = .i32))
    (formed : PartForm limits tag id body found) :
    BodyFieldForm schema declared limits tag id body (found.map Part.value) := by
  unfold BodyFieldForm FieldForm
  rw [fieldById?_of_perm shape]
  rcases formed.cases with ⟨rfl, rfl, bytes, text, lengthPrefixed, known, rfl⟩ |
    ⟨rfl, rfl, code, rfl, rfl⟩ | ⟨notText, notCode, skippable, rfl⟩
  · exact ⟨rfl, _, ⟨.string, rfl, bytes, lengthPrefixed, text, known, rfl⟩, rfl⟩
  · exact ⟨rfl, _, ⟨.i32, rfl, code, rfl, rfl⟩, rfl⟩
  · have otherText : id ≠ textId := fun isText => notText ⟨isText, tagged.1 isText⟩
    have otherCode : id ≠ codeId := fun isCode => notCode ⟨isCode, tagged.2 isCode⟩
    rw [fieldById?_eq_none otherText otherCode, skippable_deeper]
    exact ⟨skippable, rfl⟩

/-- A field of the struct is a part of an exception, or nothing of it.

Proof: by the id of the field. The two declared ids have the types of the text and of the code, so
tag and value are those of a part; every other id is unknown to the struct and is stepped over, as
the exception does. -/
theorem part_of_fieldForm (shape : declared.Perm bodyFields) {read : Option Value}
    (formed : BodyFieldForm schema declared limits tag id body read) :
    ∃ found, PartForm limits tag id body found ∧ read = found.map Part.value := by
  unfold BodyFieldForm FieldForm at formed
  rw [fieldById?_of_perm shape] at formed
  by_cases isText : id = textId
  · obtain rfl := isText
    obtain ⟨isTag, _, ⟨type, followed, denotes⟩, rfl⟩ := formed
    obtain rfl : .string = tag := Except.ok.inj isTag
    obtain rfl : .string = type := Except.ok.inj followed
    obtain ⟨bytes, lengthPrefixed, text, known, rfl⟩ := denotes
    exact ⟨some (.text text), ⟨bytes, lengthPrefixed, text, known, rfl⟩, rfl⟩
  · by_cases isCode : id = codeId
    · obtain rfl := isCode
      obtain ⟨isTag, _, ⟨type, followed, denotes⟩, rfl⟩ := formed
      obtain rfl : .i32 = tag := Except.ok.inj isTag
      obtain rfl : .i32 = type := Except.ok.inj followed
      obtain ⟨code, rfl, rfl⟩ := denotes
      exact ⟨some (.code code), ⟨code, rfl, rfl⟩, rfl⟩
    · rw [fieldById?_eq_none isText isCode, skippable_deeper] at formed
      obtain ⟨skippable, rfl⟩ := formed
      refine ⟨none, ?_, rfl⟩
      rw [PartForm, if_neg fun both => isText both.1, if_neg fun both => isCode both.1]
      exact ⟨skippable, rfl⟩

/-- A part is found under its id. -/
theorem PartForm.id_eq {part : Part} (formed : PartForm limits tag id body (some part)) :
    id = part.id := by
  rcases formed.cases with ⟨rfl, -, _, text, -, -, same⟩ | ⟨rfl, -, code, -, same⟩ | ⟨-, -, -, none⟩
  · rw [Option.some.inj same, Part.id]
  · rw [Option.some.inj same, Part.id]
  · simp at none

/-- What is read as a part can be stepped over by its tag. -/
theorem PartForm.skippable {found : Option Part} (formed : PartForm limits tag id body found) :
    Skippable limits (limits.depth + 1) tag body := by
  rcases formed.cases with ⟨-, rfl, bytes, _, lengthPrefixed, -⟩ | ⟨-, rfl, code, rfl, -⟩ |
    ⟨-, -, skippable, -⟩
  · exact ⟨bytes, lengthPrefixed⟩
  · exact length_encodeInt32 code
  · exact skippable

/-- The parts in a row stand under their own ids. -/
theorem id_of_mem_parts {row : List (WireField Part)} {taken : Bytes} {parts : List (Int16 × Part)}
    (formed : FieldRow (PartForm limits) row taken parts) :
    ∀ part ∈ parts, part.1 = part.2.id := by
  intro part member
  rw [formed.kept] at member
  obtain ⟨field, present, kept⟩ := List.mem_filterMap.mp member
  obtain ⟨content, found, rfl⟩ := Option.map_eq_some_iff.mp kept
  have here := (formed.each field present).2
  rw [found] at here
  exact here.id_eq

end Forms

section Bodies

variable {schema : Schema} {name : String} {declared : StructType} {limits : Limits}
  {taken : Bytes}

/-- A struct of optional fields lacks none of them. -/
theorem missingRequired?_of_perm (shape : declared.fields.Perm bodyFields) (fields : Value.Fields) :
    Schema.missingRequired? declared.fields fields.contains = none := by
  have optional (field : Field) (member : field ∈ declared.fields) :
      field.requiredness = .optional := by
    have isBody := shape.mem_iff.mp member
    simp only [bodyFields, List.mem_cons, List.not_mem_nil, or_false] at isBody
    rcases isBody with rfl | rfl <;> rfl
  unfold Schema.missingRequired?
  rw [List.find?_eq_none]
  intro field member
  simp [optional field member]

/-- The bytes of an exception whose parts have the right tags denote a struct that agrees with it,
one level deeper.

Proof: the exception and the struct are read from one row of fields. Each field of the row has the
form that the struct asks of it, because its tag is the declared one by the premise, and keeping the
values field by field gives the fields of the struct. -/
theorem denotes_of_form (known : schema.structType name = .ok declared)
    (shape : declared.fields.Perm bodyFields) {exception : ApplicationException}
    (formed : Form limits taken exception)
    (tagged : ∀ tags, FieldSequence (fun tag _ body found =>
        Skippable limits (limits.depth + 1) tag body ∧ found = some tag) taken tags →
      ∀ field ∈ tags,
        (field.1 = textId → field.2 = .string) ∧ (field.1 = codeId → field.2 = .i32)) :
    ∃ fields, Denotes schema limits.deeper (limits.deeper.depth + 1) (.struct name) taken
      (.struct fields) ∧ exception.AgreesWith fields := by
  obtain ⟨parts, ⟨row, formedRow⟩, rfl⟩ := formed
  have tags : FieldSequence (fun tag _ body found =>
      Skippable limits (limits.depth + 1) tag body ∧ found = some tag) taken _ :=
    formedRow.refound (fun field => some field.tag)
      fun field member => ⟨(formedRow.each field member).2.skippable, rfl⟩
  have read : FieldSequence (BodyFieldForm schema declared.fields limits) taken _ :=
    formedRow.refound (fun field => field.found.map Part.value)
      fun field member => fieldForm_of_part shape
        (tagged _ tags (field.id, field.tag) (List.mem_filterMap.mpr ⟨field, member, rfl⟩))
        (formedRow.each field member).2
  have values : row.filterMap (fun field => (field.found.map Part.value).map (field.id, ·)) =
      parts.map fun part => (part.1, part.2.value) := by
    rw [formedRow.kept, List.map_filterMap]
    refine List.filterMap_congr fun field _ => ?_
    rw [WireField.kept, Option.map_map, Option.map_map]
    rfl
  rw [values] at read
  exact ⟨_, ⟨.struct name, rfl, declared, known, _, read, missingRequired?_of_perm shape _, rfl⟩,
    agrees_ofParts (id_of_mem_parts formedRow)⟩

/-- The bytes that denote a struct, one level deeper, are those of an exception that agrees with it.

Proof: each field of the row that the struct reads is a part of an exception or nothing of it.
Choosing these parts gives the same row as the exception reads it, and the values that are kept
agree. -/
theorem form_of_denotes (known : schema.structType name = .ok declared)
    (shape : declared.fields.Perm bodyFields) {value : Value}
    (denotes : Denotes schema limits.deeper (limits.deeper.depth + 1) (.struct name) taken value) :
    ∃ exception fields, Form limits taken exception ∧ value = .struct fields ∧
      exception.AgreesWith fields := by
  obtain ⟨_, followed, layer⟩ := denotes
  obtain rfl := Except.ok.inj followed
  obtain ⟨alsoDeclared, alsoKnown, read, ⟨row, formedRow⟩, -, rfl⟩ := layer
  obtain rfl := Except.ok.inj (known.symm.trans alsoKnown)
  have each (field : WireField Value) (member : field ∈ row) :=
    part_of_fieldForm shape (formedRow.each field member).2
  choose! found parted valued using each
  obtain ⟨others, formedParts⟩ := formedRow.refound found parted
  have values : read = (row.filterMap fun field => (found field).map (field.id, ·)).map
      fun part => (part.1, part.2.value) := by
    rw [formedRow.kept, List.map_filterMap]
    refine List.filterMap_congr fun field member => ?_
    rw [WireField.kept, valued field member, Option.map_map, Option.map_map]
    rfl
  rw [values]
  exact ⟨_, _, ⟨_, ⟨others, formedParts⟩, rfl⟩, rfl, agrees_ofParts (id_of_mem_parts formedParts)⟩

variable {source after behind : Source}

/-- Where an exception is read whose parts have the right tags, so is a struct, one level deeper. -/
theorem exists_struct_read (known : schema.structType name = .ok declared)
    (shape : declared.fields.Perm bodyFields) (unfailing : source.Unfailing)
    (wellTagged : WellTagged limits source) {exception : ApplicationException}
    (read : (decoder limits).run source = (.ok exception, after)) : ∃ fields behind,
      (Decoder.value schema limits.deeper (.struct name)).run source =
        (.ok (.struct fields), behind) ∧
          after.position = behind.position ∧ after.unread = behind.unread ∧
            exception.AgreesWith fields := by
  obtain ⟨taken, gives, formed⟩ := (recognises_decoder limits).sound read
  have offers := unfailing.offers_taken gives
  obtain ⟨fields, denotes, agrees⟩ := denotes_of_form known shape formed fun tags formedTags => by
    obtain ⟨last, told, -⟩ := (Decoder.recognises_fieldTags limits).complete offers formedTags
    exact wellTagged tags last told
  obtain ⟨behind, readAlso, givesAlso⟩ :=
    (Decoder.recognises_valueWithin schema limits.deeper _ (.struct name)).complete offers denotes
  obtain ⟨samePosition, sameUnread⟩ := gives.same_place givesAlso
  exact ⟨fields, behind, readAlso, samePosition, sameUnread, agrees⟩

/-- Where a struct is read, so is an exception for which the limits are one level less deep. -/
theorem exists_exception_read (known : schema.structType name = .ok declared)
    (shape : declared.fields.Perm bodyFields) (unfailing : source.Unfailing) {value : Value}
    (read : (Decoder.value schema limits.deeper (.struct name)).run source =
      (.ok value, behind)) : ∃ exception after fields, value = .struct fields ∧
        (decoder limits).run source = (.ok exception, after) ∧
          after.position = behind.position ∧ after.unread = behind.unread ∧
            exception.AgreesWith fields := by
  obtain ⟨taken, gives, denotes⟩ :=
    (Decoder.recognises_valueWithin schema limits.deeper _ (.struct name)).sound read
  obtain ⟨exception, fields, formed, rfl, agrees⟩ := form_of_denotes known shape denotes
  obtain ⟨after, readAlso, givesAlso⟩ :=
    (recognises_decoder limits).complete (unfailing.offers_taken gives) formed
  obtain ⟨samePosition, sameUnread⟩ := givesAlso.same_place gives
  exact ⟨exception, after, fields, rfl, readAlso, samePosition, sameUnread, agrees⟩

end Bodies

end ApplicationException

open ApplicationException

/-- Exceptions are read like structs of the same fields, but one level deeper. From any source that
fails at its end only, a struct of the optional fields of an exception is read under limits that are
one level deeper exactly where an exception is read, as long as fields with the ids of its parts
have the right tags; then both stop at the same place, with the same text and the same code. Without
any regard to tags, whatever is read as such a struct under the same limits is read as an exception.

Proof: both readers go through the same row of fields. Text and code are read in the same way, and
every other field is skipped, by the exception from the outermost level again and by the struct one
level below. So with one level more, what is skipped by one is skipped by the other; the third part
follows since looser limits accept what stricter ones do. -/
theorem exceptions_are_read_one_level_deeper {schema : Schema} {name : String}
    {declared : StructType} (known : schema.structType name = .ok declared)
    (shape : declared.fields.Perm bodyFields) (limits : Limits) {source : Source}
    (unfailing : source.Unfailing) :
    (WellTagged limits source → ∀ exception after,
      (decoder limits).run source = (.ok exception, after) →
        ReadAlike schema name limits limits.deeper source) ∧
    (∀ value behind,
      (Decoder.value schema limits.deeper (.struct name)).run source = (.ok value, behind) →
        ReadAlike schema name limits limits.deeper source) ∧
    (∀ value behind, (Decoder.value schema limits (.struct name)).run source = (.ok value, behind) →
      ReadAlike schema name limits limits source) := by
  refine ⟨fun wellTagged exception after read => ?_, fun value behind read => ?_,
    fun value behind read => ?_⟩
  · obtain ⟨fields, behind, readAlso, samePlace⟩ :=
      exists_struct_read known shape unfailing wellTagged read
    exact ⟨exception, after, fields, behind, read, readAlso, samePlace⟩
  · obtain ⟨exception, after, fields, rfl, readAlso, samePlace⟩ :=
      exists_exception_read known shape unfailing read
    exact ⟨exception, after, fields, behind, readAlso, read, samePlace⟩
  · have deeper := Decoder.upheld_value limits.atMost_deeper schema _ source value behind read
    obtain ⟨exception, after, fields, rfl, readAlso, samePlace⟩ :=
      exists_exception_read known shape unfailing deeper
    exact ⟨exception, after, fields, behind, readAlso, read, samePlace⟩

/-- A document with a struct like an exception. -/
def failureDocument : Document where
  path := "f.thrift"
  module := "f"
  definitions := [
    .struct { name := "Failure", fields := [
      { id := 1, name := "message", requiredness := .optional, type := .base .string },
      { id := 2, name := "type", requiredness := .optional, type := .base .i32 }] }]

/-- The schema of this document. -/
def failureSchema : Schema :=
  .ofEntries [.struct ⟨"f.Failure", false, bodyFields⟩] [] []

/-- The document links. -/
theorem link_failureDocument : link [failureDocument] = .ok failureSchema := by cbv

/-- A failure with the code 7, behind an unknown field: a list of one truth value. -/
def failureBytes : Bytes :=
  [15, 0, 3, 2, 0, 0, 0, 1, 1] ++ [8, 0, 2, 0, 0, 0, 7] ++ [0]

/-- Limits that allow for one level below the outermost one. -/
def oneLevel : Limits := { depth := 1 }

/-- The code of the failure has the right tag. -/
theorem failureBytes_wellTagged : WellTagged oneLevel (.ofBytes failureBytes) := by
  intro tags after told
  have expected : (Decoder.fieldTags oneLevel).run (.ofBytes failureBytes) =
      (.ok [(3, .list), (2, .i32)], ⟨17, .slice []⟩) := by rfl
  rw [expected] at told
  obtain rfl := Except.ok.inj (congrArg Prod.fst told)
  decide

/-- The failure is read as an exception with one level to go down, and alike as a struct with
two. -/
theorem failure_is_read_one_level_deeper :
    link [failureDocument] = .ok failureSchema ∧ WellTagged oneLevel (.ofBytes failureBytes) ∧
      ReadAlike failureSchema "f.Failure" oneLevel oneLevel.deeper (.ofBytes failureBytes) := by
  have known : failureSchema.structType "f.Failure" = .ok ⟨"f.Failure", false, bodyFields⟩ := rfl
  have unfailing : (Source.ofBytes failureBytes).Unfailing := trivial
  obtain ⟨alike, -, -⟩ :=
    exceptions_are_read_one_level_deeper known (List.Perm.refl _) oneLevel unfailing
  have read : (decoder oneLevel).run (.ofBytes failureBytes) =
      (.ok ⟨none, .protocolError⟩, ⟨17, .slice []⟩) := by rfl
  exact ⟨link_failureDocument, failureBytes_wellTagged, alike failureBytes_wellTagged _ _ read⟩

/-- With one level to go down, the failure is read as an exception, but not as a struct: the element
of the unknown list is on the second level of the struct, and on the first one below the field. -/
theorem exceptions_reach_below_structs :
    link [failureDocument] = .ok failureSchema ∧
      failureSchema.structType "f.Failure" = .ok ⟨"f.Failure", false, bodyFields⟩ ∧
      WellTagged oneLevel (.ofBytes failureBytes) ∧
      (decoder oneLevel).run (.ofBytes failureBytes) =
        (.ok ⟨none, .protocolError⟩, ⟨17, .slice []⟩) ∧
      (Decoder.value failureSchema oneLevel (.struct "f.Failure")).run (.ofBytes failureBytes) =
        (.error ⟨.depthLimitExceeded 1, 8, [.field 3, .index 0]⟩,
          ⟨8, .slice (failureBytes.drop 8)⟩) :=
  ⟨link_failureDocument, rfl, failureBytes_wellTagged, by rfl, by rfl⟩

end SchemaCodec
