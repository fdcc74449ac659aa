import SchemaCodec.Proofs.Pairing
import SchemaCodec.Proofs.Projection
import SchemaCodec.Proofs.Skipping
import SchemaCodec.Proofs.ValueEquality
import SchemaCodec.Proofs.Writing

/-!
# From the writer to the reader

A writer's bytes denote, for a reader that agrees with the writer on the types that it knows, what
the reader's schema leaves of the value. The two walk over the same type level by level: what the
writer wrote for a value is, one level down, what it wrote for the parts, and the reader takes the
parts apart at the same places. A field that only the writer declares is stepped over by its tag.
-/

namespace SchemaCodec

open Schema (FieldWritten WritesLayer FitsLayer inOrder)

/-- The bytes that a writer gives for an ordered value that has no more levels than the reader
follows, and throughout which a condition holds. -/
structure Sent (schema : Schema) (condition : Value → Prop) (limit levels : Nat) (type : DataType)
    (bytes : Bytes) (value : Value) : Prop where
  fits : ∃ depth, limit < levels + depth ∧ schema.checkValue limit value type depth = .ok ()
  written : schema.encodeValue value type = .ok bytes
  ordered : value.Ordered
  holds : value.Throughout condition

section Layer

variable {schema : Schema} {condition : Value → Prop} {limit levels : Nat}

/-- A part of a value that is sent is sent one level below. -/
theorem Sent.part {depth : Nat} {type : DataType} {bytes : Bytes} {part : Value}
    (deep : limit < levels + 1 + depth)
    (fits : schema.checkValue limit part type (depth + 1) = .ok ())
    (written : schema.encodeValue part type = .ok bytes) (ordered : part.Ordered)
    (holds : part.Throughout condition) :
    Sent schema condition limit levels type bytes part :=
  ⟨⟨depth + 1, by omega, fits⟩, written, ordered, holds⟩

/-- Nothing is sent to a reader that follows no levels. -/
theorem Sent.not_zero {type : DataType} {bytes : Bytes} {value : Value} :
    ¬Sent schema condition limit 0 type bytes value := by
  intro sent
  obtain ⟨depth, deep, fits⟩ := sent.fits
  have shallow := (Schema.checkValue_eq_ok.mp fits).1
  omega

/-- The items of a list or set that is sent are sent one level below it. -/
theorem Sent.items {depth : Nat} {element : DataType} {body : Bytes} {items : List Value}
    (deep : limit < levels + 1 + depth)
    (written : Numbered (fun piece item => schema.encodeValue item element = .ok piece) body items)
    (fits : ∀ item ∈ items, schema.checkValue limit item element (depth + 1) = .ok ())
    (ordered : ∀ item ∈ items, item.Ordered) (holds : ∀ item ∈ items, item.Throughout condition) :
    Numbered (Sent schema condition limit levels element) body items :=
  written.imp_of_mem fun _ item member itemWritten =>
    .part deep (fits item member) itemWritten (ordered item member) (holds item member)

/-- The keys and values of a map that is sent are sent one level below it. -/
theorem Sent.entries {depth : Nat} {keyType valueType : DataType} {body : Bytes}
    {entries : List (Value × Value)} (deep : limit < levels + 1 + depth)
    (written : Numbered (fun piece entry =>
      Joined (fun head => schema.encodeValue entry.1 keyType = .ok head)
        (fun tail => schema.encodeValue entry.2 valueType = .ok tail) piece) body entries)
    (fits : ∀ entry ∈ entries, schema.checkValue limit entry.1 keyType (depth + 1) = .ok () ∧
      schema.checkValue limit entry.2 valueType (depth + 1) = .ok ())
    (ordered : ∀ entry ∈ entries, entry.1.Ordered ∧ entry.2.Ordered)
    (holds : ∀ entry ∈ entries, entry.1.Throughout condition ∧ entry.2.Throughout condition) :
    Numbered (fun piece entry =>
      Joined (Sent schema condition limit levels keyType · entry.1)
        (Sent schema condition limit levels valueType · entry.2) piece) body entries := by
  refine written.imp_of_mem fun piece entry member joined => ?_
  obtain ⟨keyFits, valueFits⟩ := fits entry member
  obtain ⟨keyOrdered, valueOrdered⟩ := ordered entry member
  obtain ⟨keyHolds, valueHolds⟩ := holds entry member
  exact joined.imp (fun keyWritten => .part deep keyFits keyWritten keyOrdered keyHolds)
    fun valueWritten => .part deep valueFits valueWritten valueOrdered valueHolds

/-- The value of a field of a struct or union that is sent is sent one level below it. -/
theorem Sent.field {depth : Nat} {declared : List Field} {piece : Bytes} {field : Int16 × Value}
    (deep : limit < levels + 1 + depth)
    (written : FieldWritten schema declared
      (fun type bytes value => schema.encodeValue value type = .ok bytes) piece field)
    (fits : ∃ found, fieldById? declared field.1 = some found ∧
      schema.checkValue limit field.2 found.type (depth + 1) = .ok ())
    (ordered : field.2.Ordered) (holds : field.2.Throughout condition) :
    FieldWritten schema declared (Sent schema condition limit levels) piece field := by
  obtain ⟨found, tag, body, known, tagged, bodyWritten, rfl⟩ := written
  obtain ⟨_, alsoKnown, bodyFits⟩ := fits
  obtain rfl := Option.some.inj (known.symm.trans alsoKnown)
  exact ⟨found, tag, body, known, tagged, .part deep bodyFits bodyWritten ordered holds, rfl⟩

/-- What is sent for a value is what is sent for its parts, one level below.

Proof: what the writer wrote and what its check accepted are both told of one layer, and both find
the same type behind all typedefs, the same declaration and the same fields in it. The cases are
those of the value; its order and the condition pass to its parts with it. -/
theorem Sent.layer {type : DataType} {bytes : Bytes} {value : Value}
    (sent : Sent schema condition limit (levels + 1) type bytes value) :
    ∃ behind, schema.canonical type = .ok behind ∧
      WritesLayer schema (Sent schema condition limit levels) value behind bytes ∧
        FitsLayer schema (fun _ _ => True) value behind := by
  obtain ⟨⟨depth, deep, fits⟩, written, ordered, holds⟩ := sent
  obtain ⟨behind, followed, writes⟩ := Schema.encodeValue_eq_ok.mp written
  obtain ⟨-, other, same, fits⟩ := Schema.checkValue_eq_ok.mp fits
  obtain rfl := Except.ok.inj (same.symm.trans followed)
  refine ⟨other, followed, ?_⟩
  cases value with
  | bool | byte | i16 | i32 | i64 | double | string | binary | enum => exact ⟨writes, fits⟩
  | list items =>
    obtain ⟨element, tag, body, rfl, tagged, numbered, rfl⟩ := writes
    obtain ⟨_, same, fits⟩ := fits
    obtain rfl := DataType.list.inj same
    have parts := Sent.items deep numbered fits (Value.throughout_list.mp ordered).2
      (Value.throughout_list.mp holds).2
    exact ⟨⟨element, tag, body, rfl, tagged, parts, rfl⟩, element, rfl, by simp⟩
  | set elements =>
    obtain ⟨element, tag, body, rfl, tagged, numbered, rfl⟩ := writes
    obtain ⟨_, same, fits⟩ := fits
    obtain rfl := DataType.set.inj same
    have parts := Sent.items deep numbered fits (Value.throughout_set.mp ordered).2
      (Value.throughout_set.mp holds).2
    exact ⟨⟨element, tag, body, rfl, tagged, parts, rfl⟩, element, rfl, by simp⟩
  | map entries =>
    obtain ⟨keyType, valueType, keyTag, valueTag, body, rfl, keyTagged, valueTagged, numbered,
      rfl⟩ := writes
    obtain ⟨_, _, same, fits⟩ := fits
    obtain ⟨rfl, rfl⟩ := DataType.map.inj same
    have parts := Sent.entries deep numbered fits (Value.throughout_map.mp ordered).2
      (Value.throughout_map.mp holds).2
    exact ⟨⟨keyType, valueType, keyTag, valueTag, body, rfl, keyTagged, valueTagged, parts, rfl⟩,
      keyType, valueType, rfl, by simp⟩
  | struct fields =>
    obtain ⟨name, declared, pieces, rfl, named, each, rfl⟩ := writes
    obtain ⟨_, _, same, alsoNamed, complete, fits⟩ := fits
    obtain rfl := DataType.struct.inj same
    obtain rfl := Except.ok.inj (named.symm.trans alsoNamed)
    obtain ⟨-, ordered⟩ := Value.throughout_struct.mp ordered
    obtain ⟨-, holds⟩ := Value.throughout_struct.mp holds
    have parts := Pairing.forall₂_imp_right each fun piece field member fieldWritten =>
      have present := Schema.mem_of_mem_inOrder member
      Sent.field deep fieldWritten (fits field present) (ordered field present)
        (holds field present)
    refine ⟨⟨name, declared, pieces, rfl, named, parts, rfl⟩, name, declared, rfl, named, complete,
      fun field member => ?_⟩
    obtain ⟨found, known, -⟩ := fits field member
    exact ⟨found, known, trivial⟩
  | union id held =>
    obtain ⟨name, declared, piece, rfl, named, fieldWritten, rfl⟩ := writes
    obtain ⟨_, _, found, same, alsoNamed, known, fits⟩ := fits
    obtain rfl := DataType.union.inj same
    obtain rfl := Except.ok.inj (named.symm.trans alsoNamed)
    have part := Sent.field deep fieldWritten ⟨found, known, fits⟩
      (Value.throughout_union.mp ordered).2 (Value.throughout_union.mp holds).2
    exact ⟨⟨name, declared, piece, rfl, named, part, rfl⟩, name, declared, found, rfl, named, known,
      trivial⟩

end Layer

/-- What a reader must make of the fields of a struct or union that a writer writes: a field that
both declare has one type, which they share, what the reader requires the writer requires, and what
only the writer declares can be stepped over. -/
structure FieldsUnderstood (writer : Schema) (limits : Limits) (limit : Nat)
    (shared : DataType → Prop) (written known : List Field) : Prop where
  distinct : (written.map (·.id)).Nodup
  types : ∀ {id before after}, fieldById? written id = some before →
    fieldById? known id = some after → after.type = before.type ∧ shared after.type
  required : ∀ field ∈ known, field.requiredness = .required →
    ∃ before ∈ written, before.id = field.id ∧ before.requiredness = .required
  dropped : ∀ {id before}, fieldById? written id = some before → fieldById? known id = none →
    ∀ {levels tag bytes value}, writer.wireTag before.type = .ok tag →
      Sent writer (Value.LengthWithin limits) limit levels before.type bytes value →
        Skippable limits levels tag bytes

/-- A reader understands a writer on the types that they share: both see the same kind of type
behind all typedefs, and know its structs, unions and enums. -/
structure Understands (reader writer : Schema) (limits : Limits) (limit : Nat)
    (shared : DataType → Prop) : Prop where
  canonical : ∀ {type behind}, shared type → writer.canonical type = .ok behind →
    reader.canonical type = .ok behind ∧ shared behind
  list : ∀ {element}, shared (.list element) → shared element
  set : ∀ {element}, shared (.set element) → shared element
  map : ∀ {keyType valueType}, shared (.map keyType valueType) →
    shared keyType ∧ shared valueType
  struct : ∀ {name written}, shared (.struct name) → writer.structType name = .ok written →
    ∃ known, reader.structType name = .ok known ∧
      FieldsUnderstood writer limits limit shared written.fields known.fields
  union : ∀ {name written id before}, shared (.union name) →
    writer.unionType name = .ok written → fieldById? written.fields id = some before →
      ∃ known after, reader.unionType name = .ok known ∧
        fieldById? known.fields id = some after ∧ after.type = before.type ∧ shared after.type
  enum : ∀ {name written}, shared (.enum name) → writer.enumType name = .ok written →
    ∃ known, reader.enumType name = .ok known

section Understanding

variable {reader writer : Schema} {limits : Limits} {limit levels : Nat}
  {shared : DataType → Prop}

/-- A shared type has the same tag on both sides. -/
theorem Understands.wireTag (understands : Understands reader writer limits limit shared)
    {type : DataType} {tag : WireTag} (isShared : shared type)
    (known : writer.wireTag type = .ok tag) : reader.wireTag type = .ok tag := by
  obtain ⟨behind, followed, tagged⟩ := wireTag_eq_ok.mp known
  exact wireTag_eq_ok.mpr ⟨behind, (understands.canonical isShared followed).1, tagged⟩

/-- The bytes denote something equal to what the reader's schema leaves of the value. -/
def Arrives (reader : Schema) (limits : Limits) (levels : Nat) (type : DataType) (bytes : Bytes)
    (value : Value) : Prop :=
  ∃ restored, Denotes reader limits levels type bytes restored ∧
    Value.order restored (reader.project value type) = .eq

/-- Of a type that is no typedef, the bytes denote something equal to what the reader's schema
leaves of the value at the type that stands before it. -/
def ArrivesBehind (reader : Schema) (limits : Limits) (levels : Nat) (type behind : DataType)
    (bytes : Bytes) (value : Value) : Prop :=
  ∃ restored, DenotesLayer reader limits (Denotes reader limits levels) (Skippable limits levels)
    behind bytes restored ∧ Value.order restored (reader.project value type) = .eq

/-- What arrives at the type behind all typedefs arrives at the type itself. -/
theorem ArrivesBehind.arrives {type behind : DataType} {bytes : Bytes} {value : Value}
    (arrives : ArrivesBehind reader limits levels type behind bytes value)
    (followed : reader.canonical type = .ok behind) :
    Arrives reader limits (levels + 1) type bytes value := by
  obtain ⟨restored, layer, equal⟩ := arrives
  exact ⟨restored, ⟨behind, followed, layer⟩, equal⟩

/-- Items that arrive one by one arrive together, behind the tag of their type and their count. -/
theorem sequence_arrives (understands : Understands reader writer limits limit shared)
    {element : DataType} {tag : WireTag} {body : Bytes} {items : List Value}
    (isShared : shared element) (tagged : writer.wireTag element = .ok tag)
    (within : items.length ≤ limits.containerLength)
    (numbered : Numbered (Arrives reader limits levels element) body items) :
    ∃ restored, SequenceForm reader limits element (Denotes reader limits levels)
        (tag.code :: body) restored ∧
      List.Forall₂ (fun left right => Value.order left right = .eq) restored
        (items.map (reader.project · element)) := by
  obtain ⟨small, pieces, each, rfl⟩ := numbered
  obtain ⟨restored, denote, equal⟩ := Pairing.exists_between each
  rw [← equal.length_eq] at small within ⊢
  exact ⟨restored, ⟨tag, _, understands.wireTag isShared tagged, rfl, within, small, pieces,
    denote, rfl⟩, List.forall₂_map_right_iff.mpr equal⟩

/-- Entries that arrive one by one arrive together, behind the tags of both types and their count.

Proof: keys and values arrive apart, in the pieces in which they were written. Together they are as
many as were announced, and the reader gives both types the tags that the writer gave them. -/
theorem entries_arrive (understands : Understands reader writer limits limit shared)
    {keyType valueType : DataType} {keyTag valueTag : WireTag} {body : Bytes}
    {entries : List (Value × Value)} (isSharedKey : shared keyType)
    (isSharedValue : shared valueType) (keyTagged : writer.wireTag keyType = .ok keyTag)
    (valueTagged : writer.wireTag valueType = .ok valueTag)
    (within : entries.length ≤ limits.containerLength)
    (numbered : Numbered (fun piece entry =>
      Joined (Arrives reader limits levels keyType · entry.1)
        (Arrives reader limits levels valueType · entry.2) piece) body entries) :
    ∃ restored, EntriesForm reader limits keyType valueType (Denotes reader limits levels)
        (keyTag.code :: valueTag.code :: body) restored ∧
      List.Forall₂ (fun left right => Value.order left.1 right.1 = .eq ∧
        Value.order left.2 right.2 = .eq) restored (entries.map fun entry =>
          (reader.project entry.1 keyType, reader.project entry.2 valueType)) := by
  obtain ⟨small, pieces, each, rfl⟩ := numbered
  have apart : List.Forall₂ (fun piece entry => ∃ restored : Value × Value,
      Joined (Denotes reader limits levels keyType · restored.1)
        (Denotes reader limits levels valueType · restored.2) piece ∧
      Value.order restored.1 (reader.project entry.1 keyType) = .eq ∧
        Value.order restored.2 (reader.project entry.2 valueType) = .eq) pieces entries := by
    refine each.imp fun piece entry joined => ?_
    obtain ⟨head, tail, rfl, ⟨key, keyDenotes, sameKey⟩, value, valueDenotes, sameValue⟩ := joined
    exact ⟨(key, value), ⟨head, tail, rfl, keyDenotes, valueDenotes⟩, sameKey, sameValue⟩
  obtain ⟨restored, denote, equal⟩ := Pairing.exists_between apart
  rw [← equal.length_eq] at small within ⊢
  exact ⟨restored, ⟨keyTag, valueTag, _, understands.wireTag isSharedKey keyTagged,
    understands.wireTag isSharedValue valueTagged, rfl, within, small, pieces, denote, rfl⟩,
    List.forall₂_map_right_iff.mpr equal⟩

/-- The fields that a writer writes make a field sequence for the reader, and what the reader keeps
of it is what its schema leaves of the fields. The proof follows the row of fields: a field that
both declare arrives, and a field that only the writer declares is stepped over. -/
theorem FieldsUnderstood.arrives {written known : List Field}
    (understood : FieldsUnderstood writer limits limit shared written known)
    (understands : Understands reader writer limits limit shared)
    (part : ∀ {type bytes value}, shared type →
      Sent writer (Value.LengthWithin limits) limit levels type bytes value →
        Arrives reader limits levels type bytes value)
    {pieces : List Bytes} {fields : List (Int16 × Value)}
    (each : List.Forall₂
      (FieldWritten writer written (Sent writer (Value.LengthWithin limits) limit levels))
      pieces fields) :
    ∃ read, Decoder.FieldSequence
        (FieldForm reader known (Denotes reader limits levels) (Skippable limits levels))
        (pieces.flatten ++ [WireTag.stop.code]) read ∧
      List.Forall₂ (fun left right => left.1 = right.1 ∧ Value.order left.2 right.2 = .eq) read
        (fields.filterMap (reader.projectField known)) := by
  induction each with
  | nil => exact ⟨[], .stop, .nil⟩
  | @cons piece field pieces fields here _ inductionHypothesis =>
    obtain ⟨before, tag, body, isWritten, tagged, sent, rfl⟩ := here
    obtain ⟨read, formed, equal⟩ := inductionHypothesis
    have counted := ne_stop_of_wireTag tagged
    cases isKnown : fieldById? known field.1 with
    | none =>
      have skippable := understood.dropped isWritten isKnown tagged sent
      have here : FieldForm reader known (Denotes reader limits levels) (Skippable limits levels)
          tag field.1 body none := by
        simp only [FieldForm, isKnown]
        exact ⟨skippable, trivial⟩
      have row := formed.cons ⟨tag, field.1, body, none⟩ counted here
      refine ⟨read, ?_, ?_⟩
      · simpa [Decoder.WireField.bytes, Decoder.WireField.kept] using row
      · simpa [Schema.projectField, isKnown] using equal
    | some after =>
      obtain ⟨sameType, isShared⟩ := understood.types isWritten isKnown
      rw [← sameType] at tagged sent
      obtain ⟨restored, denotes, same⟩ := part isShared sent
      have here : FieldForm reader known (Denotes reader limits levels) (Skippable limits levels)
          tag field.1 body (some restored) := by
        simp only [FieldForm, isKnown]
        exact ⟨understands.wireTag isShared tagged, restored, denotes, rfl⟩
      have row := formed.cons ⟨tag, field.1, body, some restored⟩ counted here
      refine ⟨(field.1, restored) :: read, ?_, ?_⟩
      · simpa [Decoder.WireField.bytes, Decoder.WireField.kept] using row
      · simpa [Schema.projectField, isKnown, same] using equal

/-- A field is set when its id is among the ids. -/
theorem contains_iff {fields : List (Int16 × Value)} {id : Int16} :
    Value.Fields.contains fields id ↔ ∃ field ∈ fields, field.1 = id := by
  simp [Value.Fields.contains]

/-- What the reader requires is there: the writer requires and hence wrote it, and the reader keeps
what it declares.

Proof: a field that the reader requires is required by the writer as well, so the value that was
written sets it. The reader declares it, so it is among the fields that are kept. -/
theorem FieldsUnderstood.complete {written known : List Field} {fields read : List (Int16 × Value)}
    (understood : FieldsUnderstood writer limits limit shared written known)
    (complete : Schema.missingRequired? written (Value.Fields.contains fields) = none)
    (kept : List.Forall₂ (fun left right => left.1 = right.1 ∧ Value.order left.2 right.2 = .eq)
      read (fields.filterMap (reader.projectField known))) :
    Schema.missingRequired? known (Value.Fields.contains read) = none := by
  refine List.find?_eq_none.mpr fun field member lacking => ?_
  simp only [Bool.and_eq_true, decide_eq_true_eq, Bool.not_eq_true'] at lacking
  obtain ⟨isRequired, absent⟩ := lacking
  obtain ⟨before, declared, sameId, requires⟩ := understood.required field member isRequired
  have present : Value.Fields.contains fields before.id := by
    have notMissing := List.find?_eq_none.mp complete before declared
    simpa [requires] using notMissing
  obtain ⟨set, isSet, setId⟩ := contains_iff.mp present
  obtain ⟨found, isKnown⟩ := Schema.exists_fieldById member
  rw [← sameId, ← setId] at isKnown
  have left : (set.1, reader.project set.2 found.type) ∈
      fields.filterMap (reader.projectField known) :=
    List.mem_filterMap.mpr ⟨set, isSet, by simp [Schema.projectField, isKnown]⟩
  obtain ⟨arrived, isArrived, arrivedId, -⟩ := Pairing.exists_of_mem_right kept left
  have arrivedAnyway : Value.Fields.contains read field.id :=
    contains_iff.mpr ⟨arrived, isArrived, arrivedId.trans (setId.trans sameId)⟩
  rw [arrivedAnyway] at absent
  simp at absent

/-- A value without parts arrives as it is. -/
theorem scalar_arrives {type behind : DataType} {bytes : Bytes} {value : Value}
    (layer : DenotesLayer reader limits (Denotes reader limits levels) (Skippable limits levels)
      behind bytes value) (unchanged : reader.project value type = value) :
    ArrivesBehind reader limits levels type behind bytes value :=
  ⟨value, layer, by rw [unchanged]; exact Value.order_self value⟩

/-- A list arrives when its items do. -/
theorem list_arrives (understands : Understands reader writer limits limit shared)
    {type element : DataType} {tag : WireTag} {body : Bytes} {items : List Value}
    (followed : reader.canonical type = .ok (.list element)) (isShared : shared (.list element))
    (tagged : writer.wireTag element = .ok tag) (within : items.length ≤ limits.containerLength)
    (numbered : Numbered (Arrives reader limits levels element) body items) :
    ArrivesBehind reader limits levels type (.list element) (tag.code :: body) (.list items) := by
  obtain ⟨restored, formed, equal⟩ :=
    sequence_arrives understands (understands.list isShared) tagged within numbered
  refine ⟨.list restored, ⟨restored, formed, rfl⟩, ?_⟩
  rw [Schema.project_list followed]
  exact Value.order_list_eq.mpr equal

/-- A set arrives when its elements do: the reader inserts again what the projection inserts. -/
theorem set_arrives (understands : Understands reader writer limits limit shared)
    {type element : DataType} {tag : WireTag} {body : Bytes} {elements : List Value}
    (followed : reader.canonical type = .ok (.set element)) (isShared : shared (.set element))
    (tagged : writer.wireTag element = .ok tag)
    (within : elements.length ≤ limits.containerLength)
    (numbered : Numbered (Arrives reader limits levels element) body elements) :
    ArrivesBehind reader limits levels type (.set element) (tag.code :: body)
      (.set elements) := by
  obtain ⟨restored, formed, equal⟩ :=
    sequence_arrives understands (understands.set isShared) tagged within numbered
  refine ⟨.set (Value.elementsOf restored), ⟨restored, formed, rfl⟩, ?_⟩
  rw [Schema.project_set followed]
  exact Value.order_set_eq.mpr (Value.elementsOf_congr equal)

/-- A map arrives when its keys and values do: the reader inserts again what the projection
inserts. -/
theorem map_arrives (understands : Understands reader writer limits limit shared)
    {type keyType valueType : DataType} {keyTag valueTag : WireTag} {body : Bytes}
    {entries : List (Value × Value)}
    (followed : reader.canonical type = .ok (.map keyType valueType))
    (isShared : shared (.map keyType valueType)) (keyTagged : writer.wireTag keyType = .ok keyTag)
    (valueTagged : writer.wireTag valueType = .ok valueTag)
    (within : entries.length ≤ limits.containerLength)
    (numbered : Numbered (fun piece entry =>
      Joined (Arrives reader limits levels keyType · entry.1)
        (Arrives reader limits levels valueType · entry.2) piece) body entries) :
    ArrivesBehind reader limits levels type (.map keyType valueType)
      (keyTag.code :: valueTag.code :: body) (.map entries) := by
  obtain ⟨isSharedKey, isSharedValue⟩ := understands.map isShared
  obtain ⟨restored, formed, equal⟩ := entries_arrive understands isSharedKey isSharedValue
    keyTagged valueTagged within numbered
  refine ⟨.map (Value.entriesOf restored), ⟨restored, formed, rfl⟩, ?_⟩
  rw [Schema.project_map followed]
  exact Value.order_map_eq.mpr (Value.entriesOf_congr equal)

/-- A struct arrives when its fields do.

Proof: its fields are read in the order in which the writer declares them, which is a rearrangement
of the order of their ids, and inserting them puts them in the order of their ids again. That
nothing required is missing passes from the writer's check to the reader's. -/
theorem struct_arrives (understands : Understands reader writer limits limit shared)
    (part : ∀ {type bytes value}, shared type →
      Sent writer (Value.LengthWithin limits) limit levels type bytes value →
        Arrives reader limits levels type bytes value)
    {type : DataType} {name : String} {written : StructType} {pieces : List Bytes}
    {fields : List (Int16 × Value)} (followed : reader.canonical type = .ok (.struct name))
    (isShared : shared (.struct name)) (named : writer.structType name = .ok written)
    (complete : Schema.missingRequired? written.fields (Value.Fields.contains fields) = none)
    (declared : ∀ field ∈ fields, ∃ found, fieldById? written.fields field.1 = some found)
    (ascending : Value.KeysAscend compare fields)
    (each : List.Forall₂
      (FieldWritten writer written.fields (Sent writer (Value.LengthWithin limits) limit levels))
      pieces (inOrder written.fields fields)) :
    ArrivesBehind reader limits levels type (.struct name)
      (pieces.flatten ++ [WireTag.stop.code]) (.struct fields) := by
  obtain ⟨known, sameNamed, understood⟩ := understands.struct isShared named
  obtain ⟨read, formed, equal⟩ := understood.arrives understands part each
  have rearranged := (Schema.inOrder_perm understood.distinct
    (Value.Fields.nodup_of_ascending ascending) declared).filterMap
    (reader.projectField known.fields)
  have rebuilt : List.Forall₂ (fun left right => left.1 = right.1 ∧
      Value.order left.2 right.2 = .eq) (Value.Fields.ofList read)
      (fields.filterMap (reader.projectField known.fields)) := by
    rw [← Value.Fields.ofList_of_perm rearranged
      (Schema.keysAscend_projectField known.fields ascending)]
    exact Value.Fields.ofList_congr equal
  refine ⟨.struct (Value.Fields.ofList read),
    ⟨known, sameNamed, read, formed, understood.complete complete rebuilt, rfl⟩, ?_⟩
  rw [Schema.project_struct followed sameNamed]
  exact Value.order_struct_eq.mpr rebuilt

/-- A union arrives when the value that it holds does.

Proof: the reader knows the alternative that was written, under the same type, so the value that it
holds arrives. The record is one field and the stop. -/
theorem union_arrives (understands : Understands reader writer limits limit shared)
    (part : ∀ {type bytes value}, shared type →
      Sent writer (Value.LengthWithin limits) limit levels type bytes value →
        Arrives reader limits levels type bytes value)
    {type : DataType} {name : String} {written : UnionType} {piece : Bytes} {id : Int16}
    {held : Value} (followed : reader.canonical type = .ok (.union name))
    (isShared : shared (.union name)) (named : writer.unionType name = .ok written)
    (each : FieldWritten writer written.fields
      (Sent writer (Value.LengthWithin limits) limit levels) piece (id, held)) :
    ArrivesBehind reader limits levels type (.union name) (piece ++ [WireTag.stop.code])
      (.union id held) := by
  obtain ⟨before, tag, body, isWritten, tagged, sentBody, rfl⟩ := each
  obtain ⟨known, after, sameNamed, isKnown, sameType, isSharedHeld⟩ :=
    understands.union isShared named isWritten
  rw [← sameType] at tagged sentBody
  obtain ⟨restored, denotes, equal⟩ := part isSharedHeld sentBody
  have here : FieldForm reader known.fields (Denotes reader limits levels)
      (Skippable limits levels) tag id body (some restored) := by
    simp only [FieldForm, isKnown]
    exact ⟨understands.wireTag isSharedHeld tagged, restored, denotes, rfl⟩
  have formed := Decoder.FieldSequence.stop.cons ⟨tag, id, body, some restored⟩
    (ne_stop_of_wireTag tagged) here
  refine ⟨.union id restored, ⟨known, sameNamed, [(id, restored)], ?_, id, restored, rfl, rfl⟩, ?_⟩
  · simpa [Decoder.WireField.bytes, Decoder.WireField.kept] using formed
  · rw [Schema.project_union followed sameNamed isKnown]
    exact Value.order_union_eq.mpr ⟨rfl, equal⟩

/-- One level: what is written for a value denotes what the reader's schema leaves of it, when this
is so for what is written one level below.

Proof: by the kind of the value, for what is written follows it. Scalars denote themselves, and of
an enum the number arrives. The parts of containers and the fields of records arrive as is assumed
one level below. -/
theorem arrives_layer (understands : Understands reader writer limits limit shared)
    (part : ∀ {type bytes value}, shared type →
      Sent writer (Value.LengthWithin limits) limit levels type bytes value →
        Arrives reader limits levels type bytes value)
    {type : DataType} {bytes : Bytes} {value : Value} (isShared : shared type)
    (sent : Sent writer (Value.LengthWithin limits) limit (levels + 1) type bytes value) :
    Arrives reader limits (levels + 1) type bytes value := by
  obtain ⟨behind, followed, writes, fits⟩ := sent.layer
  obtain ⟨sameFollowed, isSharedBehind⟩ := understands.canonical isShared followed
  have within := sent.holds.here
  have ascends := sent.ordered.here
  refine ArrivesBehind.arrives ?_ sameFollowed
  cases value with
  | bool held =>
    obtain ⟨rfl, rfl⟩ := writes
    exact scalar_arrives ⟨_, rfl, by cases held <;> rfl⟩ rfl
  | byte number | i16 number | i32 number | i64 number | double number =>
    obtain ⟨rfl, rfl⟩ := writes
    exact scalar_arrives ⟨number, rfl, rfl⟩ rfl
  | string text =>
    obtain ⟨rfl, lengthPrefixed⟩ := writes
    exact scalar_arrives ⟨Utf8.encode text, ⟨within, lengthPrefixed⟩, text,
      Utf8.decode?_eq_some_iff.mpr rfl, rfl⟩ rfl
  | binary held =>
    obtain ⟨rfl, lengthPrefixed⟩ := writes
    exact scalar_arrives ⟨held, ⟨within, lengthPrefixed⟩, rfl⟩ rfl
  | list items =>
    obtain ⟨element, tag, body, rfl, tagged, numbered, rfl⟩ := writes
    exact list_arrives understands sameFollowed isSharedBehind tagged within
      (numbered.imp (part (understands.list isSharedBehind)))
  | set elements =>
    obtain ⟨element, tag, body, rfl, tagged, numbered, rfl⟩ := writes
    exact set_arrives understands sameFollowed isSharedBehind tagged within
      (numbered.imp (part (understands.set isSharedBehind)))
  | map entries =>
    obtain ⟨keyType, valueType, keyTag, valueTag, body, rfl, keyTagged, valueTagged, numbered,
      rfl⟩ := writes
    obtain ⟨isSharedKey, isSharedValue⟩ := understands.map isSharedBehind
    exact map_arrives understands sameFollowed isSharedBehind keyTagged valueTagged within
      (numbered.imp fun joined => joined.imp (part isSharedKey) (part isSharedValue))
  | struct fields =>
    obtain ⟨name, written, pieces, rfl, named, each, rfl⟩ := writes
    obtain ⟨_, _, same, alsoNamed, complete, declared⟩ := fits
    obtain rfl := DataType.struct.inj same
    obtain rfl := Except.ok.inj (named.symm.trans alsoNamed)
    refine struct_arrives understands part sameFollowed isSharedBehind named complete
      (fun field member => ?_) ascends each
    obtain ⟨found, isFound, -⟩ := declared field member
    exact ⟨found, isFound⟩
  | union id held =>
    obtain ⟨name, written, piece, rfl, named, each, rfl⟩ := writes
    exact union_arrives understands part sameFollowed isSharedBehind named each
  | enum number label =>
    obtain ⟨name, rfl, rfl⟩ := writes
    obtain ⟨_, written, same, named, -⟩ := fits
    obtain rfl := DataType.enum.inj same
    obtain ⟨known, sameNamed⟩ := understands.enum isSharedBehind named
    -- the label is not sent, so what is restored is equal to the value and need not be it
    exact ⟨_, ⟨known, sameNamed, number, rfl, rfl⟩, Std.ReflOrd.compare_self⟩

/-- What is written arrives, for as many levels as the reader follows. -/
theorem Understands.arrives (understands : Understands reader writer limits limit shared)
    {type : DataType} {bytes : Bytes} {value : Value} (isShared : shared type)
    (sent : Sent writer (Value.LengthWithin limits) limit levels type bytes value) :
    Arrives reader limits levels type bytes value := by
  induction levels generalizing type bytes value with
  | zero => exact absurd sent Sent.not_zero
  | succ levels inductionHypothesis =>
    exact arrives_layer understands inductionHypothesis isShared sent

end Understanding

/-- No struct of a schema declares an id twice. -/
def Schema.DistinctIds (schema : Schema) : Prop :=
  ∀ {name declared}, schema.structType name = .ok declared → (declared.fields.map (·.id)).Nodup

/-- A schema without repeated ids understands itself on all types. -/
theorem Schema.DistinctIds.understands {schema : Schema} (distinct : schema.DistinctIds)
    (limits : Limits) (limit : Nat) : Understands schema schema limits limit fun _ => True where
  canonical _ followed := ⟨followed, trivial⟩
  list _ := trivial
  set _ := trivial
  map _ := ⟨trivial, trivial⟩
  struct {name written} _ named := by
    refine ⟨written, named, distinct named, ?_, ?_, ?_⟩
    · intro id before after isWritten isKnown
      obtain rfl := Option.some.inj (isWritten.symm.trans isKnown)
      exact ⟨rfl, trivial⟩
    · intro field member isRequired
      exact ⟨field, member, rfl, isRequired⟩
    · intro id before isWritten isKnown
      simp [isWritten] at isKnown
  union {name written id before} _ named isWritten :=
    ⟨written, before, named, isWritten, rfl, trivial⟩
  enum {name written} _ named := ⟨written, named⟩

/-- What a writer writes within the limits of a reader with the same schema denotes, for that
reader, a value equal to the one that was written. -/
theorem Schema.DistinctIds.denotes {schema : Schema} (distinct : schema.DistinctIds)
    {limits : Limits} {limit levels : Nat} {type : DataType} {bytes : Bytes} {value : Value}
    (sent : Sent schema (Value.LengthWithin limits) limit levels type bytes value) :
    ∃ restored, Denotes schema limits levels type bytes restored ∧
      Value.order restored value = .eq := by
  obtain ⟨restored, denotes, equal⟩ := (distinct.understands limits limit).arrives trivial sent
  obtain ⟨depth, -, fits⟩ := sent.fits
  rw [Schema.project_of_fits fits sent.ordered] at equal
  exact ⟨restored, denotes, equal⟩

end SchemaCodec
