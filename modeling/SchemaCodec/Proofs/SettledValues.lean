import SchemaCodec.Proofs.Fitting
import SchemaCodec.Proofs.LinkedRegistry
import SchemaCodec.Proofs.ValueParts
import SchemaCodec.Proofs.WrittenLength

/-!
# Values that are read are settled

A value that was read from some bytes is settled: it passes the check of its type at the depth at
which it was read, it is written again in no more bytes, its collections ascend, and its lengths are
within the limits of the reader. This goes level by level, since each part was read from bytes of
its own.
-/

namespace SchemaCodec

open Decoder (FieldSequence)
open Schema (FitsLayer FieldWritten WritesLayer)

/-- A value that was read from so many bytes, so many levels above the deepest one. -/
structure Settled (schema : Schema) (limits : Limits) (levels : Nat) (type : DataType)
    (size : Nat) (value : Value) : Prop where
  fits : ∀ {depth}, levels + depth = limits.depth + 1 →
    schema.checkValue limits.depth value type depth = .ok ()
  written : ∃ again, schema.encodeValue value type = .ok again
  short : schema.writtenLength type value ≤ size
  ordered : value.Ordered
  within : value.Within limits

section Layer

variable {schema : Schema} {limits : Limits} {levels : Nat}

/-- A value is settled when its parts fit one level below and it is written in few bytes. -/
theorem Settled.of_layer {type behind : DataType} {size : Nat} {value : Value}
    (followed : schema.canonical type = .ok behind)
    (fits : FitsLayer schema (fun part type => ∀ {depth}, levels + depth = limits.depth + 1 →
      schema.checkValue limits.depth part type depth = .ok ()) value behind)
    (writes : ∃ again, WritesLayer schema (fun type bytes value =>
      schema.encodeValue value type = .ok bytes) value behind again ∧ again.length ≤ size)
    (ordered : value.Ordered) (within : value.Within limits) :
    Settled schema limits (levels + 1) type size value := by
  obtain ⟨again, layer, short⟩ := writes
  have written := Schema.encodeValue_eq_ok.mpr ⟨behind, followed, layer⟩
  refine ⟨fun {depth} sum => ?_, ⟨again, written⟩, ?_, ordered, within⟩
  · refine Schema.checkValue_eq_ok.mpr ⟨by omega, behind, followed, fits.imp fun below => ?_⟩
    exact below (by omega)
  · rwa [Schema.writtenLength_of_written written]

/-- The items that a list or set keeps of those that were read are written in no more bytes. -/
theorem written_of_settled {element : DataType} {pieces : List Bytes} {items kept : List Value}
    (each : List.Forall₂ (fun piece item => Settled schema limits levels element piece.length item)
      pieces items) (origin : ∀ item ∈ kept, item ∈ items)
    (lighter : (kept.map (schema.writtenLength element)).sum ≤
      (items.map (schema.writtenLength element)).sum) :
    ∃ again, List.Forall₂ (fun piece item => schema.encodeValue item element = .ok piece) again
      kept ∧ again.flatten.length ≤ pieces.flatten.length := by
  have everyPiece : ∀ item ∈ kept, ∃ piece, schema.encodeValue item element = .ok piece ∧
      piece.length ≤ schema.writtenLength element item := by
    intro item member
    obtain ⟨piece, -, settled⟩ := Pairing.exists_of_mem_right each (origin item member)
    obtain ⟨again, written⟩ := settled.written
    exact ⟨again, written, Nat.le_of_eq (Schema.writtenLength_of_written written).symm⟩
  obtain ⟨again, written, short⟩ := exists_pieces _ everyPiece
  have bounded := sum_le_of_pieces (each.imp fun _ _ settled => settled.short)
  exact ⟨again, written, short.trans (lighter.trans bounded)⟩

/-- The entries that a map keeps of those that were read are written in no more bytes.

Proof: a kept entry has a key and a value that were read, perhaps in different entries. Counting
what is written for them, the kept entries take no more than all that were read, and each of those
took its piece. -/
theorem entries_written_of_settled {keyType valueType : DataType} {pieces : List Bytes}
    {entries : List (Value × Value)}
    (each : List.Forall₂ (fun piece entry => ∃ first second,
      Settled schema limits levels keyType first entry.1 ∧
        Settled schema limits levels valueType second entry.2 ∧ first + second ≤ piece.length)
      pieces entries) :
    ∃ again, List.Forall₂ (fun piece entry =>
        Joined (fun head => schema.encodeValue entry.1 keyType = .ok head)
          (fun tail => schema.encodeValue entry.2 valueType = .ok tail) piece) again
        (Value.entriesOf entries) ∧ again.flatten.length ≤ pieces.flatten.length := by
  have everyPiece : ∀ entry ∈ Value.entriesOf entries, ∃ piece,
      Joined (fun head => schema.encodeValue entry.1 keyType = .ok head)
        (fun tail => schema.encodeValue entry.2 valueType = .ok tail) piece ∧
      piece.length ≤
        schema.writtenLength keyType entry.1 + schema.writtenLength valueType entry.2 := by
    intro entry member
    obtain ⟨⟨_, keyOrigin⟩, _, valueOrigin⟩ := Value.mem_of_mem_entriesOf member
    obtain ⟨_, -, _, _, keySettled, -⟩ := Pairing.exists_of_mem_right each keyOrigin
    obtain ⟨_, -, _, _, -, valueSettled, -⟩ := Pairing.exists_of_mem_right each valueOrigin
    obtain ⟨head, keyWritten⟩ := keySettled.written
    obtain ⟨tail, valueWritten⟩ := valueSettled.written
    refine ⟨head ++ tail, ⟨head, tail, rfl, keyWritten, valueWritten⟩, ?_⟩
    rw [Schema.writtenLength_of_written keyWritten, Schema.writtenLength_of_written valueWritten,
      List.length_append]
  obtain ⟨again, written, short⟩ := exists_pieces _ everyPiece
  have lighter := Value.weight_entriesOf_le (schema.writtenLength keyType)
    (schema.writtenLength valueType) entries
  have bounded : Value.weight (schema.writtenLength keyType) (schema.writtenLength valueType)
      entries ≤ pieces.flatten.length := by
    refine sum_le_of_pieces (each.imp fun piece entry settled => ?_)
    obtain ⟨first, second, keySettled, valueSettled, within⟩ := settled
    have keyShort := keySettled.short
    have valueShort := valueSettled.short
    omega
  exact ⟨again, written, short.trans (lighter.trans bounded)⟩

/-- A field that is kept is declared and settled. -/
theorem settled_of_mem_read {declared : List Field}
    (part : ∀ {type bytes value}, Denotes schema limits levels type bytes value →
      Settled schema limits levels type bytes.length value)
    {passed : WireTag → Bytes → Prop} {taken : Bytes} {read : List (Int16 × Value)}
    (formed : FieldSequence (FieldForm schema declared (Denotes schema limits levels) passed) taken
      read) {field : Int16 × Value} (member : field ∈ read) :
    ∃ found tag size, fieldById? declared field.1 = some found ∧
      schema.wireTag found.type = .ok tag ∧
        Settled schema limits levels found.type size field.2 := by
  obtain ⟨tag, body, form⟩ := exists_of_mem_kept formed member
  obtain ⟨found, known, tagged, denotes⟩ := form.exists_field
  exact ⟨found, tag, body.length, known, tagged, part denotes⟩

/-- The fields that were read are written, header included, in fewer bytes than they were read
from: the stop is left over. -/
theorem sum_fieldLength_lt {declared : List Field}
    (part : ∀ {type bytes value}, Denotes schema limits levels type bytes value →
      Settled schema limits levels type bytes.length value)
    {passed : WireTag → Bytes → Prop} {taken : Bytes} {read : List (Int16 × Value)}
    (formed : FieldSequence (FieldForm schema declared (Denotes schema limits levels) passed) taken
      read) :
    ((Value.Fields.ofList read).map (schema.fieldLength declared)).sum < taken.length := by
  refine Nat.lt_of_le_of_lt (Value.Fields.sum_ofList_le _ read)
    (sum_kept_lt formed fun {tag id body value} form => ?_)
  obtain ⟨found, known, -, denotes⟩ := form.exists_field
  have short := (part denotes).short
  simp only [Schema.fieldLength, known]
  omega

/-- A field that is settled is written. -/
theorem fieldWritten_of_settled {declared : List Field} {field : Int16 × Value} {found : Field}
    {tag : WireTag} {size : Nat} (known : fieldById? declared field.1 = some found)
    (tagged : schema.wireTag found.type = .ok tag)
    (settled : Settled schema limits levels found.type size field.2) :
    ∃ piece, FieldWritten schema declared
      (fun type bytes value => schema.encodeValue value type = .ok bytes) piece field := by
  obtain ⟨body, written⟩ := settled.written
  exact ⟨_, found, tag, body, known, tagged, written, rfl⟩

/-- What a list or set keeps of the items that were read from its bytes: it is written in no more
bytes, it is no longer, and all of it is settled. -/
theorem settled_sequence
    (part : ∀ {type bytes value}, Denotes schema limits levels type bytes value →
      Settled schema limits levels type bytes.length value)
    {element : DataType} {taken : Bytes} {items kept : List Value}
    (sequence : SequenceForm schema limits element (Denotes schema limits levels) taken items)
    (origin : ∀ item ∈ kept, item ∈ items)
    (lighter : ∀ weigh : Value → Nat, (kept.map weigh).sum ≤ (items.map weigh).sum) :
    (∃ again, (∃ tag body, schema.wireTag element = .ok tag ∧
        Numbered (fun piece item => schema.encodeValue item element = .ok piece) body kept ∧
          again = tag.code :: body) ∧ again.length ≤ taken.length) ∧
      kept.length ≤ limits.containerLength ∧
        ∀ item ∈ kept, ∃ size, Settled schema limits levels element size item := by
  obtain ⟨tag, _, tagged, rfl, within, small, pieces, each, rfl⟩ := sequence
  have settled := each.imp fun piece item denotes => part denotes
  obtain ⟨again, written, short⟩ := written_of_settled settled origin (lighter _)
  have fewer : kept.length ≤ items.length := by simpa using lighter fun _ => 1
  refine ⟨⟨_, ⟨tag, _, tagged, ⟨by omega, again, written, rfl⟩, rfl⟩, ?_⟩, by omega, ?_⟩
  · simp only [List.length_cons, List.length_append, length_count]
    omega
  · intro item member
    obtain ⟨piece, -, isSettled⟩ := Pairing.exists_of_mem_right settled (origin item member)
    exact ⟨piece.length, isSettled⟩

/-- What a map keeps of the entries that were read from its bytes: it is written in no more bytes,
it is no longer, and all of it is settled.

Proof: the entries that are kept are written in no more bytes than those that were read. Their keys
and values are among those that were read, so each is settled, and they are no more in number. -/
theorem settled_entries
    (part : ∀ {type bytes value}, Denotes schema limits levels type bytes value →
      Settled schema limits levels type bytes.length value)
    {keyType valueType : DataType} {taken : Bytes} {entries : List (Value × Value)}
    (form : EntriesForm schema limits keyType valueType (Denotes schema limits levels) taken
      entries) :
    (∃ again, (∃ keyTag valueTag body, schema.wireTag keyType = .ok keyTag ∧
        schema.wireTag valueType = .ok valueTag ∧
          Numbered (fun piece entry =>
            Joined (fun head => schema.encodeValue entry.1 keyType = .ok head)
              (fun tail => schema.encodeValue entry.2 valueType = .ok tail) piece) body
            (Value.entriesOf entries) ∧
            again = keyTag.code :: valueTag.code :: body) ∧ again.length ≤ taken.length) ∧
      (Value.entriesOf entries).length ≤ limits.containerLength ∧
        ∀ entry ∈ Value.entriesOf entries,
          (∃ size, Settled schema limits levels keyType size entry.1) ∧
            ∃ size, Settled schema limits levels valueType size entry.2 := by
  obtain ⟨keyTag, valueTag, _, keyTagged, valueTagged, rfl, within, small, pieces, each, rfl⟩ :=
    form
  have settled : List.Forall₂ (fun piece entry => ∃ first second,
      Settled schema limits levels keyType first entry.1 ∧
        Settled schema limits levels valueType second entry.2 ∧ first + second ≤ piece.length)
      pieces entries := by
    refine each.imp fun piece entry joined => ?_
    obtain ⟨head, tail, rfl, keyDenotes, valueDenotes⟩ := joined
    exact ⟨_, _, part keyDenotes, part valueDenotes, by rw [List.length_append]⟩
  obtain ⟨again, written, short⟩ := entries_written_of_settled settled
  have fewer : (Value.entriesOf entries).length ≤ entries.length := by
    simpa [Value.weight] using Value.weight_entriesOf_le (fun _ => 1) (fun _ => 0) entries
  refine ⟨⟨_, ⟨keyTag, valueTag, _, keyTagged, valueTagged, ⟨by omega, again, written, rfl⟩, rfl⟩,
    ?_⟩, by omega, ?_⟩
  · simp only [List.length_cons, List.length_append, length_count]
    omega
  · intro entry member
    obtain ⟨⟨_, keyOrigin⟩, _, valueOrigin⟩ := Value.mem_of_mem_entriesOf member
    obtain ⟨_, -, _, _, keySettled, -⟩ := Pairing.exists_of_mem_right settled keyOrigin
    obtain ⟨_, -, _, _, -, valueSettled, -⟩ := Pairing.exists_of_mem_right settled valueOrigin
    exact ⟨⟨_, keySettled⟩, _, valueSettled⟩

/-- What a struct keeps of the fields that were read from its bytes is written, in the order of
their declarations and with a stop behind it, in no more bytes.

Proof: a field that is kept was read and is settled, so it is written, and what it takes is counted
by its declaration. The order of the declarations permutes the kept fields, so the sum is the same,
and it is smaller than what was taken by the stop at least. -/
theorem settled_fields
    (part : ∀ {type bytes value}, Denotes schema limits levels type bytes value →
      Settled schema limits levels type bytes.length value)
    {declared : List Field} (distinct : (declared.map (·.id)).Nodup)
    {passed : WireTag → Bytes → Prop} {taken : Bytes} {read : List (Int16 × Value)}
    (formed : FieldSequence (FieldForm schema declared (Denotes schema limits levels) passed) taken
      read) :
    ∃ pieces, List.Forall₂ (FieldWritten schema declared
        fun type bytes value => schema.encodeValue value type = .ok bytes) pieces
        (Schema.inOrder declared (Value.Fields.ofList read)) ∧
      (pieces.flatten ++ [WireTag.stop.code]).length ≤ taken.length := by
  have everyField : ∀ field ∈ Value.Fields.ofList read, ∃ found tag size,
      fieldById? declared field.1 = some found ∧ schema.wireTag found.type = .ok tag ∧
        Settled schema limits levels found.type size field.2 :=
    fun field member => settled_of_mem_read part formed (Value.Fields.mem_of_mem_ofList member)
  have rearranged := Schema.inOrder_perm distinct
    (Value.Fields.nodup_of_ascending (Value.Fields.keysAscend_ofList read)) fun field member => by
      obtain ⟨found, _, _, known, -⟩ := everyField field member
      exact ⟨found, known⟩
  have everyPiece : ∀ field ∈ Schema.inOrder declared (Value.Fields.ofList read), ∃ piece,
      FieldWritten schema declared
        (fun type bytes value => schema.encodeValue value type = .ok bytes) piece field ∧
      piece.length ≤ schema.fieldLength declared field := by
    intro field member
    obtain ⟨found, tag, size, known, tagged, settled⟩ :=
      everyField field (Schema.mem_of_mem_inOrder member)
    obtain ⟨piece, written⟩ := fieldWritten_of_settled known tagged settled
    exact ⟨piece, written, Nat.le_of_eq (Schema.fieldLength_of_written written)⟩
  obtain ⟨pieces, written, short⟩ := exists_pieces _ everyPiece
  have bounded := sum_fieldLength_lt part formed
  rw [(rearranged.map _).sum_eq] at short
  refine ⟨pieces, written, ?_⟩
  rw [List.length_append, List.length_singleton]
  omega

/-- A primitive value is settled when it is written in few bytes and is not too long. -/
theorem Settled.of_primitive {type behind : DataType} {size : Nat} {value : Value} {again : Bytes}
    (followed : schema.canonical type = .ok behind) (alone : value.parts = [value])
    (fits : FitsLayer schema (fun part type => ∀ {depth}, levels + depth = limits.depth + 1 →
      schema.checkValue limits.depth part type depth = .ok ()) value behind)
    (writes : WritesLayer schema (fun type bytes value =>
      schema.encodeValue value type = .ok bytes) value behind again)
    (short : again.length ≤ size) (ascends : value.Ascends) (within : value.LengthWithin limits) :
    Settled schema limits (levels + 1) type size value := by
  refine .of_layer followed fits ⟨again, writes, short⟩ ?_ ?_
  · intro part member
    rw [alone, List.mem_singleton] at member
    exact member ▸ ascends
  · intro part member
    rw [alone, List.mem_singleton] at member
    exact member ▸ within

section Containers

variable
  (part : ∀ {type bytes value}, Denotes schema limits levels type bytes value →
    Settled schema limits levels type bytes.length value)
  {type : DataType} {taken : Bytes}

include part

/-- A list is settled when its elements are. -/
theorem settled_list {element : DataType} {items : List Value}
    (followed : schema.canonical type = .ok (.list element))
    (sequence : SequenceForm schema limits element (Denotes schema limits levels) taken items) :
    Settled schema limits (levels + 1) type taken.length (.list items) := by
  obtain ⟨⟨again, ⟨tag, body, tagged, numbered, rfl⟩, short⟩, within, settled⟩ :=
    settled_sequence part sequence (fun _ member => member) fun _ => Nat.le_refl _
  refine .of_layer followed ⟨element, rfl, fun item member => ?_⟩
    ⟨_, ⟨element, tag, body, rfl, tagged, numbered, rfl⟩, short⟩
    (Value.throughout_list.mpr ⟨trivial, fun item member => ?_⟩)
    (Value.throughout_list.mpr ⟨within, fun item member => ?_⟩)
  all_goals obtain ⟨_, isSettled⟩ := settled item member
  · exact isSettled.fits
  · exact isSettled.ordered
  · exact isSettled.within

/-- A set is settled when the elements that were read for it are: it keeps some of them. -/
theorem settled_set {element : DataType} {items : List Value}
    (followed : schema.canonical type = .ok (.set element))
    (sequence : SequenceForm schema limits element (Denotes schema limits levels) taken items) :
    Settled schema limits (levels + 1) type taken.length (.set (Value.elementsOf items)) := by
  obtain ⟨⟨again, ⟨tag, body, tagged, numbered, rfl⟩, short⟩, within, settled⟩ :=
    settled_sequence part sequence (fun _ => Value.mem_of_mem_elementsOf) fun weigh =>
      Value.weight_elementsOf_le weigh items
  refine .of_layer followed ⟨element, rfl, fun item member => ?_⟩
    ⟨_, ⟨element, tag, body, rfl, tagged, numbered, rfl⟩, short⟩
    (Value.throughout_set.mpr ⟨Value.elementsAscend_elementsOf items, fun item member => ?_⟩)
    (Value.throughout_set.mpr ⟨within, fun item member => ?_⟩)
  all_goals obtain ⟨_, isSettled⟩ := settled item member
  · exact isSettled.fits
  · exact isSettled.ordered
  · exact isSettled.within

/-- A map is settled when the keys and values that were read for it are. -/
theorem settled_map {keyType valueType : DataType} {entries : List (Value × Value)}
    (followed : schema.canonical type = .ok (.map keyType valueType))
    (form : EntriesForm schema limits keyType valueType (Denotes schema limits levels) taken
      entries) :
    Settled schema limits (levels + 1) type taken.length (.map (Value.entriesOf entries)) := by
  obtain ⟨⟨again, ⟨keyTag, valueTag, body, keyTagged, valueTagged, numbered, rfl⟩, short⟩, within,
    settled⟩ := settled_entries part form
  refine .of_layer followed ⟨keyType, valueType, rfl, fun entry member => ?_⟩
    ⟨_, ⟨keyType, valueType, keyTag, valueTag, body, rfl, keyTagged, valueTagged, numbered, rfl⟩,
      short⟩
    (Value.throughout_map.mpr ⟨Value.keysAscend_entriesOf entries, fun entry member => ?_⟩)
    (Value.throughout_map.mpr ⟨within, fun entry member => ?_⟩)
  all_goals obtain ⟨⟨_, keySettled⟩, _, valueSettled⟩ := settled entry member
  · exact ⟨keySettled.fits, valueSettled.fits⟩
  · exact ⟨keySettled.ordered, valueSettled.ordered⟩
  · exact ⟨keySettled.within, valueSettled.within⟩

/-- A struct is settled when the fields that were read for it are and no required one is missing. -/
theorem settled_struct {name : String} {declared : StructType}
    (followed : schema.canonical type = .ok (.struct name))
    (named : schema.structType name = .ok declared)
    (distinct : (declared.fields.map (·.id)).Nodup) {passed : WireTag → Bytes → Prop}
    {read : List (Int16 × Value)}
    (formed : FieldSequence (FieldForm schema declared.fields (Denotes schema limits levels) passed)
      taken read)
    (complete : Schema.missingRequired? declared.fields
      (Value.Fields.contains (Value.Fields.ofList read)) = none) :
    Settled schema limits (levels + 1) type taken.length (.struct (Value.Fields.ofList read)) := by
  obtain ⟨pieces, written, short⟩ := settled_fields part distinct formed
  have settled (field : Int16 × Value) (member : field ∈ Value.Fields.ofList read) :=
    settled_of_mem_read part formed (Value.Fields.mem_of_mem_ofList member)
  refine .of_layer followed ⟨name, declared, rfl, named, complete, fun field member => ?_⟩
    ⟨_, ⟨name, declared, pieces, rfl, named, written, rfl⟩, short⟩
    (Value.throughout_struct.mpr ⟨Value.Fields.keysAscend_ofList read, fun field member => ?_⟩)
    (Value.throughout_struct.mpr ⟨trivial, fun field member => ?_⟩)
  all_goals obtain ⟨found, tag, size, known, -, isSettled⟩ := settled field member
  · exact ⟨found, known, isSettled.fits⟩
  · exact isSettled.ordered
  · exact isSettled.within

/-- A union is settled when the one field that was read for it is. -/
theorem settled_union {name : String} {declared : UnionType}
    (followed : schema.canonical type = .ok (.union name))
    (named : schema.unionType name = .ok declared) {passed : WireTag → Bytes → Prop}
    {read : List (Int16 × Value)}
    (formed : FieldSequence (FieldForm schema declared.fields (Denotes schema limits levels) passed)
      taken read)
    {id : Int16} {held : Value} (only : Value.Fields.ofList read = [(id, held)]) :
    Settled schema limits (levels + 1) type taken.length (.union id held) := by
  have isRead : (id, held) ∈ read :=
    Value.Fields.mem_of_mem_ofList (only ▸ List.mem_singleton_self _)
  obtain ⟨found, tag, size, known, tagged, isSettled⟩ := settled_of_mem_read part formed isRead
  obtain ⟨piece, written⟩ := fieldWritten_of_settled known tagged isSettled
  have short := sum_fieldLength_lt part formed
  rw [only, List.map_singleton, List.sum_singleton,
    ← Schema.fieldLength_of_written written] at short
  refine .of_layer followed ⟨name, declared, found, rfl, named, known, isSettled.fits⟩
    ⟨_, ⟨name, declared, piece, rfl, named, written, rfl⟩, ?_⟩
    (Value.throughout_union.mpr ⟨trivial, isSettled.ordered⟩)
    (Value.throughout_union.mpr ⟨trivial, isSettled.within⟩)
  rw [List.length_append, List.length_singleton]
  omega

end Containers

/-- What is read at one level is settled when this is so one level below.

Proof: by the type behind typedefs. What is read for a scalar is written in the bytes that were
read, and an enum is read with the label of its number. Containers and records keep parts that are
settled one level below, none of them twice. -/
theorem settled_layer (linked : schema.Linked)
    (part : ∀ {type bytes value}, Denotes schema limits levels type bytes value →
      Settled schema limits levels type bytes.length value)
    {type : DataType} {bytes : Bytes} {value : Value}
    (denotes : Denotes schema limits (levels + 1) type bytes value) :
    Settled schema limits (levels + 1) type bytes.length value := by
  obtain ⟨behind, followed, layer⟩ := denotes
  cases behind <;> simp only [DenotesLayer] at layer
  case bool =>
    obtain ⟨code, rfl, rfl⟩ := layer
    exact .of_primitive followed rfl rfl ⟨rfl, rfl⟩ (Nat.le_refl 1) trivial trivial
  case byte | i16 | i32 | i64 | double =>
    obtain ⟨number, rfl, rfl⟩ := layer
    exact .of_primitive followed rfl rfl ⟨rfl, rfl⟩ (Nat.le_refl _) trivial trivial
  case string =>
    obtain ⟨held, ⟨within, lengthPrefixed⟩, text, decoded, rfl⟩ := layer
    obtain rfl := Utf8.decode?_eq_some_iff.mp decoded
    exact .of_primitive followed rfl rfl ⟨rfl, lengthPrefixed⟩ (Nat.le_refl _) trivial within
  case binary =>
    obtain ⟨held, ⟨within, lengthPrefixed⟩, rfl⟩ := layer
    exact .of_primitive followed rfl rfl ⟨rfl, lengthPrefixed⟩ (Nat.le_refl _) trivial within
  case enum name =>
    obtain ⟨declared, named, number, rfl, rfl⟩ := layer
    have labelled := Schema.checkLabel_memberByNumber? (linked.enum named) number
    exact .of_primitive followed rfl ⟨name, declared, rfl, named, labelled⟩ ⟨name, rfl, rfl⟩
      (Nat.le_refl _) trivial trivial
  case list element =>
    obtain ⟨items, sequence, rfl⟩ := layer
    exact settled_list part followed sequence
  case set element =>
    obtain ⟨items, sequence, rfl⟩ := layer
    exact settled_set part followed sequence
  case map keyType valueType =>
    obtain ⟨entries, form, rfl⟩ := layer
    exact settled_map part followed form
  case struct name =>
    obtain ⟨declared, named, read, formed, complete, rfl⟩ := layer
    exact settled_struct part followed named (linked.struct named).distinct formed complete
  case union name =>
    obtain ⟨declared, named, read, formed, id, held, only, rfl⟩ := layer
    exact settled_union part followed named formed only

end Layer

/-- What is read is settled. -/
theorem Denotes.settled {schema : Schema} {limits : Limits} {levels : Nat} (linked : schema.Linked)
    {type : DataType} {bytes : Bytes} {value : Value}
    (denotes : Denotes schema limits levels type bytes value) :
    Settled schema limits levels type bytes.length value := by
  induction levels generalizing type bytes value with
  | zero => exact False.elim denotes
  | succ levels inductionHypothesis => exact settled_layer linked inductionHypothesis denotes

end SchemaCodec
