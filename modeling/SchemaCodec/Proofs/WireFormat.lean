import SchemaCodec.Proofs.Pairing
import SchemaCodec.Proofs.Recognition
import SchemaCodec.Schema.Validation
import SchemaCodec.Wire.Decoding

/-!
# The wire format

What typed reading and untyped skipping accept, told without reading: which bytes denote which value
of a type, and which bytes a tag alone is enough to step over. Both are told for a number of levels,
one level of bytes in terms of the bytes one level below. Neither mentions a source, a position or
the number of bytes left.

Main statements: the readers recognise these two forms, so they read the same from every source; and
whatever denotes a value, or can be stepped over, takes at least the size by which counts are
refused.
-/

namespace SchemaCodec

open Decoder (FieldSequence FieldRow WireField Recognises)

/-- Bytes behind their length. -/
def Prefixed (taken bytes : Bytes) : Prop :=
  bytes.length < 0x80000000 ∧ taken = BigEndian.encode 4 bytes.length ++ bytes

/-- Items behind their count, each in its form. -/
def Numbered (form : Bytes → α → Prop) (taken : Bytes) (items : List α) : Prop :=
  items.length < 0x80000000 ∧ ∃ pieces, List.Forall₂ form pieces items ∧
    taken = BigEndian.encode 4 items.length ++ pieces.flatten

/-- The form of numbered items may be told in other words. -/
theorem Numbered.imp {form other : Bytes → α → Prop} {taken : Bytes} {items : List α}
    (numbered : Numbered form taken items) (each : ∀ {piece item}, form piece item →
      other piece item) : Numbered other taken items := by
  obtain ⟨small, pieces, formed, same⟩ := numbered
  exact ⟨small, pieces, formed.imp fun _ _ => each, same⟩

/-- The form of numbered items may be told in other words with what is known of each of them. -/
theorem Numbered.imp_of_mem {form other : Bytes → α → Prop} {taken : Bytes} {items : List α}
    (numbered : Numbered form taken items) (each : ∀ piece, ∀ item ∈ items, form piece item →
      other piece item) : Numbered other taken items := by
  obtain ⟨small, pieces, formed, same⟩ := numbered
  exact ⟨small, pieces, Pairing.forall₂_imp_right formed each, same⟩

/-- Bytes behind their length, which a reader is ready to hold. -/
def LengthPrefixed (limits : Limits) (taken bytes : Bytes) : Prop :=
  bytes.length ≤ limits.stringLength ∧ Prefixed taken bytes

/-- Items behind their count, which a reader is ready to hold, each in its form. -/
def Counted (limits : Limits) (form : Bytes → α → Prop) (taken : Bytes) (items : List α) : Prop :=
  items.length ≤ limits.containerLength ∧ Numbered form taken items

/-- Bytes of one kind and bytes of another kind behind them. Where one ends and the other starts is
left open, so the cut need not be the only one. -/
def Joined (first second : Bytes → Prop) (taken : Bytes) : Prop :=
  ∃ head tail, taken = head ++ tail ∧ first head ∧ second tail

/-- Both parts of two joined pieces may be told in other words. -/
theorem Joined.imp {first second other another : Bytes → Prop} {taken : Bytes}
    (joined : Joined first second taken) (head : ∀ {bytes}, first bytes → other bytes)
    (tail : ∀ {bytes}, second bytes → another bytes) : Joined other another taken := by
  obtain ⟨front, rest, rfl, before, behind⟩ := joined
  exact ⟨front, rest, rfl, head before, tail behind⟩

/-- What can be stepped over by its tag alone, when this is known one level below. -/
def SkippableLayer (limits : Limits) (below : WireTag → Bytes → Prop) (tag : WireTag)
    (taken : Bytes) : Prop :=
  match tag with
  | .stop => False
  | .bool | .byte => taken.length = 1
  | .i16 => taken.length = 2
  | .i32 => taken.length = 4
  | .i64 | .double => taken.length = 8
  | .string => ∃ bytes, LengthPrefixed limits taken bytes
  | .struct => ∃ kept : List (Int16 × Unit),
      FieldSequence (fun tag _ body found => below tag body ∧ found = none) taken kept
  | .map => ∃ keyTag valueTag body, ∃ items : List Unit,
      keyTag ≠ .stop ∧ valueTag ≠ .stop ∧ taken = keyTag.code :: valueTag.code :: body ∧
        Counted limits (fun bytes _ => Joined (below keyTag) (below valueTag) bytes) body items
  | .set | .list => ∃ elementTag body, ∃ items : List Unit,
      elementTag ≠ .stop ∧ taken = elementTag.code :: body ∧
        Counted limits (fun bytes _ => below elementTag bytes) body items

/-- What can be stepped over by its tag alone, at most that many levels deep. -/
def Skippable (limits : Limits) : Nat → WireTag → Bytes → Prop
  | 0 => fun _ _ => False
  | levels + 1 => SkippableLayer limits (Skippable limits levels)

/-- A field of a struct or union: a declared one has the tag of its type and denotes a value, any
other one is only stepped over. -/
def FieldForm (schema : Schema) (declared : List Field) (below : DataType → Bytes → Value → Prop)
    (passed : WireTag → Bytes → Prop) (tag : WireTag) (id : Int16) (body : Bytes)
    (found : Option Value) : Prop :=
  match fieldById? declared id with
  | some field => schema.wireTag field.type = .ok tag ∧
      ∃ value, below field.type body value ∧ found = some value
  | none => passed tag body ∧ found = none

/-- A value is found in a field that is declared, from bytes of its own and under the tag of its
type. -/
theorem FieldForm.exists_field {schema : Schema} {declared : List Field}
    {below : DataType → Bytes → Value → Prop} {passed : WireTag → Bytes → Prop} {tag : WireTag}
    {id : Int16} {body : Bytes} {value : Value}
    (form : FieldForm schema declared below passed tag id body (some value)) :
    ∃ found, fieldById? declared id = some found ∧ schema.wireTag found.type = .ok tag ∧
      below found.type body value := by
  unfold FieldForm at form
  cases known : fieldById? declared id with
  | none => simp [known] at form
  | some found =>
    simp only [known] at form
    obtain ⟨tagged, _, here, same⟩ := form
    exact ⟨found, rfl, tagged, Option.some.inj same ▸ here⟩

/-- The items of a list or set of a type: the tag of that type, their count, and the items. -/
def SequenceForm (schema : Schema) (limits : Limits) (element : DataType)
    (below : DataType → Bytes → Value → Prop) (taken : Bytes) (items : List Value) : Prop :=
  ∃ tag body, schema.wireTag element = .ok tag ∧ taken = tag.code :: body ∧
    Counted limits (below element) body items

/-- The entries of a map: the tags of both types, the count, and each key before its value. -/
def EntriesForm (schema : Schema) (limits : Limits) (keyType valueType : DataType)
    (below : DataType → Bytes → Value → Prop) (taken : Bytes) (entries : List (Value × Value)) :
    Prop :=
  ∃ keyTag valueTag body, schema.wireTag keyType = .ok keyTag ∧
    schema.wireTag valueType = .ok valueTag ∧ taken = keyTag.code :: valueTag.code :: body ∧
      Counted limits (fun bytes entry =>
        Joined (below keyType · entry.1) (below valueType · entry.2) bytes) body entries

/-- What denotes a value of a type that is no typedef, when this and what can be stepped over are
known one level below. Elements, entries and fields are inserted in the order of the wire. -/
def DenotesLayer (schema : Schema) (limits : Limits) (below : DataType → Bytes → Value → Prop)
    (passed : WireTag → Bytes → Prop) (type : DataType) (taken : Bytes) (value : Value) : Prop :=
  match type with
  | .bool => ∃ code, taken = [code] ∧ value = .bool (code ≠ 0)
  | .byte => ∃ number, taken = encodeInt8 number ∧ value = .byte number
  | .i16 => ∃ number, taken = encodeInt16 number ∧ value = .i16 number
  | .i32 => ∃ number, taken = encodeInt32 number ∧ value = .i32 number
  | .i64 => ∃ number, taken = encodeInt64 number ∧ value = .i64 number
  | .double => ∃ number : Double, taken = number.encode ∧ value = .double number
  | .string => ∃ bytes, LengthPrefixed limits taken bytes ∧
      ∃ text, Utf8.decode? bytes = some text ∧ value = .string text
  | .binary => ∃ bytes, LengthPrefixed limits taken bytes ∧ value = .binary bytes
  | .list element => ∃ items, SequenceForm schema limits element below taken items ∧
      value = .list items
  | .set element => ∃ items, SequenceForm schema limits element below taken items ∧
      value = .set (Value.elementsOf items)
  | .map keyType valueType => ∃ entries,
      EntriesForm schema limits keyType valueType below taken entries ∧
        value = .map (Value.entriesOf entries)
  | .struct name => ∃ declared, schema.structType name = .ok declared ∧
      ∃ read, FieldSequence (FieldForm schema declared.fields below passed) taken read ∧
        Schema.missingRequired? declared.fields (Value.Fields.ofList read).contains = none ∧
          value = .struct (Value.Fields.ofList read)
  | .union name => ∃ declared, schema.unionType name = .ok declared ∧
      ∃ read, FieldSequence (FieldForm schema declared.fields below passed) taken read ∧
        ∃ id held, Value.Fields.ofList read = [(id, held)] ∧ value = .union id held
  | .enum name => ∃ declared, schema.enumType name = .ok declared ∧
      ∃ number, taken = encodeInt32 number ∧
        value = .enum number ((declared.memberByNumber? number).map (·.name))
  | .typedef _ => False

/-- What denotes a value of a type, at most that many levels deep. -/
def Denotes (schema : Schema) (limits : Limits) : Nat → DataType → Bytes → Value → Prop
  | 0 => fun _ _ _ => False
  | levels + 1 => fun type taken value => ∃ behind, schema.canonical type = .ok behind ∧
      DenotesLayer schema limits (Denotes schema limits levels) (Skippable limits levels) behind
        taken value

section LeastSizes

variable {limits : Limits}

/-- A length or count takes four bytes. -/
theorem length_count (number : Nat) : (BigEndian.encode 4 number).length = 4 :=
  BigEndian.length_encode 4 number

/-- Items that each take a least size take it together. -/
theorem length_mul_le_flatten {leastSize : Nat} {pieces : List Bytes} {items : List α}
    (large : List.Forall₂ (fun piece _ => leastSize ≤ piece.length) pieces items) :
    items.length * leastSize ≤ pieces.flatten.length := by
  induction large with
  | nil => simp
  | @cons piece item pieces items here _ inductionHypothesis =>
    simp only [List.length_cons, List.flatten_cons, List.length_append, Nat.succ_mul]
    omega

/-- What is counted takes the four bytes of the count. -/
theorem Numbered.four_le {form : Bytes → α → Prop} {taken : Bytes} {items : List α}
    (numbered : Numbered form taken items) : 4 ≤ taken.length := by
  obtain ⟨-, pieces, -, rfl⟩ := numbered
  rw [List.length_append, length_count]
  omega

/-- Two kinds of bytes together take what each of them takes at least. -/
theorem Joined.add_le {first second : Bytes → Prop} {taken : Bytes} {firstSize secondSize : Nat}
    (joined : Joined first second taken)
    (firstLarge : ∀ bytes, first bytes → firstSize ≤ bytes.length)
    (secondLarge : ∀ bytes, second bytes → secondSize ≤ bytes.length) :
    firstSize + secondSize ≤ taken.length := by
  obtain ⟨head, tail, rfl, before, behind⟩ := joined
  rw [List.length_append]
  exact Nat.add_le_add (firstLarge head before) (secondLarge tail behind)

/-- What has a length prefix takes the four bytes of the length. -/
theorem Prefixed.four_le {taken bytes : Bytes} (lengthPrefixed : Prefixed taken bytes) :
    4 ≤ taken.length := by
  obtain ⟨-, rfl⟩ := lengthPrefixed
  rw [List.length_append, length_count]
  omega

/-- A field sequence takes the byte of its stop. -/
theorem one_le_of_fieldSequence {form : WireTag → Int16 → Bytes → Option α → Prop} {taken : Bytes}
    {result : List (Int16 × α)} (formed : FieldSequence form taken result) : 1 ≤ taken.length := by
  obtain ⟨row, formed⟩ := formed
  exact Nat.lt_of_le_of_lt (Nat.zero_le row.length) formed.length_lt

/-- What can be stepped over takes the least size of its kind.

Proof: by the tag. Numbers have their width, lengths and counts take four bytes, the tags of a
container one byte each, and a struct has at least its stop. -/
theorem SkippableLayer.leastSize_le {below : WireTag → Bytes → Prop} {tag : WireTag} {taken : Bytes}
    (skippable : SkippableLayer limits below tag taken) : tag.leastSize ≤ taken.length := by
  cases tag <;> simp only [SkippableLayer] at skippable <;> simp only [WireTag.leastSize]
  case string => exact skippable.elim fun _ lengthPrefixed => lengthPrefixed.2.four_le
  case struct => exact skippable.elim fun _ => one_le_of_fieldSequence
  case map =>
    obtain ⟨_, _, body, _, _, _, rfl, counted⟩ := skippable
    have four := counted.2.four_le
    simp only [List.length_cons]
    omega
  case set | list =>
    obtain ⟨_, body, _, _, rfl, counted⟩ := skippable
    have four := counted.2.four_le
    simp only [List.length_cons]
    omega
  all_goals omega

/-- What denotes a value takes the least size of the kind of its type.

Proof: by the type. A number has its width, an announced length takes four bytes, the tags in front
of a container take one byte each, and a record has at least its stop. -/
theorem DenotesLayer.leastSize_le {schema : Schema} {below : DataType → Bytes → Value → Prop}
    {passed : WireTag → Bytes → Prop} {type : DataType} {tag : WireTag} {taken : Bytes}
    {value : Value} (denotes : DenotesLayer schema limits below passed type taken value)
    (known : type.wireTag? = some tag) : tag.leastSize ≤ taken.length := by
  cases type <;> simp only [DenotesLayer] at denotes <;>
    simp only [DataType.wireTag?, Option.some.injEq] at known <;> subst known <;>
    simp only [WireTag.leastSize]
  case bool | byte | i16 | i32 | i64 | double =>
    obtain ⟨number, rfl, -⟩ := denotes
    simp
  case string | binary =>
    obtain ⟨bytes, lengthPrefixed, -⟩ := denotes
    exact lengthPrefixed.2.four_le
  case list | set =>
    obtain ⟨items, ⟨_, body, -, rfl, counted⟩, -⟩ := denotes
    exact Nat.succ_le_succ counted.2.four_le
  case map =>
    obtain ⟨entries, ⟨_, _, body, -, -, rfl, counted⟩, -⟩ := denotes
    exact Nat.succ_le_succ (Nat.succ_le_succ counted.2.four_le)
  case struct | union =>
    obtain ⟨_, -, read, formed, -⟩ := denotes
    exact one_le_of_fieldSequence formed
  case enum =>
    obtain ⟨_, -, number, rfl, -⟩ := denotes
    simp

/-- What can be stepped over takes the least size of its kind, at any number of levels. -/
theorem Skippable.leastSize_le {levels : Nat} {tag : WireTag} {taken : Bytes}
    (skippable : Skippable limits levels tag taken) : tag.leastSize ≤ taken.length := by
  cases levels with
  | zero => exact False.elim skippable
  | succ levels => exact SkippableLayer.leastSize_le skippable

/-- A tag of a type is that of the type behind all typedefs. -/
theorem wireTag_eq_ok {schema : Schema} {type : DataType} {tag : WireTag} :
    schema.wireTag type = .ok tag ↔
      ∃ behind, schema.canonical type = .ok behind ∧ behind.wireTag? = some tag := by
  unfold Schema.wireTag
  cases schema.canonical type with
  | error error => simp
  | ok behind => cases known : behind.wireTag? <;> simp [known]

/-- What denotes a value takes the least size of the kind of its type, at any number of levels. -/
theorem Denotes.leastSize_le {schema : Schema} {levels : Nat} {type : DataType} {tag : WireTag}
    {taken : Bytes} {value : Value} (denotes : Denotes schema limits levels type taken value)
    (known : schema.wireTag type = .ok tag) : tag.leastSize ≤ taken.length := by
  cases levels with
  | zero => exact False.elim denotes
  | succ levels =>
    obtain ⟨behind, followed, layer⟩ := denotes
    obtain ⟨other, same, tagged⟩ := wireTag_eq_ok.mp known
    obtain rfl := Except.ok.inj (followed.symm.trans same)
    exact layer.leastSize_le tagged

end LeastSizes

namespace Decoder

/-- The bytes behind a length prefix. -/
theorem recognises_lengthPrefixed (limits : Limits) :
    Recognises (lengthPrefixed limits) (LengthPrefixed limits) := by
  refine ((announces_length limits).bind recognises_payload ?_).of_iff fun taken bytes => ?_
  · rintro number body bytes ⟨rfl, length⟩
    exact Nat.le_of_eq length.symm
  · constructor
    · rintro ⟨number, body, within, small, rfl, rfl, rfl⟩
      exact ⟨within, small, rfl⟩
    · rintro ⟨within, small, rfl⟩
      exact ⟨bytes.length, bytes, within, small, rfl, rfl, rfl⟩

/-- What is made of items behind their count. A source that knows its length refuses a count for
which the bytes left are too few; the items would not have been there. -/
theorem recognises_counted {item : Nat → Decoder α} {form : Bytes → α → Prop} {leastSize : Nat}
    (limits : Limits) (recognised : ∀ position, Recognises (item position) form)
    (large : ∀ bytes result, form bytes result → leastSize ≤ bytes.length)
    (convert : List α → β) :
    Recognises (do
      let size ← count limits leastSize
      let items ← collect item size 0
      pure (convert items)) fun taken result =>
        ∃ items, Counted limits form taken items ∧ result = convert items := by
  have counted : Recognises (count limits leastSize >>= fun size => collect item size 0)
      (Counted limits form) := by
    refine ((announces_count limits leastSize).bind (fun size =>
      recognises_collect recognised size 0) ?_).of_iff fun taken items => ?_
    · rintro number body items ⟨rfl, pieces, formed, rfl⟩
      exact length_mul_le_flatten (formed.imp large)
    · constructor
      · rintro ⟨number, body, within, small, rfl, rfl, pieces, formed, rfl⟩
        exact ⟨within, small, pieces, formed, rfl⟩
      · rintro ⟨within, small, pieces, formed, rfl⟩
        exact ⟨items.length, pieces.flatten, within, small, rfl, rfl, pieces, formed, rfl⟩
  simpa only [bind_assoc] using counted.map convert

/-- A decoder that recognises a form gives a result for all of some bytes when they have the form.

Proof: what was read is a front of the bytes that has the form. Nothing is left over exactly if this
front is all of them, and then the decoder does not refuse what is behind. -/
theorem Recognises.runOnAll_eq_ok {decoder : Decoder α} {form : Bytes → α → Prop}
    (recognised : Recognises decoder form) {bytes : Bytes} {result : α} :
    decoder.runOnAll bytes = .ok result ↔ form bytes result := by
  unfold runOnAll
  constructor
  · intro read
    rcases begun : decoder.run (.ofBytes bytes) with ⟨_ | found, after⟩ <;>
      simp only [begun, reduceCtorEq] at read
    obtain ⟨taken, rest, rfl, formed, rfl⟩ := recognised.form_of_slice begun
    cases rest with
    | cons byte rest => simp [Source.unread] at read
    | nil =>
      obtain rfl := Except.ok.inj read
      rwa [List.append_nil]
  · intro formed
    have begun := recognised.run_slice formed 0 []
    rw [List.append_nil] at begun
    rw [show Source.ofBytes bytes = ⟨0, .slice bytes⟩ from rfl, begun]
    rfl

/-- One value stepped over behind another. -/
theorem Recognises.skipBoth {first second : Decoder Unit} {head tail : Bytes → Prop}
    (before : Recognises first fun taken _ => head taken)
    (behind : Recognises second fun taken _ => tail taken) :
    Recognises (first >>= fun _ => second) fun taken _ => Joined head tail taken :=
  (before.bind fun _ => behind).of_iff fun taken result => by simp [Joined]

/-- Skipping by tag steps over what its tag alone is enough to step over, and nothing else.

Proof: by induction on the levels, and by the tag. Some tags have a fixed number of bytes, text has
an announced one; the parts of containers and fields are skipped one level below, behind the tags
and the count that are read. -/
theorem recognises_skipWithin (limits : Limits) (levels : Nat) (tag : WireTag) :
    Recognises (skipWithin limits levels tag) fun taken _ =>
      Skippable limits levels tag taken := by
  induction levels generalizing tag with
  | zero => exact .position_bind fun start => .fail _ start
  | succ levels inductionHypothesis =>
    have sequence : Recognises (do
        let tag ← elementTag
        let size ← count limits tag.leastSize
        let _ ← collect (fun position =>
          within (.index position) (skipWithin limits levels tag)) size 0) fun taken _ =>
        Skippable limits (levels + 1) .list taken := by
      have elements (elementTag : WireTag) := (recognises_counted limits (fun position =>
        (inductionHypothesis elementTag).within (.index position))
        fun bytes _ skippable => Skippable.leastSize_le skippable) fun _ => ()
      refine (recognises_elementTag.bind elements).of_iff fun taken _ => ?_
      constructor
      · rintro ⟨elementTag, _, body, rfl, ⟨rfl, counted⟩, items, formed, -⟩
        exact ⟨elementTag, body, items, counted, rfl, formed⟩
      · rintro ⟨elementTag, body, items, counted, rfl, formed⟩
        exact ⟨elementTag, [elementTag.code], body, rfl, ⟨rfl, counted⟩, items, formed, rfl⟩
    cases tag with
    | stop => exact .position_bind fun start => .fail _ start
    | bool => exact recognises_skipBytes 1
    | byte => exact recognises_skipBytes 1
    | i16 => exact recognises_skipBytes 2
    | i32 => exact recognises_skipBytes 4
    | i64 => exact recognises_skipBytes 8
    | double => exact recognises_skipBytes 8
    | string =>
      refine ((announces_length limits).bind recognises_skipBytes ?_).of_iff fun taken _ => ?_
      · intro number body _ length
        exact Nat.le_of_eq length.symm
      · constructor
        · rintro ⟨number, body, within, small, rfl, rfl⟩
          exact ⟨body, within, small, rfl⟩
        · rintro ⟨bytes, within, small, rfl⟩
          exact ⟨bytes.length, bytes, within, small, rfl, rfl⟩
    | struct =>
      have skipped : Recognises (fields fun header => do
          within (.field header.id) (skipWithin limits levels header.tag)
          pure none) (FieldSequence fun tag _ body (found : Option Unit) =>
            Skippable limits levels tag body ∧ found = none) := by
        refine recognises_fields fun header => ?_
        refine (((inductionHypothesis header.tag).within (.field header.id)).map
          fun _ => none).of_iff fun body found => ?_
        simp
      refine (skipped.map fun _ => ()).of_iff fun taken _ => ?_
      simp [Skippable, SkippableLayer]
    | map =>
      have entries (keyTag valueTag : WireTag) := (recognises_counted limits (fun position =>
        ((inductionHypothesis keyTag).within (.key position)).skipBoth
          ((inductionHypothesis valueTag).within (.value position)))
        fun bytes _ joined => joined.add_le (fun _ => Skippable.leastSize_le) fun _ =>
          Skippable.leastSize_le) fun _ => ()
      refine (recognises_elementTag.bind fun keyTag =>
        recognises_elementTag.bind fun valueTag => entries keyTag valueTag).of_iff fun taken _ => ?_
      constructor
      · rintro ⟨keyTag, _, _, rfl, ⟨rfl, keyed⟩, valueTag, _, body, rfl, ⟨rfl, valued⟩, items,
          counted, -⟩
        exact ⟨keyTag, valueTag, body, items, keyed, valued, rfl, counted⟩
      · rintro ⟨keyTag, valueTag, body, items, keyed, valued, rfl, counted⟩
        exact ⟨keyTag, [keyTag.code], _, rfl, ⟨rfl, keyed⟩, valueTag, [valueTag.code], body, rfl,
          ⟨rfl, valued⟩, items, counted, rfl⟩
    | set => exact sequence
    | list => exact sequence

section Typed

variable {schema : Schema} {below : DataType → Bytes → Value → Prop}
  {passed : WireTag → Bytes → Prop} {read : DataType → Decoder Value}
  {skip : WireTag → Decoder Unit}

/-- What is done with one field of a struct or union. -/
def declaredField (schema : Schema) (declared : List Field) (read : DataType → Decoder Value)
    (skip : WireTag → Decoder Unit) (header : FieldHeader) : Decoder (Option Value) :=
  match fieldById? declared header.id with
  | some field => do
    let expected ← lookup header.offset id (schema.wireTag field.type)
    if header.tag = expected then
      let value ← within (.field header.id) (read field.type)
      pure (some value)
    else
      within (.field header.id)
        (fail (.unexpectedTypeTag expected header.tag.code) header.offset)
  | none => do
    within (.field header.id) (skip header.tag)
    pure none

/-- Reading one field recognises its form when the readers of values and of what is stepped over
recognise theirs.

Proof: by whether the id is declared. If it is not, the field is skipped by its tag. If it is, the
tag has to be that of the declared type, and then a value of this type is read. -/
theorem recognises_declaredField (readers : ∀ type, Recognises (read type) (below type))
    (skippers : ∀ tag, Recognises (skip tag) fun taken _ => passed tag taken)
    (declared : List Field) (header : FieldHeader) :
    Recognises (declaredField schema declared read skip header)
      (FieldForm schema declared below passed header.tag header.id) := by
  unfold declaredField FieldForm
  cases known : fieldById? declared header.id with
  | none =>
    refine (((skippers header.tag).within (.field header.id)).map fun _ => none).of_iff
      fun body found => ?_
    simp
  | some field =>
    have expecting (expected : WireTag) : Recognises (if header.tag = expected then do
          let value ← within (.field header.id) (read field.type)
          pure (some value)
        else
          within (.field header.id)
            (fail (.unexpectedTypeTag expected header.tag.code) header.offset)) fun body found =>
        header.tag = expected ∧ ∃ value, below field.type body value ∧ found = some value := by
      by_cases same : header.tag = expected
      · rw [if_pos same]
        refine (((readers field.type).within (.field header.id)).map some).of_iff
          fun body found => ?_
        simp [same]
      · rw [if_neg same]
        refine (Recognises.within (.field header.id) (.fail _ header.offset)).of_iff
          fun body found => ?_
        simp [same]
    refine (Recognises.lookup_bind header.offset id fun expected _ => expecting expected).of_iff
      fun body found => ?_
    constructor
    · rintro ⟨expected, tagged, rfl, formed⟩
      exact ⟨tagged, formed⟩
    · rintro ⟨tagged, formed⟩
      exact ⟨header.tag, tagged, rfl, formed⟩

/-- Reading the fields of a struct or union recognises field sequences. -/
theorem recognises_declaredFields (readers : ∀ type, Recognises (read type) (below type))
    (skippers : ∀ tag, Recognises (skip tag) fun taken _ => passed tag taken)
    (declared : List Field) :
    Recognises (declaredFields schema declared read skip)
      (FieldSequence (FieldForm schema declared below passed)) :=
  recognises_fields (recognises_declaredField readers skippers declared)

/-- Reading a list or set recognises the tag of the elements and the elements themselves. -/
theorem recognises_sequence {item : Nat → Decoder Value} (limits : Limits) (element : DataType)
    (recognised : ∀ position, Recognises (item position) (below element))
    (large : ∀ tag bytes value, schema.wireTag element = .ok tag → below element bytes value →
      tag.leastSize ≤ bytes.length) (convert : List Value → Value) :
    Recognises (do
      let size ← sequenceHeader schema limits element
      let items ← collect item size 0
      pure (convert items)) fun taken value =>
        ∃ items, SequenceForm schema limits element below taken items ∧ value = convert items := by
  simp only [sequenceHeader, bind_assoc]
  refine .position_bind fun start => ?_
  refine (Recognises.lookup_bind start id fun tag tagged => (recognises_expectTag tag).bind fun _ =>
    recognises_counted limits recognised (fun bytes value => large tag bytes value tagged)
      convert).of_iff fun taken value => ?_
  constructor
  · rintro ⟨tag, tagged, _, _, body, rfl, rfl, items, counted, rfl⟩
    exact ⟨items, ⟨tag, body, tagged, rfl, counted⟩, rfl⟩
  · rintro ⟨items, ⟨tag, body, tagged, rfl, counted⟩, rfl⟩
    exact ⟨tag, tagged, (), [tag.code], body, rfl, rfl, items, counted, rfl⟩

/-- Reading a key and a value recognises what denotes one behind the other. -/
theorem recognises_entry {first second : Decoder Value} {keyForm valueForm : Bytes → Value → Prop}
    (key : Recognises first keyForm) (value : Recognises second valueForm) :
    Recognises (do
      let key ← first
      let value ← second
      pure (key, value)) fun bytes entry =>
        Joined (keyForm · entry.1) (valueForm · entry.2) bytes := by
  refine (key.bind fun key => value.map (key, ·)).of_iff fun bytes entry => ?_
  constructor
  · rintro ⟨key, head, tail, rfl, keyed, value, valued, rfl⟩
    exact ⟨head, tail, rfl, keyed, valued⟩
  · rintro ⟨head, tail, rfl, keyed, valued⟩
    exact ⟨entry.1, head, tail, rfl, keyed, entry.2, valued, rfl⟩

/-- Reading a map recognises the tags of keys and values and the entries themselves.

Proof: both tags are looked up, expected and read, and the count is followed by that many pairs of a
key and a value. Each step recognises its own form, so together they recognise the form of the map.
-/
theorem recognises_entries {keyItem valueItem : Nat → Decoder Value} (limits : Limits)
    (keyType valueType : DataType) (start : Nat)
    (keysRecognised : ∀ position, Recognises (keyItem position) (below keyType))
    (valuesRecognised : ∀ position, Recognises (valueItem position) (below valueType))
    (keysLarge : ∀ tag bytes value, schema.wireTag keyType = .ok tag →
      below keyType bytes value → tag.leastSize ≤ bytes.length)
    (valuesLarge : ∀ tag bytes value, schema.wireTag valueType = .ok tag →
      below valueType bytes value → tag.leastSize ≤ bytes.length) :
    Recognises (do
      let keyTag ← lookup start id (schema.wireTag keyType)
      let valueTag ← lookup start id (schema.wireTag valueType)
      expectTag keyTag
      expectTag valueTag
      let size ← count limits (keyTag.leastSize + valueTag.leastSize)
      let entries ← collect (fun position => do
        let key ← keyItem position
        let value ← valueItem position
        pure (key, value)) size 0
      pure (Value.map (Value.entriesOf entries))) fun taken value => ∃ entries,
        EntriesForm schema limits keyType valueType below taken entries ∧
          value = .map (Value.entriesOf entries) := by
  refine (Recognises.lookup_bind start id fun keyTag keyTagged =>
    Recognises.lookup_bind start id fun valueTag valueTagged =>
    (recognises_expectTag keyTag).bind fun _ => (recognises_expectTag valueTag).bind fun _ =>
    recognises_counted limits (fun position =>
      recognises_entry (keysRecognised position) (valuesRecognised position))
      (fun bytes entry joined => joined.add_le
      (fun bytes => keysLarge keyTag bytes entry.1 keyTagged)
      (fun bytes => valuesLarge valueTag bytes entry.2 valueTagged))
      fun entries => Value.map (Value.entriesOf entries)).of_iff fun taken value => ?_
  constructor
  · rintro ⟨keyTag, keyTagged, valueTag, valueTagged, _, _, _, rfl, rfl, _, _, body, rfl, rfl,
      entries, counted, rfl⟩
    exact ⟨entries, ⟨keyTag, valueTag, body, keyTagged, valueTagged, rfl, counted⟩, rfl⟩
  · rintro ⟨entries, ⟨keyTag, valueTag, body, keyTagged, valueTagged, rfl, counted⟩, rfl⟩
    exact ⟨keyTag, keyTagged, valueTag, valueTagged, (), [keyTag.code], _, rfl, rfl,
      (), [valueTag.code], body, rfl, rfl, entries, counted, rfl⟩

end Typed

/-- Typed reading gives what the bytes denote, and reads nothing else.

Proof: by induction on the levels, and by the type behind typedefs. Each kind is read by decoders
that recognise their forms, one behind the other, and parts are read one level below. Structs are
refused that lack a required field, and unions that do not hold one field. -/
theorem recognises_valueWithin (schema : Schema) (limits : Limits) (levels : Nat)
    (type : DataType) :
    Recognises (valueWithin schema limits levels type) (Denotes schema limits levels type) := by
  induction levels generalizing type with
  | zero => exact .position_bind fun start => .fail _ start
  | succ levels inductionHypothesis =>
    refine .position_bind fun start =>
      .lookup_bind start LookupError.message fun behind followed => ?_
    have sequence (element : DataType) (convert : List Value → Value) :=
      recognises_sequence limits element (fun position =>
        (inductionHypothesis element).within (.index position))
        (fun tag bytes value tagged denotes => Denotes.leastSize_le denotes tagged) convert
    have declaredFields (declared : List Field) :=
      @recognises_declaredFields schema _ _ _ _ inductionHypothesis
        (recognises_skipWithin limits levels) declared
    cases behind with
    | bool => exact recognises_uint8.map fun code => Value.bool (code ≠ 0)
    | byte => exact recognises_int8.map Value.byte
    | i16 => exact recognises_int16.map Value.i16
    | i32 => exact recognises_int32.map Value.i32
    | i64 => exact recognises_int64.map Value.i64
    | double => exact recognises_double.map Value.double
    | string =>
      refine Recognises.finish (fun bytes value => ∃ text, Utf8.decode? bytes = some text ∧
        value = Value.string text) (recognises_lengthPrefixed limits) fun bytes => ?_
      cases known : Utf8.decode? bytes with
      | none => exact (Recognises.fail _ start).of_iff fun _ _ => by simp
      | some text => exact (Recognises.pure _).of_iff fun _ _ => by simp
    | binary => exact (recognises_lengthPrefixed limits).map Value.binary
    | list element => exact sequence element Value.list
    | set element => exact sequence element fun items => .set (Value.elementsOf items)
    | map keyType valueType =>
      exact recognises_entries limits keyType valueType start
        (fun position => (inductionHypothesis keyType).within (.key position))
        (fun position => (inductionHypothesis valueType).within (.value position))
        (fun tag bytes value tagged denotes => Denotes.leastSize_le denotes tagged)
        (fun tag bytes value tagged denotes => Denotes.leastSize_le denotes tagged)
    | struct name =>
      refine Recognises.lookup_bind start LookupError.message fun declared _ => ?_
      refine Recognises.finish (fun read value =>
        Schema.missingRequired? declared.fields (Value.Fields.ofList read).contains = none ∧
          value = Value.struct (Value.Fields.ofList read)) (declaredFields declared.fields)
        fun read => ?_
      dsimp only
      unfold Schema.missingRequired?
      cases missing : declared.fields.find? fun field =>
          field.requiredness = .required && !(Value.Fields.ofList read).contains field.id with
      | some field =>
        exact (Recognises.position_bind fun here => .fail _ here).of_iff fun _ _ => by simp
      | none => exact (Recognises.pure _).of_iff fun _ _ => by simp
    | union name =>
      refine Recognises.lookup_bind start LookupError.message fun declared _ => ?_
      refine Recognises.finish (fun read value => ∃ id held,
        Value.Fields.ofList read = [(id, held)] ∧ value = Value.union id held)
        (declaredFields declared.fields) fun read => ?_
      split
      case h_1 id held one => exact (Recognises.pure _).of_iff fun _ _ => by simp [one]
      case h_2 several =>
        refine (Recognises.position_bind fun here => .fail _ here).of_iff fun _ _ => ?_
        simp only [false_iff, not_and, not_exists]
        exact fun _ id held one => absurd one (several id held)
    | enum name =>
      refine (recognises_int32.bind fun number => .lookup_bind start LookupError.message
        fun declared _ => .pure _).of_iff fun taken value => ?_
      constructor
      · rintro ⟨number, _, _, rfl, rfl, declared, named, rfl, rfl⟩
        exact ⟨declared, named, number, List.append_nil _, rfl⟩
      · rintro ⟨declared, named, number, rfl, rfl⟩
        exact ⟨number, _, [], (List.append_nil _).symm, rfl, declared, named, rfl, rfl⟩
    | typedef name => exact .fail _ start

end Decoder

end SchemaCodec
