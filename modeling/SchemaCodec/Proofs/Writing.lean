import Mathlib.Data.List.Nodup
import SchemaCodec.Proofs.Outcomes
import SchemaCodec.Proofs.WireFormat
import SchemaCodec.Wire.Encoding

/-!
# What is written

Encoding, told by its successes: the bytes of a value of a type are those of its parts one level
below, behind the tags, counts and headers that the type asks for. The fields of a struct are
written in the order of their declarations, whichever order the value holds them in.
-/

namespace SchemaCodec.Schema

open Outcome (bind_eq_ok mapError_eq_ok mapM_eq_ok)

variable {schema : Schema} {type : DataType}

/-- A field as it is written: the tag of its type, its id and its value. -/
def FieldWritten (schema : Schema) (declared : List Field)
    (below : DataType → Bytes → Value → Prop) (piece : Bytes) (field : Int16 × Value) : Prop :=
  ∃ found tag body, fieldById? declared field.1 = some found ∧
    schema.wireTag found.type = .ok tag ∧ below found.type body field.2 ∧
      piece = tag.code :: (encodeInt16 field.1 ++ body)

/-- The fields that are set, in the order of their declarations. -/
def inOrder (declared : List Field) (fields : List (Int16 × Value)) : List (Int16 × Value) :=
  declared.filterMap fun field => fields.find? (·.1 = field.id)

/-- What is put in order was there. -/
theorem mem_of_mem_inOrder {declared : List Field} {fields : List (Int16 × Value)}
    {field : Int16 × Value} (member : field ∈ inOrder declared fields) : field ∈ fields := by
  obtain ⟨_, -, found⟩ := List.mem_filterMap.mp member
  exact List.mem_of_find?_eq_some found

/-- Where each id is declared once and set at most once, putting declared fields in order only
rearranges them.

Proof: the ids of what is put in order are some of the declared ones, in their order, so none occurs
twice. Each field that is set is declared, so it is found at its declaration, and nothing else is.
-/
theorem inOrder_perm {declared : List Field} {fields : List (Int16 × Value)}
    (distinct : (declared.map (·.id)).Nodup) (once : (fields.map (·.1)).Nodup)
    (known : ∀ field ∈ fields, ∃ found, fieldById? declared field.1 = some found) :
    (inOrder declared fields).Perm fields := by
  have ids : ((inOrder declared fields).map (·.1)).Sublist (declared.map (·.id)) := by
    clear distinct known
    induction declared with
    | nil => exact .slnil
    | cons field rest inductionHypothesis =>
      rw [inOrder, List.filterMap_cons]
      cases found : fields.find? (·.1 = field.id) with
      | none => exact .cons _ inductionHypothesis
      | some set =>
        have sameId : set.1 = field.id := by simpa using List.find?_some found
        rw [List.map_cons, List.map_cons, ← sameId]
        exact .cons_cons _ inductionHypothesis
  refine (List.perm_ext_iff_of_nodup (.of_map _ (ids.nodup distinct)) (.of_map _ once)).mpr
    fun field => ?_
  constructor
  · exact mem_of_mem_inOrder
  · intro member
    obtain ⟨found, isKnown⟩ := known field member
    obtain ⟨present, sameId⟩ := mem_of_fieldById? isKnown
    refine List.mem_filterMap.mpr ⟨found, present, ?_⟩
    cases first : fields.find? (·.1 = found.id) with
    | none =>
      have absent := List.find?_eq_none.mp first field member
      simp [sameId] at absent
    | some other =>
      have otherId : other.1 = found.id := by simpa using List.find?_some first
      have same := List.inj_on_of_nodup_map once (List.mem_of_find?_eq_some first) member
        (otherId.trans sameId)
      rw [same]

/-- What is written for a value of a type that is no typedef, when this is known of the parts one
level below. -/
def WritesLayer (schema : Schema) (below : DataType → Bytes → Value → Prop) (value : Value)
    (behind : DataType) (bytes : Bytes) : Prop :=
  match value with
  | .bool held => behind = .bool ∧ bytes = [if held then 1 else 0]
  | .byte number => behind = .byte ∧ bytes = encodeInt8 number
  | .i16 number => behind = .i16 ∧ bytes = encodeInt16 number
  | .i32 number => behind = .i32 ∧ bytes = encodeInt32 number
  | .i64 number => behind = .i64 ∧ bytes = encodeInt64 number
  | .double number => behind = .double ∧ bytes = number.encode
  | .string text => behind = .string ∧ Prefixed bytes (Utf8.encode text)
  | .binary held => behind = .binary ∧ Prefixed bytes held
  | .list items => ∃ element tag body, behind = .list element ∧
      schema.wireTag element = .ok tag ∧ Numbered (below element) body items ∧
        bytes = tag.code :: body
  | .set elements => ∃ element tag body, behind = .set element ∧
      schema.wireTag element = .ok tag ∧ Numbered (below element) body elements ∧
        bytes = tag.code :: body
  | .map entries => ∃ keyType valueType keyTag valueTag body, behind = .map keyType valueType ∧
      schema.wireTag keyType = .ok keyTag ∧ schema.wireTag valueType = .ok valueTag ∧
        Numbered (fun piece entry =>
          Joined (below keyType · entry.1) (below valueType · entry.2) piece) body entries ∧
          bytes = keyTag.code :: valueTag.code :: body
  | .struct fields => ∃ name declared pieces, behind = .struct name ∧
      schema.structType name = .ok declared ∧
        List.Forall₂ (FieldWritten schema declared.fields below) pieces
          (inOrder declared.fields fields) ∧
          bytes = pieces.flatten ++ [WireTag.stop.code]
  | .union id held => ∃ name declared piece, behind = .union name ∧
      schema.unionType name = .ok declared ∧
        FieldWritten schema declared.fields below piece (id, held) ∧
          bytes = piece ++ [WireTag.stop.code]
  | .enum number _ => ∃ name, behind = .enum name ∧ bytes = encodeInt32 number

/-- A lookup on behalf of a value that is written succeeds when the lookup does. -/
theorem writing_eq_ok {outcome : Except LookupError α} {result : α} :
    writing outcome = .ok result ↔ outcome = .ok result :=
  mapError_eq_ok

/-- A tag is written for a type that has one. -/
theorem tagCode_eq_ok {code : UInt8} : schema.tagCode type = .ok code ↔
    ∃ tag, schema.wireTag type = .ok tag ∧ code = tag.code := by
  unfold tagCode
  cases schema.wireTag type <;> simp [eq_comm]

/-- A length is written when its prefix can hold it. -/
theorem encodeLength_eq_ok {length : Nat} {bytes : Bytes} : encodeLength length = .ok bytes ↔
    length < 0x80000000 ∧ bytes = BigEndian.encode 4 length := by
  unfold encodeLength
  by_cases small : length < 0x80000000 <;> simp [small, eq_comm]

/-- Bytes are written behind their length when its prefix can hold it. -/
theorem encodeLengthPrefixed_eq_ok {held bytes : Bytes} :
    encodeLengthPrefixed held = .ok bytes ↔ Prefixed bytes held := by
  unfold encodeLengthPrefixed Prefixed
  simp only [bind_eq_ok, encodeLength_eq_ok, Except.ok.injEq]
  constructor
  · rintro ⟨_, ⟨small, rfl⟩, rfl⟩
    exact ⟨small, rfl⟩
  · rintro ⟨small, rfl⟩
    exact ⟨_, ⟨small, rfl⟩, rfl⟩

/-- A value without parts is written where its own type is asked for. -/
theorem encodePrimitive_eq_ok {kind : DataType} {encoded : Except EncodeError Bytes}
    {bytes : Bytes} : schema.encodePrimitive kind type encoded = .ok bytes ↔
      ∃ behind, schema.canonical type = .ok behind ∧ behind = kind ∧ encoded = .ok bytes := by
  unfold encodePrimitive
  simp only [bind_eq_ok, writing_eq_ok]
  refine exists_congr fun behind => and_congr_right fun _ => ?_
  by_cases same : behind = kind <;> simp [same]

/-- Elements are written one after another. -/
theorem encodeElements_eq_ok {items : List Value} {bytes : Bytes} :
    schema.encodeElements items type = .ok bytes ↔
      ∃ pieces, List.Forall₂ (fun piece item => schema.encodeValue item type = .ok piece)
        pieces items ∧ bytes = pieces.flatten := by
  induction items generalizing bytes with
  | nil => simp [encodeElements, eq_comm]
  | cons item rest inductionHypothesis =>
    simp only [encodeElements, bind_eq_ok, inductionHypothesis, Except.ok.injEq]
    constructor
    · rintro ⟨piece, here, _, ⟨pieces, there, rfl⟩, rfl⟩
      exact ⟨piece :: pieces, .cons here there, rfl⟩
    · rintro ⟨pieces, all, rfl⟩
      cases all with
      | cons here there => exact ⟨_, here, _, ⟨_, there, rfl⟩, rfl⟩

/-- Entries are written one after another, each key before its value. -/
theorem encodeEntries_eq_ok {entries : List (Value × Value)} {keyType valueType : DataType}
    {bytes : Bytes} : schema.encodeEntries entries keyType valueType = .ok bytes ↔
      ∃ pieces, List.Forall₂ (fun piece entry =>
        Joined (fun head => schema.encodeValue entry.1 keyType = .ok head)
          (fun tail => schema.encodeValue entry.2 valueType = .ok tail) piece)
        pieces entries ∧ bytes = pieces.flatten := by
  induction entries generalizing bytes with
  | nil => simp [encodeEntries, eq_comm]
  | cons entry rest inductionHypothesis =>
    simp only [encodeEntries, bind_eq_ok, inductionHypothesis, Except.ok.injEq]
    constructor
    · rintro ⟨key, keyWritten, value, valueWritten, _, ⟨pieces, there, rfl⟩, rfl⟩
      exact ⟨(key ++ value) :: pieces, .cons ⟨key, value, rfl, keyWritten, valueWritten⟩ there, rfl⟩
    · rintro ⟨pieces, all, rfl⟩
      cases all with
      | cons here there =>
        obtain ⟨key, value, rfl, keyWritten, valueWritten⟩ := here
        exact ⟨key, keyWritten, value, valueWritten, _, ⟨_, there, rfl⟩, rfl⟩

/-- The bytes of a field among declared ones. -/
def encodeField (schema : Schema) (declared : List Field) (field : Int16 × Value) :
    Except EncodeError Bytes :=
  match fieldById? declared field.1 with
  | none => .error (.valueMismatch ⟨.undeclaredField "" field.1, []⟩)
  | some found => do
    let code ← schema.tagCode found.type
    let body ← schema.encodeValue field.2 found.type
    .ok (code :: encodeInt16 field.1 ++ body)

/-- A field is written when it is declared, has a tag and its value is written. -/
theorem encodeField_eq_ok {declared : List Field} {field : Int16 × Value} {piece : Bytes} :
    schema.encodeField declared field = .ok piece ↔ FieldWritten schema declared
      (fun type bytes value => schema.encodeValue value type = .ok bytes) piece field := by
  unfold encodeField FieldWritten
  cases known : fieldById? declared field.1 with
  | none => simp
  | some found =>
    simp only [bind_eq_ok, tagCode_eq_ok, Except.ok.injEq, Option.some.injEq]
    constructor
    · rintro ⟨_, ⟨tag, tagged, rfl⟩, body, written, rfl⟩
      exact ⟨found, tag, body, rfl, tagged, written, rfl⟩
    · rintro ⟨_, tag, body, rfl, tagged, written, rfl⟩
      exact ⟨tag.code, ⟨tag, tagged, rfl⟩, body, written, rfl⟩

/-- What is found for a declared field among the encoded ones is the encoding of what is set for
it. -/
theorem find_encodeFields {declared : List Field} {id : Int16} {found : Field}
    (known : fieldById? declared id = some found) (fields : List (Int16 × Value)) :
    ((schema.encodeFields fields declared).find? (·.1 = id)).map (·.2) =
      (fields.find? (·.1 = id)).map (schema.encodeField declared) := by
  induction fields with
  | nil => rfl
  | cons field rest inductionHypothesis =>
    by_cases same : field.1 = id
    · subst same
      simp [encodeFields, known, encodeField]
    · cases other : fieldById? declared field.1 with
      | none => simpa [encodeFields, other, same] using inductionHypothesis
      | some found => simpa [encodeFields, other, same] using inductionHypothesis

/-- A declared field is found under its id, though another one may come first. -/
theorem exists_fieldById {declared : List Field} {field : Field} (member : field ∈ declared) :
    ∃ found, fieldById? declared field.id = some found := by
  cases known : fieldById? declared field.id with
  | some found => exact ⟨found, rfl⟩
  | none =>
    have absent := List.find?_eq_none.mp known field member
    simp at absent

/-- Encoding the fields of a struct in the order of their declarations is encoding each of them in
that order. -/
theorem inDeclaredOrder_eq_ok {declared : List Field} {fields : List (Int16 × Value)}
    {pieces : List Bytes} :
    inDeclaredOrder declared (schema.encodeFields fields declared) = .ok pieces ↔
      List.Forall₂ (FieldWritten schema declared
        fun type bytes value => schema.encodeValue value type = .ok bytes) pieces
        (inOrder declared fields) := by
  have each : (declared.filterMap fun field =>
      ((schema.encodeFields fields declared).find? (·.1 = field.id)).map (·.2)) =
        (inOrder declared fields).map (schema.encodeField declared) := by
    rw [inOrder, List.map_filterMap]
    refine List.filterMap_congr fun field member => ?_
    obtain ⟨found, known⟩ := exists_fieldById member
    exact find_encodeFields known fields
  rw [inDeclaredOrder, each, mapM_eq_ok, List.forall₂_map_right_iff]
  simp only [id_eq, encodeField_eq_ok]

/-- The elements of a list or set are written behind the tag of their type and their count. -/
theorem encodeSequence_eq_ok {element : DataType} {items : List Value} {bytes : Bytes} :
    (do
      let code ← schema.tagCode element
      let length ← encodeLength items.length
      let body ← schema.encodeElements items element
      .ok (code :: length ++ body)) = Except.ok bytes ↔
      ∃ tag body, schema.wireTag element = .ok tag ∧
        Numbered (fun piece item => schema.encodeValue item element = .ok piece) body items ∧
          bytes = tag.code :: body := by
  simp only [bind_eq_ok, tagCode_eq_ok, encodeLength_eq_ok, encodeElements_eq_ok, Except.ok.injEq]
  constructor
  · rintro ⟨_, ⟨tag, tagged, rfl⟩, _, ⟨small, rfl⟩, _, ⟨pieces, written, rfl⟩, rfl⟩
    exact ⟨tag, _, tagged, ⟨small, pieces, written, rfl⟩, rfl⟩
  · rintro ⟨tag, _, tagged, ⟨small, pieces, written, rfl⟩, rfl⟩
    exact ⟨_, ⟨tag, tagged, rfl⟩, _, ⟨small, rfl⟩, _, ⟨pieces, written, rfl⟩, rfl⟩

/-- The entries of a map are written behind the tags of their types and their count. -/
theorem encodeMap_eq_ok {keyType valueType : DataType} {entries : List (Value × Value)}
    {bytes : Bytes} :
    (do
      let keyCode ← schema.tagCode keyType
      let valueCode ← schema.tagCode valueType
      let length ← encodeLength entries.length
      let body ← schema.encodeEntries entries keyType valueType
      .ok (keyCode :: valueCode :: length ++ body)) = Except.ok bytes ↔
      ∃ keyTag valueTag body, schema.wireTag keyType = .ok keyTag ∧
        schema.wireTag valueType = .ok valueTag ∧
          Numbered (fun piece entry =>
            Joined (fun head => schema.encodeValue entry.1 keyType = .ok head)
              (fun tail => schema.encodeValue entry.2 valueType = .ok tail) piece) body entries ∧
            bytes = keyTag.code :: valueTag.code :: body := by
  simp only [bind_eq_ok, tagCode_eq_ok, encodeLength_eq_ok, encodeEntries_eq_ok, Except.ok.injEq]
  constructor
  · rintro ⟨_, ⟨keyTag, keyTagged, rfl⟩, _, ⟨valueTag, valueTagged, rfl⟩, _, ⟨small, rfl⟩, _,
      ⟨pieces, written, rfl⟩, rfl⟩
    exact ⟨keyTag, valueTag, _, keyTagged, valueTagged, ⟨small, pieces, written, rfl⟩, rfl⟩
  · rintro ⟨keyTag, valueTag, _, keyTagged, valueTagged, ⟨small, pieces, written, rfl⟩, rfl⟩
    exact ⟨_, ⟨keyTag, keyTagged, rfl⟩, _, ⟨valueTag, valueTagged, rfl⟩, _, ⟨small, rfl⟩, _,
      ⟨pieces, written, rfl⟩, rfl⟩

/-- The one field of a union is written like a field of a struct, and the stop behind it. -/
theorem encodeUnion_eq_ok {name : String} {declared : List Field} {id : Int16} {held : Value}
    {bytes : Bytes} :
    (match fieldById? declared id with
      | none => .error (.valueMismatch ⟨.undeclaredField name id, []⟩)
      | some field => do
        let code ← schema.tagCode field.type
        let body ← schema.encodeValue held field.type
        .ok (code :: encodeInt16 id ++ body ++ [WireTag.stop.code])) = Except.ok bytes ↔
      ∃ piece, FieldWritten schema declared
        (fun type bytes value => schema.encodeValue value type = .ok bytes) piece (id, held) ∧
          bytes = piece ++ [WireTag.stop.code] := by
  unfold FieldWritten
  cases known : fieldById? declared id with
  | none => simp
  | some found =>
    simp only [bind_eq_ok, tagCode_eq_ok, Except.ok.injEq, Option.some.injEq]
    constructor
    · rintro ⟨_, ⟨tag, tagged, rfl⟩, body, written, rfl⟩
      exact ⟨_, ⟨found, tag, body, rfl, tagged, written, rfl⟩, rfl⟩
    · rintro ⟨_, ⟨_, tag, body, rfl, tagged, written, rfl⟩, rfl⟩
      exact ⟨tag.code, ⟨tag, tagged, rfl⟩, body, written, rfl⟩

/-- A value is written when it is written for the type behind all typedefs, its parts one level
below.

Proof: by the kind of the value. Each kind looks up the type behind typedefs and writes for a type
of its own kind only, and each part of the writer succeeds exactly under the condition that its
lemma tells. -/
theorem encodeValue_eq_ok {value : Value} {bytes : Bytes} :
    schema.encodeValue value type = .ok bytes ↔ ∃ behind, schema.canonical type = .ok behind ∧
      WritesLayer schema (fun type bytes value => schema.encodeValue value type = .ok bytes) value
        behind bytes := by
  have ofKind {encode : DataType → Except EncodeError Bytes} {writes : DataType → Prop}
      (each : ∀ behind, encode behind = .ok bytes ↔ writes behind) :
      (writing (schema.canonical type) >>= encode) = .ok bytes ↔
        ∃ behind, schema.canonical type = .ok behind ∧ writes behind := by
    simp only [bind_eq_ok, writing_eq_ok, each]
  have primitive (kind : DataType) (encoded : Bytes) :
      schema.encodePrimitive kind type (.ok encoded) = .ok bytes ↔
        ∃ behind, schema.canonical type = .ok behind ∧ behind = kind ∧ bytes = encoded := by
    rw [@eq_comm _ bytes encoded]
    simp only [encodePrimitive_eq_ok, Except.ok.injEq]
  have prefixed (kind : DataType) (held : Bytes) :
      schema.encodePrimitive kind type (encodeLengthPrefixed held) = .ok bytes ↔
        ∃ behind, schema.canonical type = .ok behind ∧ behind = kind ∧ Prefixed bytes held := by
    simp only [encodePrimitive_eq_ok, encodeLengthPrefixed_eq_ok]
  cases value with
  | bool held => exact primitive .bool _
  | byte number => exact primitive .byte _
  | i16 number => exact primitive .i16 _
  | i32 number => exact primitive .i32 _
  | i64 number => exact primitive .i64 _
  | double number => exact primitive .double _
  | string text => exact prefixed .string _
  | binary held => exact prefixed .binary held
  | list items =>
    refine ofKind fun behind => ?_
    cases behind with
    | list element =>
      refine encodeSequence_eq_ok.trans ?_
      simp [WritesLayer]
    | _ => simp [WritesLayer]
  | set elements =>
    refine ofKind fun behind => ?_
    cases behind with
    | set element =>
      refine encodeSequence_eq_ok.trans ?_
      simp [WritesLayer]
    | _ => simp [WritesLayer]
  | map entries =>
    refine ofKind fun behind => ?_
    cases behind with
    | map keyType valueType =>
      refine encodeMap_eq_ok.trans ?_
      simp [WritesLayer, and_assoc]
    | _ => simp [WritesLayer]
  | struct fields =>
    refine ofKind fun behind => ?_
    cases behind with
    | struct name =>
      simp only [WritesLayer, bind_eq_ok, writing_eq_ok, inDeclaredOrder_eq_ok, Except.ok.injEq,
        DataType.struct.injEq]
      constructor
      · rintro ⟨declared, named, pieces, written, rfl⟩
        exact ⟨name, declared, pieces, rfl, named, written, rfl⟩
      · rintro ⟨_, declared, pieces, rfl, named, written, rfl⟩
        exact ⟨declared, named, pieces, written, rfl⟩
    | _ => simp [WritesLayer]
  | union id held =>
    refine ofKind fun behind => ?_
    cases behind with
    | union name =>
      simp only [WritesLayer, bind_eq_ok, writing_eq_ok, DataType.union.injEq]
      constructor
      · rintro ⟨declared, named, ran⟩
        obtain ⟨piece, written, rfl⟩ := encodeUnion_eq_ok.mp ran
        exact ⟨name, declared, piece, rfl, named, written, rfl⟩
      · rintro ⟨_, declared, piece, rfl, named, written, rfl⟩
        exact ⟨declared, named, encodeUnion_eq_ok.mpr ⟨piece, written, rfl⟩⟩
    | _ => simp [WritesLayer]
  | enum number label =>
    refine ofKind fun behind => ?_
    cases behind with
    | enum name => simp [WritesLayer, eq_comm]
    | _ => simp [WritesLayer]

/-- What is written for a value of a type takes the least size of the kind of that type.

Proof: by the kind of the value, which is that of the type. Numbers have their width, lengths and
counts take four bytes, tags one byte each, and a record has at least its stop. -/
theorem leastSize_le_of_written {value : Value} {bytes : Bytes} {tag : WireTag}
    (written : schema.encodeValue value type = .ok bytes) (known : schema.wireTag type = .ok tag) :
    tag.leastSize ≤ bytes.length := by
  obtain ⟨behind, followed, writes⟩ := encodeValue_eq_ok.mp written
  obtain ⟨other, same, tagged⟩ := wireTag_eq_ok.mp known
  obtain rfl := Except.ok.inj (followed.symm.trans same)
  cases value with
  | bool held | byte number | i16 number | i32 number | i64 number | double number =>
    obtain ⟨rfl, rfl⟩ := writes
    obtain rfl := Option.some.inj tagged
    simp [WireTag.leastSize]
  | string held | binary held =>
    obtain ⟨rfl, lengthPrefixed⟩ := writes
    obtain rfl := Option.some.inj tagged
    exact lengthPrefixed.four_le
  | list items | set items =>
    obtain ⟨element, tag, body, rfl, -, numbered, rfl⟩ := writes
    obtain rfl := Option.some.inj tagged
    exact Nat.succ_le_succ numbered.four_le
  | map entries =>
    obtain ⟨_, _, _, _, body, rfl, -, -, numbered, rfl⟩ := writes
    obtain rfl := Option.some.inj tagged
    exact Nat.succ_le_succ (Nat.succ_le_succ numbered.four_le)
  | struct fields =>
    obtain ⟨name, declared, pieces, rfl, -, -, rfl⟩ := writes
    obtain rfl := Option.some.inj tagged
    rw [List.length_append]
    exact Nat.le_add_left 1 _
  | union id held =>
    obtain ⟨name, declared, piece, rfl, -, -, rfl⟩ := writes
    obtain rfl := Option.some.inj tagged
    rw [List.length_append]
    exact Nat.le_add_left 1 _
  | enum number label =>
    obtain ⟨name, rfl, rfl⟩ := writes
    obtain rfl := Option.some.inj tagged
    simp [WireTag.leastSize]

end SchemaCodec.Schema
