import SchemaCodec.Proofs.ClosedGraph
import SchemaCodec.Proofs.Places
import SchemaCodec.Proofs.WireFormat

/-!
# Where reading fails

An error names an offset and a path. The offset is one that the reader had reached, whether it is
told from before or from behind the bytes that were read last, and the path leads through the type
part by part, as deep as the limit allows. Only behind a field that a struct or union does not
declare is there no type to follow any more, since what stands there is skipped by its tag.
-/

namespace SchemaCodec

namespace Schema

/-- A struct or union without a field of some id. -/
inductive LacksField (schema : Schema) (id : Int16) : DataType → Prop where
  | struct {name : String} {declared : StructType} (named : schema.structType name = .ok declared)
      (absent : fieldById? declared.fields id = none) : LacksField schema id (.struct name)
  | union {name : String} {declared : UnionType} (named : schema.unionType name = .ok declared)
      (absent : fieldById? declared.fields id = none) : LacksField schema id (.union name)

/-- A path leads into a type from part to part, until it ends or enters a field that the type at
hand does not declare. -/
inductive LeadsInto (schema : Schema) : DataType → FieldPath → Prop where
  | here (type : DataType) : LeadsInto schema type []
  | inside {type inner : DataType} {step : PathStep} {rest : FieldPath}
      (part : schema.typeAt? type step = some inner) (onwards : LeadsInto schema inner rest) :
      LeadsInto schema type (step :: rest)
  | unknown {type behind : DataType} {id : Int16} (followed : schema.canonical type = .ok behind)
      (lacks : schema.LacksField id behind) (rest : FieldPath) :
      LeadsInto schema type (.field id :: rest)

end Schema

namespace Decoder

/-- Before a slice a decoder moves on inside it. If it fails, it does so at an offset that it had
reached and with an allowed path. This is asked for from a position on. -/
def Located (allowed : FieldPath → Prop) (floor : Nat) (decoder : Decoder α) : Prop :=
  ∀ start bytes outcome after, floor ≤ start →
    decoder.run ⟨start, .slice bytes⟩ = (outcome, after) →
      ∃ size ≤ bytes.length, after = ⟨start + size, .slice (bytes.drop size)⟩ ∧
        ∀ error, outcome = .error error → error.offset ≤ start + size ∧ allowed error.path

section Steps

variable {α β : Type} {allowed : FieldPath → Prop} {floor : Nat} {first : Decoder α}
  {next : α → Decoder β}

/-- More paths may be allowed, and less positions asked for. -/
theorem Located.imp {also : FieldPath → Prop} {higher : Nat} (located : Located allowed floor first)
    (more : ∀ path, allowed path → also path) (less : floor ≤ higher) :
    Located also higher first := by
  intro start bytes outcome after above ran
  obtain ⟨size, within, stopped, placed⟩ :=
    located start bytes outcome after (Nat.le_trans less above) ran
  exact ⟨size, within, stopped, fun error failed => (placed error failed).imp_right (more _)⟩

/-- A result that is given without reading. -/
theorem Located.pure (result : α) : Located allowed floor (pure result) := by
  intro start bytes outcome after _ ran
  obtain ⟨rfl, rfl⟩ := Prod.mk.inj ran
  exact ⟨0, Nat.zero_le _, rfl, fun error failed => by cases failed⟩

/-- A failure at an offset that was passed. -/
theorem Located.fail (root : allowed []) (fault : DecodeFault) {offset : Nat}
    (passed : offset ≤ floor) : Located allowed floor (fail fault offset : Decoder α) := by
  intro start bytes outcome after above ran
  obtain ⟨rfl, rfl⟩ := Prod.mk.inj ran
  refine ⟨0, Nat.zero_le _, rfl, fun error failed => ?_⟩
  obtain rfl := Except.error.inj failed
  exact ⟨Nat.le_trans passed above, root⟩

/-- One decoder after another.

Proof: a fault of the first decoder is the fault of both. If the first one succeeds, the second one
starts behind the bytes that were taken, which is above the floor, and the sizes of both add up
within the bytes. -/
theorem Located.bind (before : Located allowed floor first)
    (behind : ∀ result, Located allowed floor (next result)) :
    Located allowed floor (first >>= next) := by
  intro start bytes outcome after above ran
  rw [run_bind] at ran
  rcases begun : first.run ⟨start, .slice bytes⟩ with ⟨early | middle, between⟩ <;>
    rw [begun] at ran <;>
    obtain ⟨size, within, rfl, placed⟩ := before start bytes _ between above begun
  · obtain ⟨rfl, rfl⟩ := Prod.mk.inj ran
    refine ⟨size, within, rfl, fun error failed => ?_⟩
    obtain rfl := Except.error.inj failed
    exact placed early rfl
  · obtain ⟨more, withinRest, rfl, placedBehind⟩ :=
      behind middle (start + size) (bytes.drop size) outcome after (by omega) ran
    rw [List.length_drop] at withinRest
    rw [List.drop_drop, Nat.add_assoc] at *
    exact ⟨size + more, by omega, rfl, placedBehind⟩

/-- Nothing follows a failure. -/
theorem Located.fail_bind (root : allowed []) (fault : DecodeFault) {offset : Nat}
    (passed : offset ≤ floor) : Located allowed floor (Decoder.fail fault offset >>= next) :=
  Located.fail root fault passed

/-- The position that is told is one that was reached. -/
theorem Located.position_bind {next : Nat → Decoder β}
    (behind : ∀ here, floor ≤ here → Located allowed here (next here)) :
    Located allowed floor (position >>= next) :=
  fun start bytes outcome after above ran =>
    behind start above start bytes outcome after (Nat.le_refl start) ran

/-- A slice tells how many bytes are left. -/
theorem Located.remaining_bind {next : Option Nat → Decoder β}
    (behind : ∀ left, Located allowed floor (next (some left))) :
    Located allowed floor (remaining? >>= next) :=
  fun start bytes outcome after above ran =>
    behind bytes.length start bytes outcome after above ran

/-- A bound on the bytes left is told without reading. -/
theorem Located.available_bind {next : Nat → Decoder β}
    (behind : ∀ bound, Located allowed floor (next bound)) :
    Located allowed floor (available >>= next) :=
  fun start bytes outcome after above ran =>
    behind bytes.length start bytes outcome after above ran

/-- A lookup fails at an offset that was passed, and what follows goes on with what was found. -/
theorem Located.lookup_bind (root : allowed []) {outcome : Except ε α} {offset : Nat}
    {reason : ε → String} (passed : offset ≤ floor)
    (behind : ∀ found, outcome = .ok found → Located allowed floor (next found)) :
    Located allowed floor (lookup offset reason outcome >>= next) := by
  cases outcome with
  | ok found => exact behind found rfl
  | error error => exact .fail_bind root _ passed

/-- A step of a path stands in front of the paths inside. -/
theorem Located.within {step : PathStep}
    (located : Located (fun path => allowed (step :: path)) floor first) :
    Located allowed floor (within step first) := by
  intro start bytes outcome after above ran
  unfold run Decoder.within at ran
  rcases begun : first ⟨start, .slice bytes⟩ with ⟨early | result, between⟩ <;>
    rw [begun] at ran <;>
    obtain ⟨rfl, rfl⟩ := Prod.mk.inj ran <;>
    obtain ⟨size, within, rfl, placed⟩ := located start bytes _ between above begun <;>
    refine ⟨size, within, rfl, fun error failed => ?_⟩
  · obtain rfl := Except.error.inj failed
    exact placed early rfl
  · cases failed

/-- Bytes that are missing are reported where they start. -/
theorem Located.bytes (root : allowed []) (size : Nat) : Located allowed floor (bytes size) := by
  refine position_bind fun here _ start input outcome after above ran => ?_
  unfold run bytesFrom Source.readExact at ran
  by_cases enough : size ≤ input.length
  · simp only [if_pos enough] at ran
    obtain ⟨rfl, rfl⟩ := Prod.mk.inj ran
    exact ⟨size, enough, rfl, fun error failed => by cases failed⟩
  · simp only [if_neg enough] at ran
    obtain ⟨rfl, rfl⟩ := Prod.mk.inj ran
    refine ⟨0, Nat.zero_le _, rfl, fun error failed => ?_⟩
    obtain rfl := Except.error.inj failed
    exact ⟨above, root⟩

/-- Bytes that are missing are reported where they start, also when they are stepped over. -/
theorem Located.skipBytes (root : allowed []) (size : Nat) :
    Located allowed floor (skipBytes size) := by
  intro start input outcome after above ran
  unfold run Decoder.skipBytes Source.skip at ran
  by_cases enough : size ≤ input.length
  · simp only [if_pos enough] at ran
    obtain ⟨rfl, rfl⟩ := Prod.mk.inj ran
    exact ⟨size, enough, rfl, fun error failed => by cases failed⟩
  · simp only [if_neg enough] at ran
    obtain ⟨rfl, rfl⟩ := Prod.mk.inj ran
    refine ⟨0, Nat.zero_le _, rfl, fun error failed => ?_⟩
    obtain rfl := Except.error.inj failed
    exact ⟨Nat.le_refl start, root⟩

/-- A number is made of bytes. -/
theorem Located.number (root : allowed []) {width : Nat} {decode : Bytes → α} :
    Located allowed floor (Decoder.bytes width >>= fun read => Pure.pure (decode read)) :=
  (Located.bytes root width).bind fun _ => .pure _

/-- The tag of elements is reported where it stands. -/
theorem Located.elementTag (root : allowed []) : Located allowed floor elementTag := by
  refine position_bind fun start _ => (Located.number root).bind fun code => ?_
  split
  · exact .fail root _ (Nat.le_refl start)
  · exact .fail root _ (Nat.le_refl start)
  · exact .pure _

/-- An unexpected tag is reported where it stands. -/
theorem Located.expectTag (root : allowed []) (expected : WireTag) :
    Located allowed floor (expectTag expected) := by
  refine position_bind fun start _ => (Located.number root).bind fun code => ?_
  split
  · exact .pure _
  · exact .fail root _ (Nat.le_refl start)

/-- A number that announces what follows is reported where it stands, unless it is reported where
what follows is missing. -/
theorem located_announcement (root : allowed []) (limit : Nat) (room : Nat → Nat)
    (fault : Int32 → DecodeFault) {short : Nat → Int32 → Nat → Decoder Nat}
    (stops : ∀ start word left, Located allowed start (short start word left)) :
    Located allowed floor (announcement limit room fault short) := by
  refine .position_bind fun start _ => (Located.number root).bind fun announced => ?_
  split
  · exact .fail root _ (Nat.le_refl start)
  · refine .remaining_bind fun left => ?_
    dsimp only
    split
    · exact stops start announced left
    · exact .pure _

/-- A length. -/
theorem Located.length (root : allowed []) (limits : Limits) :
    Located allowed floor (length limits) := by
  rw [length_eq]
  exact located_announcement root _ _ _ fun _ _ _ =>
    .position_bind fun here _ => .fail root _ (Nat.le_refl here)

/-- A count. -/
theorem Located.count (root : allowed []) (limits : Limits) (leastSize : Nat) :
    Located allowed floor (count limits leastSize) := by
  rw [count_eq]
  exact located_announcement root _ _ _ fun start _ _ => .fail root _ (Nat.le_refl start)

/-- The bytes behind a length prefix; a slice gives them in one piece. -/
theorem Located.lengthPrefixed (root : allowed []) (limits : Limits) :
    Located allowed floor (lengthPrefixed limits) :=
  (Located.length root limits).bind fun size => .remaining_bind fun _ => .bytes root size

/-- Items in a row, by induction on their number. -/
theorem Located.collect {item : Nat → Decoder α}
    (each : ∀ position, Located allowed floor (item position)) (size position : Nat) :
    Located allowed floor (collect item size position) := by
  induction size generalizing position with
  | zero => exact .pure []
  | succ size inductionHypothesis =>
    exact (each position).bind fun head =>
      (inductionHypothesis (position + 1)).bind fun rest => .pure _

/-- A field header tells an offset that was reached, and what follows may report it. -/
theorem Located.fieldHeader_bind {next : Option FieldHeader → Decoder β} (root : allowed [])
    (ends : Located allowed floor (next none))
    (goesOn : ∀ header, Located allowed header.offset (next (some header))) :
    Located allowed floor (fieldHeader >>= next) := by
  unfold fieldHeader
  simp only [bind_assoc]
  refine .position_bind fun start above => (Located.number root).bind fun code => ?_
  split
  · rw [pure_bind]
    exact ends.imp (fun _ => id) above
  · split
    · exact .fail_bind root _ (Nat.le_refl start)
    · next tag _ =>
      simp only [bind_assoc, pure_bind]
      exact (Located.number root).bind fun id => goesOn ⟨tag, id, start⟩

/-- Fields in a row, by induction on the attempts that are left. -/
theorem Located.fieldsWithin {field : FieldHeader → Decoder (Option α)} (root : allowed [])
    (each : ∀ header, Located allowed header.offset (field header)) (attempts floor : Nat) :
    Located allowed floor (fieldsWithin field attempts) := by
  induction attempts generalizing floor with
  | zero => exact .position_bind fun here _ => .fail root _ (Nat.le_refl here)
  | succ attempts inductionHypothesis =>
    refine .fieldHeader_bind root (.pure []) fun header => (each header).bind fun found =>
      (inductionHypothesis header.offset).bind fun rest => ?_
    cases found with
    | none => exact .pure _
    | some value => exact .pure _

/-- A field sequence. -/
theorem Located.fields {field : FieldHeader → Decoder (Option α)} (root : allowed [])
    (each : ∀ header, Located allowed header.offset (field header)) :
    Located allowed floor (fields field) :=
  .available_bind fun bound => .fieldsWithin root each (bound + 1) floor

end Steps

/-- What is skipped may be at fault as many steps inside as there are levels.

Proof: by induction on the levels. A fault of the tag, the length or the count itself has an empty
path; a fault inside a container comes from skipping one level below, and the step into it makes its
path one longer. -/
theorem located_skipWithin (limits : Limits) (levels : Nat) (tag : WireTag) (floor : Nat) :
    Located (·.length ≤ levels) floor (skipWithin limits levels tag) := by
  induction levels generalizing tag floor with
  | zero =>
    exact .position_bind fun here _ => .fail (Nat.le_refl 0) _ (Nat.le_refl here)
  | succ levels inductionHypothesis =>
    have root : ([] : FieldPath).length ≤ levels + 1 := Nat.zero_le _
    have inside (step : PathStep) (tag : WireTag) (floor : Nat) :
        Located (·.length ≤ levels + 1) floor (within step (skipWithin limits levels tag)) :=
      .within ((inductionHypothesis tag floor).imp (fun _ => Nat.succ_le_succ) (Nat.le_refl floor))
    have sequence : Located (·.length ≤ levels + 1) floor (skipWithin limits (levels + 1) .list) :=
      (Located.elementTag root).bind fun tag => (Located.count root limits tag.leastSize).bind
        fun size => (Located.collect (fun position => inside (.index position) tag floor) size
          0).bind fun _ => .pure ()
    cases tag with
    | stop => exact .position_bind fun here _ => .fail root _ (Nat.le_refl here)
    | bool | byte => exact .skipBytes root 1
    | i16 => exact .skipBytes root 2
    | i32 => exact .skipBytes root 4
    | i64 | double => exact .skipBytes root 8
    | string => exact (Located.length root limits).bind fun size => .skipBytes root size
    | struct =>
      exact (Located.fields root fun header =>
        (inside (.field header.id) header.tag header.offset).bind fun _ => .pure none).bind
          fun _ => .pure ()
    | map =>
      exact (Located.elementTag root).bind fun keyTag => (Located.elementTag root).bind
        fun valueTag => (Located.count root limits (keyTag.leastSize + valueTag.leastSize)).bind
          fun size => (Located.collect (fun position =>
            (inside (.key position) keyTag floor).bind fun _ =>
              inside (.value position) valueTag floor) size 0).bind fun _ => .pure ()
    | set => exact sequence
    | list => exact sequence

section Typed

variable {schema : Schema} {allowed : FieldPath → Prop}

/-- The header of a list or set. -/
theorem Located.sequenceHeader (root : allowed []) (limits : Limits) (element : DataType)
    (floor : Nat) : Located allowed floor (sequenceHeader schema limits element) :=
  .position_bind fun start _ => .lookup_bind root (Nat.le_refl start) fun tag _ =>
    (Located.expectTag root tag).bind fun _ => .count root limits tag.leastSize

/-- The fields of a struct or union, when an error may lie at each of them: inside the value of one
that is declared, and inside what is skipped of one that is not. -/
theorem Located.declaredFields (root : allowed []) {declared : List Field}
    {read : DataType → Decoder Value} {skip : WireTag → Decoder Unit}
    (entered : ∀ id, allowed [.field id])
    (reads : ∀ id field, fieldById? declared id = some field →
      ∀ floor, Located (fun path => allowed (.field id :: path)) floor (read field.type))
    (skips : ∀ id, fieldById? declared id = none →
      ∀ tag floor, Located (fun path => allowed (.field id :: path)) floor (skip tag))
    (floor : Nat) : Located allowed floor (declaredFields schema declared read skip) := by
  refine .fields root fun header => ?_
  cases known : fieldById? declared header.id with
  | none =>
    exact (Located.within (skips header.id known header.tag header.offset)).bind fun _ => .pure none
  | some field =>
    refine .lookup_bind root (Nat.le_refl header.offset) fun expected _ => ?_
    split
    · exact (Located.within (reads header.id field known header.offset)).bind fun value => .pure _
    · exact .within (.fail (entered header.id) _ (Nat.le_refl header.offset))

end Typed

end Decoder

namespace Schema

variable {schema : Schema} {type behind : DataType}

/-- An error of a value of a type lies at most so many levels inside and leads into the type. -/
structure Reaches (schema : Schema) (levels : Nat) (type : DataType) (path : FieldPath) :
    Prop where
  shallow : path.length ≤ levels
  leads : schema.LeadsInto type path

/-- A value itself may be at fault. -/
theorem Reaches.root (levels : Nat) (type : DataType) : schema.Reaches levels type [] :=
  ⟨Nat.zero_le levels, .here type⟩

/-- A part of a value may be at fault one level deeper. -/
theorem Reaches.inside {levels : Nat} {inner : DataType} {step : PathStep} {path : FieldPath}
    (followed : schema.canonical type = .ok behind)
    (part : schema.partType? behind step = some inner)
    (reaches : schema.Reaches levels inner path) :
    schema.Reaches (levels + 1) type (step :: path) :=
  ⟨Nat.succ_le_succ reaches.shallow,
    .inside (typeAt?_eq_some.mpr ⟨behind, followed, part⟩) reaches.leads⟩

/-- What is skipped may be at fault behind the field that the type lacks. -/
theorem Reaches.unknown {levels : Nat} {id : Int16} {path : FieldPath}
    (followed : schema.canonical type = .ok behind) (lacks : schema.LacksField id behind)
    (shallow : path.length ≤ levels) : schema.Reaches (levels + 1) type (.field id :: path) :=
  ⟨Nat.succ_le_succ shallow, .unknown followed lacks path⟩

end Schema

namespace Decoder

/-- The fields of a struct or union lie one level inside: the declared ones have their types, and
the others are lacked. -/
theorem located_fields {schema : Schema} {limits : Limits} {levels : Nat} {type behind : DataType}
    {declared : List Field} (followed : schema.canonical type = .ok behind)
    (parts : ∀ id field, fieldById? declared id = some field →
      schema.partType? behind (.field id) = some field.type)
    (others : ∀ id, fieldById? declared id = none → schema.LacksField id behind)
    (values : ∀ type floor,
      Located (schema.Reaches levels type) floor (valueWithin schema limits levels type))
    (floor : Nat) :
    Located (schema.Reaches (levels + 1) type) floor
      (declaredFields schema declared (valueWithin schema limits levels)
        (skipWithin limits levels)) := by
  have entered (id : Int16) : schema.Reaches (levels + 1) type [.field id] := by
    cases known : fieldById? declared id with
    | none => exact .unknown followed (others id known) (Nat.zero_le levels)
    | some field => exact .inside followed (parts id field known) (.root levels field.type)
  refine .declaredFields (.root _ type) entered ?_ ?_ floor
  · intro id field known floor
    exact (values field.type floor).imp (fun _ => .inside followed (parts id field known))
      (Nat.le_refl floor)
  · intro id unknown tag floor
    exact (located_skipWithin limits levels tag floor).imp
      (fun _ => .unknown followed (others id unknown)) (Nat.le_refl floor)

/-- Reading a value reports errors at offsets that it had reached and with paths that lead into the
type, as deep as there are levels. The induction is on the levels; the cases are those of the type
behind all typedefs, which also tells the types of the parts. -/
theorem located_valueWithin (schema : Schema) (limits : Limits) (levels : Nat) (type : DataType)
    (floor : Nat) :
    Located (schema.Reaches levels type) floor (valueWithin schema limits levels type) := by
  induction levels generalizing type floor with
  | zero => exact .position_bind fun here _ => .fail (.root 0 type) _ (Nat.le_refl here)
  | succ levels inductionHypothesis =>
    have root : schema.Reaches (levels + 1) type [] := .root _ type
    refine .position_bind fun start _ => .lookup_bind root (Nat.le_refl start)
      fun behind followed => ?_
    have inside (step : PathStep) (inner : DataType)
        (part : schema.partType? behind step = some inner) :
        Located (schema.Reaches (levels + 1) type) start
          (within step (valueWithin schema limits levels inner)) :=
      .within ((inductionHypothesis inner start).imp (fun _ => .inside followed part)
        (Nat.le_refl start))
    cases behind with
    | bool | byte | i16 | i32 | i64 | double =>
      exact (Located.number root).bind fun _ => .pure _
    | string =>
      refine (Located.lengthPrefixed root limits).bind fun bytes => ?_
      split
      · exact .pure _
      · exact .fail root _ (Nat.le_refl start)
    | binary => exact (Located.lengthPrefixed root limits).bind fun bytes => .pure _
    | list element | set element =>
      exact (Located.sequenceHeader root limits element start).bind fun size =>
        (Located.collect (fun position => inside (.index position) element rfl) size 0).bind
          fun _ => .pure _
    | map keyType valueType =>
      exact .lookup_bind root (Nat.le_refl start) fun keyTag _ =>
        .lookup_bind root (Nat.le_refl start) fun valueTag _ =>
          (Located.expectTag root keyTag).bind fun _ => (Located.expectTag root valueTag).bind
            fun _ => (Located.count root limits (keyTag.leastSize + valueTag.leastSize)).bind
              fun size => (Located.collect (fun position =>
                (inside (.key position) keyType rfl).bind fun key =>
                  (inside (.value position) valueType rfl).bind fun value => .pure (key, value))
                size 0).bind fun _ => .pure _
    | struct name =>
      refine .lookup_bind root (Nat.le_refl start) fun declared named =>
        (located_fields followed ?_ ?_ inductionHypothesis start).bind fun read => ?_
      · exact fun id field known =>
          Schema.partType?_struct.mpr ⟨declared, field, named, known, rfl⟩
      · exact fun id unknown => .struct named unknown
      · dsimp only
        split
        · exact .position_bind fun here _ => .fail root _ (Nat.le_refl here)
        · exact .pure _
    | union name =>
      refine .lookup_bind root (Nat.le_refl start) fun declared named =>
        (located_fields followed ?_ ?_ inductionHypothesis start).bind fun read => ?_
      · exact fun id field known =>
          Schema.partType?_union.mpr ⟨declared, field, named, known, rfl⟩
      · exact fun id unknown => .union named unknown
      · split
        · exact .pure _
        · exact .position_bind fun here _ => .fail root _ (Nat.le_refl here)
    | enum name =>
      exact (Located.number root).bind fun number =>
        .lookup_bind root (Nat.le_refl start) fun declared _ => .pure _
    | typedef name => exact .fail root _ (Nat.le_refl start)

end Decoder

/-- Whenever reading all of some bytes fails, the reported offset is at most the one that the source
reached, which is inside the bytes, and the path is at most as long as values may be deep and leads
into the type: from part to part, through typedefs, until it ends or enters a field that the struct
or union at hand does not declare.

Proof: errors of the reader of values are located, level by level. The only other error is that of
bytes behind the value, which lies where the value ends and has no path. -/
theorem errors_lie_inside (schema : Schema) (limits : Limits) (type : DataType) (bytes : Bytes)
    {error : DecodeError} (failed : schema.decode limits type bytes = .error error) :
    ∃ reached ≤ bytes.length,
      ((Decoder.value schema limits type).run (.ofBytes bytes)).2 =
        ⟨reached, .slice (bytes.drop reached)⟩ ∧
      error.offset ≤ reached ∧ error.path.length ≤ limits.depth + 1 ∧
        schema.LeadsInto type error.path := by
  unfold Schema.decode Decoder.runOnAll at failed
  rcases ran : (Decoder.value schema limits type).run (.ofBytes bytes) with ⟨outcome, after⟩
  obtain ⟨reached, within, rfl, placed⟩ := Decoder.located_valueWithin schema limits
    (limits.depth + 1) type 0 0 bytes outcome after (Nat.le_refl 0) ran
  rw [ran] at failed
  rw [Nat.zero_add] at *
  refine ⟨reached, within, rfl, ?_⟩
  cases outcome with
  | error early =>
    obtain rfl := Except.error.inj failed
    obtain ⟨passed, reaches⟩ := placed early rfl
    exact ⟨passed, reaches.shallow, reaches.leads⟩
  | ok value =>
    -- All of the value was read, and the bytes behind it are at fault.
    dsimp only at failed
    split at failed
    · cases failed
    · obtain rfl := Except.error.inj failed
      exact ⟨Nat.le_refl reached, Nat.zero_le _, .here type⟩

/-- An item with one part, which has a field that items do not declare: a struct with a text that is
cut short. -/
def tornItem : Bytes :=
  [15, 0, 3, 12, 0, 0, 0, 1, 12, 0, 9, 11, 0, 2, 0, 0, 0, 5, 97]

/-- The text is missed where it starts. The path leads to the part and, behind the field that items
do not declare, to where the text stands. -/
theorem torn_item_is_located :
    storeSchema.decode {} (.struct "a.Item") tornItem =
      .error ⟨.truncatedInput, 18, [.field 3, .index 0, .field 9, .field 2]⟩ ∧
    ∃ reached ≤ tornItem.length,
      ((Decoder.value storeSchema {} (.struct "a.Item")).run (.ofBytes tornItem)).2 =
        ⟨reached, .slice (tornItem.drop reached)⟩ ∧
      18 ≤ reached ∧ 4 ≤ Limits.depth {} + 1 ∧
        storeSchema.LeadsInto (.struct "a.Item") [.field 3, .index 0, .field 9, .field 2] := by
  have failed : storeSchema.decode {} (.struct "a.Item") tornItem =
      .error ⟨.truncatedInput, 18, [.field 3, .index 0, .field 9, .field 2]⟩ := by cbv
  exact ⟨failed, errors_lie_inside storeSchema {} (.struct "a.Item") tornItem failed⟩

end SchemaCodec
