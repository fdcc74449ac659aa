import SchemaCodec.Proofs.Recognition
import SchemaCodec.Wire.Decoding

/-!
# Readers side by side

Two readers of one schema walk over the format in the same steps; they may differ in their limits
and in the input that they stand before. A relation between decoders that holds of the single steps
of reading, and that the ways of putting steps together respect, holds of untyped skipping and of
typed reading as a whole. This goes level by level, from what is known of readers that may not go
down any further.
-/

namespace SchemaCodec.Decoder

/-- A relation between the decoders of two readers that holds of the steps of reading and is
respected by the ways in which steps are put together. -/
structure Simulation (related : (α : Type) → Decoder α → Decoder α → Prop)
    (limits others : Limits) : Prop where
  give : ∀ {α : Type} (result : α), related α (pure result) (pure result)
  bind : ∀ {α β : Type} {first second : Decoder α} {next following : α → Decoder β},
    related α first second → (∀ result, related β (next result) (following result)) →
      related β (first >>= next) (second >>= following)
  fail : ∀ {α : Type} (fault : DecodeFault) (offset : Nat),
    related α (fail fault offset) (fail fault offset)
  within : ∀ {α : Type} {first second : Decoder α} (step : PathStep), related α first second →
    related α (within step first) (within step second)
  position : related Nat position position
  bytes : ∀ size, related Bytes (bytes size) (bytes size)
  skipBytes : ∀ size, related Unit (skipBytes size) (skipBytes size)
  payload : ∀ size, related Bytes (payload size) (payload size)
  length : related Nat (length limits) (length others)
  count : ∀ leastSize, related Nat (count limits leastSize) (count others leastSize)
  /-- The second reader has at least as many bytes before it. -/
  available : ∀ {α : Type} {next following : Nat → Decoder α},
    (∀ fewer more, fewer ≤ more → related α (next fewer) (following more)) →
      related α (available >>= next) (available >>= following)
  /-- A reader that ran out of attempts ran out of input. -/
  spent : ∀ {α : Type} (other : Decoder α),
    related α (Decoder.position >>= fun here => .fail .truncatedInput here) other

namespace Simulation

variable {related : (α : Type) → Decoder α → Decoder α → Prop} {limits others : Limits} {α : Type}

/-- What both readers look up alike they find alike. -/
theorem lookup (simulation : Simulation related limits others) (offset : Nat) (reason : ε → String)
    (outcome : Except ε α) :
    related α (lookup offset reason outcome) (Decoder.lookup offset reason outcome) := by
  cases outcome with
  | ok result => exact simulation.give result
  | error error => exact simulation.fail _ _

/-- A byte is read alike. -/
theorem uint8 (simulation : Simulation related limits others) : related UInt8 uint8 uint8 :=
  simulation.bind (simulation.bytes 1) fun _ => simulation.give _

/-- A number of four bytes is read alike. -/
theorem int32 (simulation : Simulation related limits others) : related Int32 int32 int32 :=
  simulation.bind (simulation.bytes 4) fun _ => simulation.give _

/-- The tag of elements is read alike. -/
theorem elementTag (simulation : Simulation related limits others) :
    related WireTag elementTag elementTag := by
  refine simulation.bind simulation.position fun start =>
    simulation.bind simulation.uint8 fun code => ?_
  split
  · exact simulation.fail _ _
  · exact simulation.fail _ _
  · exact simulation.give _

/-- An expected tag is read alike. -/
theorem expectTag (simulation : Simulation related limits others) (expected : WireTag) :
    related Unit (expectTag expected) (Decoder.expectTag expected) := by
  refine simulation.bind simulation.position fun start =>
    simulation.bind simulation.uint8 fun code => ?_
  split
  · exact simulation.give _
  · exact simulation.fail _ _

/-- Items in a row are read alike when each of them is. -/
theorem collect (simulation : Simulation related limits others) {item other : Nat → Decoder α}
    (each : ∀ position, related α (item position) (other position)) (size position : Nat) :
    related (List α) (collect item size position) (Decoder.collect other size position) := by
  induction size generalizing position with
  | zero => exact simulation.give []
  | succ size inductionHypothesis =>
    exact simulation.bind (each position) fun head =>
      simulation.bind (inductionHypothesis (position + 1)) fun rest => simulation.give _

/-- The header of a field is read alike. -/
theorem fieldHeader (simulation : Simulation related limits others) :
    related (Option FieldHeader) fieldHeader fieldHeader := by
  refine simulation.bind simulation.position fun start =>
    simulation.bind simulation.uint8 fun code => ?_
  split
  · exact simulation.give _
  · split
    · exact simulation.fail _ _
    · exact simulation.bind (simulation.bind (simulation.bytes 2) fun _ => simulation.give _)
        fun id => simulation.give _

section Fields

variable {field other : FieldHeader → Decoder (Option α)}

/-- Fields are read alike when each of them is, if the second reader may make at least as many
attempts: where the first one ran out of attempts, it ran out of input. -/
theorem fieldsWithin (simulation : Simulation related limits others)
    (each : ∀ header, related (Option α) (field header) (other header)) {fewer more : Nat}
    (enough : fewer ≤ more) :
    related (List (Int16 × α)) (fieldsWithin field fewer) (Decoder.fieldsWithin other more) := by
  induction fewer generalizing more with
  | zero => exact simulation.spent _
  | succ fewer inductionHypothesis =>
    obtain ⟨more, rfl⟩ := Nat.exists_eq_succ_of_ne_zero (Nat.ne_zero_of_lt enough)
    refine simulation.bind simulation.fieldHeader fun header => ?_
    cases header with
    | none => exact simulation.give []
    | some header =>
      refine simulation.bind (each header) fun found =>
        simulation.bind (inductionHypothesis (Nat.le_of_succ_le_succ enough)) fun rest => ?_
      cases found with
      | none => exact simulation.give _
      | some value => exact simulation.give _

/-- A field sequence is read alike when each field is. -/
theorem fields (simulation : Simulation related limits others)
    (each : ∀ header, related (Option α) (field header) (other header)) :
    related (List (Int16 × α)) (fields field) (Decoder.fields other) :=
  simulation.available fun _ _ enough =>
    simulation.fieldsWithin each (Nat.succ_le_succ enough)

end Fields

/-- Two readers skip alike, however many levels one of them may go down further, if they do so where
the other one may not go down at all.

Proof: by induction on the levels. Above the bottom each tag is skipped by steps that the simulation
knows: some bytes, a length, a count with as many parts, or fields up to the stop. -/
theorem skipWithin (simulation : Simulation related limits others) {further : Nat}
    (bottom : ∀ tag, related Unit (skipWithin limits 0 tag) (Decoder.skipWithin others further tag))
    (levels : Nat) (tag : WireTag) :
    related Unit (skipWithin limits levels tag)
      (Decoder.skipWithin others (levels + further) tag) := by
  induction levels generalizing tag with
  | zero =>
    rw [Nat.zero_add]
    exact bottom tag
  | succ levels inductionHypothesis =>
    rw [Nat.add_right_comm]
    have inside (step : PathStep) (tag : WireTag) :=
      simulation.within step (inductionHypothesis tag)
    have sequence := simulation.bind simulation.elementTag fun tag =>
      simulation.bind (simulation.count tag.leastSize) fun size =>
        simulation.bind (simulation.collect (fun position => inside (.index position) tag) size 0)
          fun _ => simulation.give ()
    cases tag with
    | stop => exact simulation.bind simulation.position fun start => simulation.fail _ _
    | bool | byte => exact simulation.skipBytes 1
    | i16 => exact simulation.skipBytes 2
    | i32 => exact simulation.skipBytes 4
    | i64 | double => exact simulation.skipBytes 8
    | string => exact simulation.bind simulation.length fun size => simulation.skipBytes size
    | struct =>
      exact simulation.bind (simulation.fields (α := Unit) fun header =>
        simulation.bind (inside (.field header.id) header.tag) fun _ => simulation.give none)
        fun _ => simulation.give ()
    | map =>
      exact simulation.bind simulation.elementTag fun keyTag =>
        simulation.bind simulation.elementTag fun valueTag =>
          simulation.bind (simulation.count (keyTag.leastSize + valueTag.leastSize)) fun size =>
            simulation.bind (simulation.collect (fun position =>
              simulation.bind (inside (.key position) keyTag) fun _ =>
                inside (.value position) valueTag) size 0) fun _ => simulation.give ()
    | set | list => exact sequence

/-- Two readers with the same limits skip alike: neither goes down any further than the other. -/
theorem skipWithin_same (simulation : Simulation related limits limits) (levels : Nat)
    (tag : WireTag) :
    related Unit (Decoder.skipWithin limits levels tag) (Decoder.skipWithin limits levels tag) := by
  have bottom (tag : WireTag) :
      related Unit (Decoder.skipWithin limits 0 tag) (Decoder.skipWithin limits 0 tag) :=
    simulation.bind simulation.position fun _ => simulation.fail _ _
  exact simulation.skipWithin bottom levels tag

section Typed

variable {schema : Schema}

/-- The bytes behind a length prefix are read alike. -/
theorem lengthPrefixed (simulation : Simulation related limits others) :
    related Bytes (lengthPrefixed limits) (Decoder.lengthPrefixed others) :=
  simulation.bind simulation.length simulation.payload

/-- The header of a list or set is read alike. -/
theorem sequenceHeader (simulation : Simulation related limits others) (element : DataType) :
    related Nat (sequenceHeader schema limits element)
      (Decoder.sequenceHeader schema others element) :=
  simulation.bind simulation.position fun start =>
    simulation.bind (simulation.lookup start id (schema.wireTag element)) fun tag =>
      simulation.bind (simulation.expectTag tag) fun _ => simulation.count tag.leastSize

/-- The fields of a struct or union are read alike when values are, and what is stepped over is. -/
theorem declaredFields (simulation : Simulation related limits others)
    {read readAlso : DataType → Decoder Value} {skip skipAlso : WireTag → Decoder Unit}
    (reads : ∀ type, related Value (read type) (readAlso type))
    (skips : ∀ tag, related Unit (skip tag) (skipAlso tag)) (declared : List Field) :
    related (List (Int16 × Value)) (declaredFields schema declared read skip)
      (Decoder.declaredFields schema declared readAlso skipAlso) := by
  refine simulation.fields fun header => ?_
  cases fieldById? declared header.id with
  | none =>
    exact simulation.bind (simulation.within (.field header.id) (skips header.tag)) fun _ =>
      simulation.give none
  | some field =>
    refine simulation.bind (simulation.lookup header.offset id (schema.wireTag field.type))
      fun expected => ?_
    split
    · exact simulation.bind (simulation.within (.field header.id) (reads field.type)) fun value =>
        simulation.give (some value)
    · exact simulation.within _ (simulation.fail _ _)

/-- Two readers of one schema read values alike, however many levels one of them may go down
further, if they do so where the other one may not go down at all.

Proof: by induction on the levels. At the bottom both readers are related by assumption. Above it a
value is read by steps that the simulation knows, in the order in which they are taken, and the
parts inside by the reader one level below. -/
theorem valueWithin (simulation : Simulation related limits others) {further : Nat}
    (bottomSkip : ∀ tag,
      related Unit (Decoder.skipWithin limits 0 tag) (Decoder.skipWithin others further tag))
    (bottom : ∀ type, related Value (valueWithin schema limits 0 type)
      (Decoder.valueWithin schema others further type)) (levels : Nat) (type : DataType) :
    related Value (valueWithin schema limits levels type)
      (Decoder.valueWithin schema others (levels + further) type) := by
  induction levels generalizing type with
  | zero =>
    rw [Nat.zero_add]
    exact bottom type
  | succ levels inductionHypothesis =>
    rw [Nat.add_right_comm]
    have skips := simulation.skipWithin bottomSkip levels
    have inside (step : PathStep) (type : DataType) :=
      simulation.within step (inductionHypothesis type)
    have items (element : DataType) (size : Nat) :=
      simulation.collect (fun position => inside (.index position) element) size 0
    refine simulation.bind simulation.position fun start =>
      simulation.bind (simulation.lookup start LookupError.message (schema.canonical type))
        fun behind => ?_
    cases behind with
    | bool => exact simulation.bind simulation.uint8 fun _ => simulation.give _
    | byte =>
      exact simulation.bind (simulation.bind (simulation.bytes 1) fun _ => simulation.give _)
        fun _ => simulation.give _
    | i16 =>
      exact simulation.bind (simulation.bind (simulation.bytes 2) fun _ => simulation.give _)
        fun _ => simulation.give _
    | i32 => exact simulation.bind simulation.int32 fun _ => simulation.give _
    | i64 | double =>
      exact simulation.bind (simulation.bind (simulation.bytes 8) fun _ => simulation.give _)
        fun _ => simulation.give _
    | string =>
      refine simulation.bind simulation.lengthPrefixed fun bytes => ?_
      cases Utf8.decode? bytes with
      | none => exact simulation.fail _ _
      | some text => exact simulation.give _
    | binary => exact simulation.bind simulation.lengthPrefixed fun _ => simulation.give _
    | list element | set element =>
      exact simulation.bind (simulation.sequenceHeader element) fun size =>
        simulation.bind (items element size) fun _ => simulation.give _
    | map keyType valueType =>
      exact simulation.bind (simulation.lookup start id (schema.wireTag keyType)) fun keyTag =>
        simulation.bind (simulation.lookup start id (schema.wireTag valueType)) fun valueTag =>
          simulation.bind (simulation.expectTag keyTag) fun _ =>
            simulation.bind (simulation.expectTag valueTag) fun _ =>
              simulation.bind (simulation.count (keyTag.leastSize + valueTag.leastSize)) fun size =>
                simulation.bind (simulation.collect (fun position =>
                  simulation.bind (inside (.key position) keyType) fun key =>
                    simulation.bind (inside (.value position) valueType) fun value =>
                      simulation.give (key, value)) size 0) fun _ => simulation.give _
    | struct name =>
      refine simulation.bind (simulation.lookup start LookupError.message (schema.structType name))
        fun declared => simulation.bind (simulation.declaredFields inductionHypothesis skips
          declared.fields) fun read => ?_
      dsimp only
      split
      · exact simulation.bind simulation.position fun here => simulation.fail _ _
      · exact simulation.give _
    | union name =>
      refine simulation.bind (simulation.lookup start LookupError.message (schema.unionType name))
        fun declared => simulation.bind (simulation.declaredFields inductionHypothesis skips
          declared.fields) fun read => ?_
      split
      · exact simulation.give _
      · exact simulation.bind simulation.position fun here => simulation.fail _ _
    | enum name =>
      exact simulation.bind simulation.int32 fun number =>
        simulation.bind (simulation.lookup start LookupError.message (schema.enumType name))
          fun declared => simulation.give _
    | typedef name => exact simulation.fail _ _

/-- Two readers with the same limits read values alike. -/
theorem valueWithin_same (simulation : Simulation related limits limits) (schema : Schema)
    (levels : Nat) (type : DataType) :
    related Value (Decoder.valueWithin schema limits levels type)
      (Decoder.valueWithin schema limits levels type) := by
  have bottom (type : DataType) : related Value (Decoder.valueWithin schema limits 0 type)
      (Decoder.valueWithin schema limits 0 type) :=
    simulation.bind simulation.position fun _ => simulation.fail _ _
  exact simulation.valueWithin (simulation.skipWithin_same 0) bottom levels type

end Typed

end Simulation

end SchemaCodec.Decoder
