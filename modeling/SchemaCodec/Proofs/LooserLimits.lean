import SchemaCodec.Message.Envelope
import SchemaCodec.Proofs.FittingDepth
import SchemaCodec.Proofs.NormalForm
import SchemaCodec.Proofs.Simulation
import SchemaCodec.Proofs.SourceAgreement

/-!
# Limits only restrict

What is read or written under some limits is read or written alike under looser ones: the same
result, and the same place behind it. A limit decides whether to go on and never what is found, so
each step of a reader is upheld by a reader with looser limits, and so is the whole walk. The
deeper reader has levels to spare where the other one may not go down any further.
-/

namespace SchemaCodec

/-- Limits of which each is at most the other's. Two limits may be incomparable, one deeper and the
other one longer. -/
structure Limits.AtMost (limits others : Limits) : Prop where
  depth : limits.depth ≤ others.depth
  stringLength : limits.stringLength ≤ others.stringLength
  containerLength : limits.containerLength ≤ others.containerLength

namespace Decoder

/-- What the first decoder reads, from any source, the second one reads as well: it has the same
result and leaves the source in the same state. -/
def Upheld (α : Type) (first second : Decoder α) : Prop :=
  ∀ source result after, first.run source = (.ok result, after) →
    second.run source = (.ok result, after)

section Steps

variable {α β : Type} {first second : Decoder α}

/-- A decoder upholds itself. -/
theorem Upheld.refl (decoder : Decoder α) : Upheld α decoder decoder :=
  fun _ _ _ read => read

/-- A failure asks for nothing to be upheld. -/
theorem upheld_of_fail (fault : DecodeFault) (offset : Nat) (other : Decoder α) :
    Upheld α (fail fault offset) other := by
  intro source result after read
  simp at read

/-- Steps that are upheld are upheld one after another. -/
theorem Upheld.bind {next following : α → Decoder β} (before : Upheld α first second)
    (behind : ∀ result, Upheld β (next result) (following result)) :
    Upheld β (first >>= next) (second >>= following) := by
  intro source result after read
  rw [run_bind] at read ⊢
  rcases begun : first.run source with ⟨_ | middle, between⟩ <;> rw [begun] at read
  · simp at read
  · rw [before source middle between begun]
    exact behind middle between result after read

/-- A step of a path changes no result. -/
theorem Upheld.within (upheld : Upheld α first second) (step : PathStep) :
    Upheld α (within step first) (within step second) := by
  intro source result after read
  unfold run Decoder.within at read ⊢
  rcases begun : first source with ⟨_ | middle, between⟩ <;>
    simp only [begun, Prod.mk.injEq, Except.ok.injEq, reduceCtorEq, false_and] at read
  rw [show second source = _ from upheld source middle between begun]
  exact Prod.ext (congrArg Except.ok read.1) read.2

/-- A check that refuses no more upholds what passes the stricter one. -/
theorem Upheld.unless {refused refusedAlso : Prop} [Decidable refused] [Decidable refusedAlso]
    {fault faultAlso : DecodeFault} {offset : Nat} (fewer : refusedAlso → refused)
    (upheld : Upheld α first second) :
    Upheld α (if refused then fail fault offset else first)
      (if refusedAlso then fail faultAlso offset else second) := by
  by_cases strict : refused
  · rw [if_pos strict]
    exact upheld_of_fail _ _ _
  · rw [if_neg strict, if_neg fun loose => strict (fewer loose)]
    exact upheld

/-- An announced number within a limit is within a greater one. -/
theorem upheld_announcement {limit other : Nat} (looser : limit ≤ other) (room : Nat → Nat)
    (fault faultAlso : Int32 → DecodeFault) (short : Nat → Int32 → Nat → Decoder Nat) :
    Upheld Nat (announcement limit room fault short) (announcement other room faultAlso short) :=
  (Upheld.refl position).bind fun _ => (Upheld.refl int32).bind fun _ =>
    (Upheld.refl _).unless fun refused =>
      refused.imp_right fun excessive => Nat.lt_of_le_of_lt looser excessive

end Steps

/-- A reader with looser limits walks in step with the stricter one. -/
theorem upheld_simulation {limits others : Limits} (looser : limits.AtMost others) :
    Simulation Upheld limits others where
  give result := .refl (pure result)
  bind := Upheld.bind
  fail fault offset := .refl (fail fault offset)
  within step upheld := upheld.within step
  position := .refl position
  bytes size := .refl (bytes size)
  skipBytes size := .refl (skipBytes size)
  payload size := .refl (payload size)
  length := by
    rw [length_eq, length_eq]
    exact upheld_announcement looser.stringLength _ _ _ _
  count leastSize := by
    rw [count_eq, count_eq]
    exact upheld_announcement looser.containerLength _ _ _ _
  available step source result after read :=
    step source.unread.length source.unread.length (Nat.le_refl _) source result after read
  spent other := by
    intro source result after read
    simp at read

section Readers

variable {limits others : Limits}

/-- Skipping is upheld, also by a reader that may go down further. -/
theorem upheld_skipWithin (looser : limits.AtMost others) (levels further : Nat) (tag : WireTag) :
    Upheld Unit (skipWithin limits levels tag) (skipWithin others (levels + further) tag) := by
  have bottom (tag : WireTag) : Upheld Unit (skipWithin limits 0 tag)
      (skipWithin others further tag) := by
    intro source result after skipped
    simp [skipWithin] at skipped
  exact (upheld_simulation looser).skipWithin bottom levels tag

/-- Typed reading is upheld, also by a reader that may go down further. -/
theorem upheld_valueWithin (looser : limits.AtMost others) (schema : Schema)
    (levels further : Nat) (type : DataType) :
    Upheld Value (valueWithin schema limits levels type)
      (valueWithin schema others (levels + further) type) := by
  have bottomSkip (tag : WireTag) : Upheld Unit (skipWithin limits 0 tag)
      (skipWithin others further tag) := by
    simpa using upheld_skipWithin looser 0 further tag
  have bottom (type : DataType) : Upheld Value (valueWithin schema limits 0 type)
      (valueWithin schema others further type) := by
    intro source result after read
    simp [valueWithin] at read
  exact (upheld_simulation looser).valueWithin bottomSkip bottom levels type

/-- The levels of a looser reader are those of the stricter one and some more. -/
theorem exists_levels (looser : limits.AtMost others) :
    ∃ further, others.depth + 1 = limits.depth + 1 + further := by
  have deeper := looser.depth
  exact ⟨others.depth - limits.depth, by omega⟩

/-- Whatever is skipped is skipped under looser limits. -/
theorem upheld_skipValue (looser : limits.AtMost others) (tag : WireTag) :
    Upheld Unit (skipValue limits tag) (skipValue others tag) := by
  obtain ⟨further, levels⟩ := exists_levels looser
  unfold skipValue
  rw [levels]
  exact upheld_skipWithin looser _ _ tag

/-- Whatever is read is read under looser limits. -/
theorem upheld_value (looser : limits.AtMost others) (schema : Schema) (type : DataType) :
    Upheld Value (value schema limits type) (value schema others type) := by
  obtain ⟨further, levels⟩ := exists_levels looser
  unfold value
  rw [levels]
  exact upheld_valueWithin looser schema _ _ type

/-- What is read from all of some bytes is read from all of them by a decoder that upholds it. -/
theorem Upheld.runOnAll {first second : Decoder α} (upheld : Upheld α first second)
    {bytes : Bytes} {result : α} (read : first.runOnAll bytes = .ok result) :
    second.runOnAll bytes = .ok result := by
  unfold Decoder.runOnAll at read ⊢
  rcases begun : first.run (.ofBytes bytes) with ⟨_ | found, after⟩ <;> rw [begun] at read
  · simp at read
  · rw [upheld _ found after begun]
    exact read

end Readers

end Decoder

open Decoder (Upheld)

section Messages

variable {limits others : Limits}

/-- Reading a header is upheld. -/
theorem MessageHeader.upheld_decoder (looser : limits.AtMost others) :
    Upheld _ (MessageHeader.decoder limits) (MessageHeader.decoder others) := by
  refine (Upheld.refl _).bind fun start => (Upheld.refl _).bind fun first => ?_
  by_cases signed : first.toInt < 0
  · rw [if_pos signed, if_pos signed]
    unfold versioned
    split
    · exact .refl _
    · exact (Decoder.upheld_simulation looser).lengthPrefixed.bind fun bytes => .refl _
  · rw [if_neg signed, if_neg signed]
    refine (Upheld.refl Decoder.remaining?).bind fun left? => .unless ?_ (.refl _)
    exact fun refused => refused.imp_left fun excessive =>
      Nat.lt_of_le_of_lt looser.stringLength excessive

/-- Reading an application exception is upheld. -/
theorem ApplicationException.upheld_decoder (looser : limits.AtMost others) :
    Upheld _ (ApplicationException.decoder limits) (ApplicationException.decoder others) := by
  have simulation := Decoder.upheld_simulation looser
  refine (simulation.fields fun header => ?_).bind fun parts => .refl _
  unfold part
  split
  · exact (Upheld.refl _).bind fun start => simulation.lengthPrefixed.bind fun bytes => .refl _
  · split
    · exact .refl _
    · exact ((Decoder.upheld_skipValue looser header.tag).within _).bind fun _ => .refl _

/-- The body that a header calls for is the same under looser limits, and reading it is upheld.

Proof: by the type of the message. Which struct is read depends on the service and the method alone;
a struct and an exception are read under looser limits with the same result, and what is made of it
afterwards reads nothing. -/
theorem Schema.upheld_bodyDecoder (looser : limits.AtMost others) {schema : Schema}
    {service : String} {header : MessageHeader} {decoder : Decoder MessageBody}
    (known : schema.bodyDecoder limits service header = .ok decoder) :
    ∃ decoderAlso, schema.bodyDecoder others service header = .ok decoderAlso ∧
      Upheld MessageBody decoder decoderAlso := by
  have struct (name : String) (body : Value → MessageBody) : Upheld MessageBody
      (Decoder.value schema limits (.struct name) >>= fun value => pure (body value))
      (Decoder.value schema others (.struct name) >>= fun value => pure (body value)) :=
    (Decoder.upheld_value looser schema _).bind fun value => .refl _
  unfold Schema.bodyDecoder at known ⊢
  cases type : header.type with
  | call | oneway =>
    rw [type] at known
    obtain ⟨⟨owner, declared⟩, found, decided⟩ := Outcome.bind_eq_ok.mp known
    obtain rfl := Except.ok.inj decided
    exact ⟨_, Outcome.bind_eq_ok.mpr ⟨_, found, rfl⟩, struct _ _⟩
  | reply =>
    rw [type] at known
    obtain ⟨⟨owner, declared⟩, found, rest⟩ := Outcome.bind_eq_ok.mp known
    obtain ⟨name, named, decided⟩ := Outcome.bind_eq_ok.mp rest
    obtain rfl := Except.ok.inj decided
    exact ⟨_, Outcome.bind_eq_ok.mpr ⟨_, found, Outcome.bind_eq_ok.mpr ⟨name, named, rfl⟩⟩,
      struct _ _⟩
  | exception =>
    rw [type] at known
    obtain rfl := Except.ok.inj known
    exact ⟨_, rfl, (ApplicationException.upheld_decoder looser).bind fun _ => .refl _⟩

/-- A header that is read is read under looser limits. -/
theorem MessageHeader.read_of_looser (looser : limits.AtMost others) {source after : Source}
    {header : MessageHeader} (read : MessageHeader.read limits source = (.ok header, after)) :
    MessageHeader.read others source = (.ok header, after) :=
  read_eq_ok.mpr (upheld_decoder looser source _ after (read_eq_ok.mp read))

/-- A message that is decoded is decoded under looser limits. -/
theorem Schema.decodeMessage_of_looser (looser : limits.AtMost others) {schema : Schema}
    {service : String} {bytes : Bytes} {message : Message}
    (decoded : schema.decodeMessage limits service bytes = .ok message) :
    schema.decodeMessage others service bytes = .ok message := by
  unfold Schema.decodeMessage at decoded ⊢
  rcases read : MessageHeader.read limits (.ofBytes bytes) with ⟨_ | header, source⟩ <;>
    simp only [read, reduceCtorEq] at decoded
  obtain ⟨decoder, known, decoded⟩ := Outcome.bind_eq_ok.mp decoded
  obtain ⟨decoderAlso, knownAlso, upheld⟩ := Schema.upheld_bodyDecoder looser known
  rcases readBody : decoder.run source with ⟨_ | body, after⟩ <;>
    simp only [readBody, reduceCtorEq] at decoded
  rw [MessageHeader.read_of_looser looser read]
  refine Outcome.bind_eq_ok.mpr ⟨decoderAlso, knownAlso, ?_⟩
  simp only [upheld source body after readBody]
  exact decoded

end Messages

section Writing

variable {schema : Schema} {limit other : Nat}

/-- A value that passes the check within a limit on depth passes it within a greater one. The
induction is on the nesting: the parts of a value are nested less. -/
theorem Schema.checkValue_of_looser (looser : limit ≤ other) {value : Value} {type : DataType}
    {depth : Nat} (checked : schema.checkValue limit value type depth = .ok ()) :
    schema.checkValue other value type depth = .ok () := by
  induction nested : value.nesting using Nat.strongRecOn generalizing value type depth with
  | ind nesting inductionHypothesis =>
    obtain ⟨shallow, behind, followed, layer⟩ := checkValue_eq_ok.mp checked
    refine checkValue_eq_ok.mpr ⟨Nat.le_trans shallow looser, behind, followed,
      layer.imp_shallower fun shallower partChecked => ?_⟩
    exact inductionHypothesis _ (nested ▸ shallower) partChecked rfl

/-- A value that is encoded is encoded alike under looser limits. -/
theorem Schema.encode_of_looser {limits others : Limits} (looser : limits.AtMost others)
    {type : DataType} {value : Value} {bytes : Bytes}
    (encoded : schema.encode limits type value = .ok bytes) :
    schema.encode others type value = .ok bytes := by
  obtain ⟨checked, written⟩ := Schema.encode_eq_ok.mp encoded
  exact Schema.encode_eq_ok.mpr ⟨Schema.checkValue_of_looser looser.depth checked, written⟩

end Writing

/-- Limits only restrict: reading a value from any source, decoding one that fills some bytes,
skipping, reading the header of a message, decoding a whole message and encoding a value succeed
under looser limits wherever they succeed under stricter ones, with the same result and the same
source behind it.

Proof: readers are related if one of them succeeds wherever the other one does, with the same
result. This relation is kept by every step that a reader takes, and it holds of the checks of
limits; so the two readers are related at every level. -/
theorem limits_only_restrict {limits others : Limits} (looser : limits.AtMost others) :
    (∀ schema type source value after,
      (Decoder.value schema limits type).run source = (.ok value, after) →
        (Decoder.value schema others type).run source = (.ok value, after)) ∧
    (∀ (schema : Schema) type bytes value, schema.decode limits type bytes = .ok value →
      schema.decode others type bytes = .ok value) ∧
    (∀ tag source after, (Decoder.skipValue limits tag).run source = (.ok (), after) →
      (Decoder.skipValue others tag).run source = (.ok (), after)) ∧
    (∀ source header after, MessageHeader.read limits source = (.ok header, after) →
      MessageHeader.read others source = (.ok header, after)) ∧
    (∀ (schema : Schema) service bytes message,
      schema.decodeMessage limits service bytes = .ok message →
        schema.decodeMessage others service bytes = .ok message) ∧
    (∀ (schema : Schema) type value bytes, schema.encode limits type value = .ok bytes →
      schema.encode others type value = .ok bytes) :=
  ⟨fun schema type => Decoder.upheld_value looser schema type,
    fun schema type _ _ => (Decoder.upheld_value looser schema type).runOnAll,
    fun tag source after => Decoder.upheld_skipValue looser tag source () after,
    fun _ _ _ => MessageHeader.read_of_looser looser,
    fun _ _ _ _ => Schema.decodeMessage_of_looser looser,
    fun _ _ _ _ => Schema.encode_of_looser looser⟩

/-- Limits that just let the wasteful report through. -/
def narrowLimits : Limits := { depth := 2, stringLength := 2, containerLength := 3 }

/-- The wasteful report is read within narrow limits and therefore within the usual ones, and so it
is with writing it. -/
theorem narrow_report_stays_readable :
    narrowLimits.AtMost {} ∧
      (Decoder.value reportSchema narrowLimits (.struct "report.Report")).run
        (.ofBytes wastefulReportBytes) = (.ok report, ⟨44, .slice [255]⟩) ∧
      (Decoder.value reportSchema {} (.struct "report.Report")).run
        (.ofBytes wastefulReportBytes) = (.ok report, ⟨44, .slice [255]⟩) ∧
      reportSchema.encode {} (.struct "report.Report") report = .ok reportBytes := by
  have looser : narrowLimits.AtMost {} := ⟨by decide, by decide, by decide⟩
  have read : (Decoder.value reportSchema narrowLimits (.struct "report.Report")).run
      (.ofBytes wastefulReportBytes) = (.ok report, ⟨44, .slice [255]⟩) := by rfl
  have written : reportSchema.encode narrowLimits (.struct "report.Report") report =
      .ok reportBytes := by rfl
  obtain ⟨reads, -, -, -, -, writes⟩ := limits_only_restrict looser
  exact ⟨looser, read, reads _ _ _ _ _ read, writes _ _ _ _ written⟩

end SchemaCodec
