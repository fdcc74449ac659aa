import SchemaCodec.Proofs.ClosedGraph
import SchemaCodec.Proofs.FittingDepth
import SchemaCodec.Proofs.RoundTrip

/-!
# Validation decides writing

The check of a value and the writing of it are two walks over the value and its type. In a linked
schema whatever passes the first one gets through the second one: every type that the writer comes
to has a tag and every field a declaration, and only a length that no prefix can hold is in the way.
So nothing fails half way, and a sink sees no byte of a value that is rejected. What it was given of
the other ones when it refuses is the front of their bytes.
-/

namespace SchemaCodec

/-- The lengths and counts that a length prefix can hold: it is a signed number of 32 bits. The
depth is the usual one and plays no part. -/
def Limits.ofLengthPrefix : Limits := { stringLength := 0x7FFFFFFF, containerLength := 0x7FFFFFFF }

namespace Schema

variable {schema : Schema}

/-- A registered type has a tag. -/
theorem Linked.exists_wireTag (linked : schema.Linked) {type : DataType}
    (closed : schema.Closed type) : ∃ tag, schema.wireTag type = .ok tag := by
  obtain ⟨behind, followed, -⟩ := linked.canonical closed
  have tagged : ∃ tag, behind.wireTag? = some tag := by
    cases behind with
    | typedef name => exact absurd rfl (ne_typedef_of_canonicalWithin followed name)
    | _ => exact ⟨_, rfl⟩
  obtain ⟨tag, known⟩ := tagged
  exact ⟨tag, wireTag_eq_ok.mpr ⟨behind, followed, known⟩⟩

/-- A value that is written for a type, if this is registered and prefixes can hold all lengths. -/
def Writable (schema : Schema) (value : Value) (type : DataType) : Prop :=
  schema.Closed type → value.Within .ofLengthPrefix →
    ∃ bytes, schema.encodeValue value type = .ok bytes

/-- Items that are written one by one are written behind their count. -/
theorem exists_numbered {α : Type} {form : Bytes → α → Prop} {items : List α}
    (short : items.length ≤ Limits.ofLengthPrefix.containerLength)
    (each : ∀ item ∈ items, ∃ piece, form piece item) : ∃ body, Numbered form body items := by
  obtain ⟨pieces, formed⟩ := Pairing.exists_partners each
  exact ⟨_, Nat.lt_succ_of_le short, pieces, formed, rfl⟩

/-- A declared field with a value that is written is written. -/
theorem exists_fieldWritten (linked : schema.Linked) {declared : List Field}
    (wellFormed : FieldsWellFormed schema.Closed declared) {field : Int16 × Value} {found : Field}
    (known : fieldById? declared field.1 = some found)
    (writable : schema.Writable field.2 found.type)
    (within : field.2.Within .ofLengthPrefix) :
    ∃ piece, FieldWritten schema declared
      (fun type bytes value => schema.encodeValue value type = .ok bytes) piece field := by
  have closed := wellFormed.types found (mem_of_fieldById? known).1
  obtain ⟨tag, tagged⟩ := linked.exists_wireTag closed
  obtain ⟨body, written⟩ := writable closed within
  exact ⟨_, found, tag, body, known, tagged, written, rfl⟩

/-- A value is written when its parts are.

Proof: by the kind of the value. What fits is of the kind of its type, its tags exist since its
types are registered, and its parts are written by assumption. Lengths fit into four bytes, as is
assumed of the value. -/
theorem exists_writesLayer (linked : schema.Linked) {value : Value} {behind : DataType}
    (layer : FitsLayer schema schema.Writable value behind) (closed : schema.Closed behind)
    (within : value.Within .ofLengthPrefix) :
    ∃ bytes, WritesLayer schema (fun type bytes value => schema.encodeValue value type = .ok bytes)
      value behind bytes := by
  have short := within.here
  cases value with
  | bool held | byte number | i16 number | i32 number | i64 number | double number =>
    exact ⟨_, layer, rfl⟩
  | string text | binary held => exact ⟨_, layer, Nat.lt_succ_of_le short, rfl⟩
  | list items | set elements =>
    obtain ⟨element, rfl, each⟩ := layer
    simp only [Value.Within, Value.throughout_list, Value.throughout_set] at within
    have elementClosed : schema.Closed element := closed
    obtain ⟨tag, tagged⟩ := linked.exists_wireTag elementClosed
    obtain ⟨body, numbered⟩ := exists_numbered short fun item member =>
      each item member elementClosed (within.2 item member)
    exact ⟨_, element, tag, body, rfl, tagged, numbered, rfl⟩
  | map entries =>
    obtain ⟨keyType, valueType, rfl, each⟩ := layer
    simp only [Value.Within, Value.throughout_map] at within
    have keyClosed : schema.Closed keyType := closed.1
    have valueClosed : schema.Closed valueType := closed.2
    obtain ⟨keyTag, keyTagged⟩ := linked.exists_wireTag keyClosed
    obtain ⟨valueTag, valueTagged⟩ := linked.exists_wireTag valueClosed
    have entry : ∀ entry ∈ entries, ∃ piece,
        Joined (fun head => schema.encodeValue entry.1 keyType = .ok head)
          (fun tail => schema.encodeValue entry.2 valueType = .ok tail) piece := by
      intro entry member
      obtain ⟨keyWithin, valueWithin⟩ := within.2 entry member
      obtain ⟨head, keyWritten⟩ := (each entry member).1 keyClosed keyWithin
      obtain ⟨tail, valueWritten⟩ := (each entry member).2 valueClosed valueWithin
      exact ⟨head ++ tail, head, tail, rfl, keyWritten, valueWritten⟩
    obtain ⟨body, numbered⟩ := exists_numbered short entry
    exact ⟨_, keyType, valueType, keyTag, valueTag, body, rfl, keyTagged, valueTagged, numbered,
      rfl⟩
  | struct fields =>
    obtain ⟨name, declared, rfl, named, -, each⟩ := layer
    simp only [Value.Within, Value.throughout_struct] at within
    have field : ∀ field ∈ inOrder declared.fields fields, ∃ piece,
        FieldWritten schema declared.fields
          (fun type bytes value => schema.encodeValue value type = .ok bytes) piece field := by
      intro field inOrder
      have member := mem_of_mem_inOrder inOrder
      obtain ⟨found, known, writable⟩ := each field member
      exact exists_fieldWritten linked (linked.struct named) known writable (within.2 field member)
    obtain ⟨pieces, written⟩ := Pairing.exists_partners field
    exact ⟨_, name, declared, pieces, rfl, named, written, rfl⟩
  | union id held =>
    obtain ⟨name, declared, found, rfl, named, known, writable⟩ := layer
    simp only [Value.Within, Value.throughout_union] at within
    obtain ⟨piece, written⟩ : ∃ piece, FieldWritten schema declared.fields
        (fun type bytes value => schema.encodeValue value type = .ok bytes) piece (id, held) :=
      exists_fieldWritten linked (linked.union named) known writable within.2
    exact ⟨_, name, declared, piece, rfl, named, written, rfl⟩
  | enum number label =>
    obtain ⟨name, -, rfl, -⟩ := layer
    exact ⟨_, name, rfl, rfl⟩

/-- A value that fits is written, if its type is registered and prefixes can hold all lengths. The
induction is on the nesting: the parts of a value are nested less. -/
theorem writable_of_fits (linked : schema.Linked) {value : Value} {type : DataType}
    (fits : schema.Fits value type) : schema.Writable value type := by
  induction nested : value.nesting using Nat.strongRecOn generalizing value type with
  | ind nesting inductionHypothesis =>
    intro closed within
    obtain ⟨behind, followed, layer⟩ := fits_iff.mp fits
    obtain ⟨other, alsoFollowed, closedBehind⟩ := linked.canonical closed
    obtain rfl := Except.ok.inj (followed.symm.trans alsoFollowed)
    have parts : FitsLayer schema schema.Writable value behind :=
      layer.imp_shallower fun shallower fits =>
        inductionHypothesis _ (nested ▸ shallower) fits rfl
    obtain ⟨bytes, writes⟩ := exists_writesLayer linked parts closedBehind within
    exact ⟨bytes, encodeValue_eq_ok.mpr ⟨behind, followed, writes⟩⟩

end Schema

namespace Sink

/-- A sink that takes something with every call and never refuses. -/
structure Unfailing (sink : Sink) : Prop where
  takes : ∀ calls most, sink.grant calls = some most → 1 ≤ most
  unlimited : sink.capacity = none

/-- What became of bytes that a sink was given: it took all of them, or took their front and refused
the rest. -/
inductive Takes (sink : Sink) (bytes : Bytes) : Except String Unit × Sink → Prop
  | all {after : Sink} (held : after.held = sink.held ++ bytes) : Takes sink bytes (.ok (), after)
  | front {reason : String} {after : Sink} {taken : Bytes} (part : taken <+: bytes)
      (less : taken ≠ bytes) (held : after.held = sink.held ++ taken) :
      Takes sink bytes (.error reason, after)

/-- Of no bytes a sink takes all without a call. -/
theorem takes_nothing (sink : Sink) : sink.Takes [] (.ok (), sink) :=
  .all (List.append_nil sink.held).symm

/-- What a sink takes behind bytes that it took already. -/
theorem Takes.behind {sink after : Sink} {head tail : Bytes} {ran : Except String Unit × Sink}
    (held : after.held = sink.held ++ head) (rest : after.Takes tail ran) :
    sink.Takes (head ++ tail) ran := by
  cases rest with
  | all heldAll => exact .all (by rw [heldAll, held, List.append_assoc])
  | front part less heldPart =>
    exact .front ((List.prefix_append_right_inj head).mpr part)
      (fun same => less (List.append_cancel_left same))
      (by rw [heldPart, held, List.append_assoc])

/-- One call takes some of the bytes from the front, or refuses and takes none. -/
theorem call_cases (sink : Sink) (bytes : Bytes) :
    (∃ reason after, sink.call bytes = (.error reason, after) ∧ after.held = sink.held) ∨
    ∃ count after, sink.call bytes = (.ok count, after) ∧
      after.held = sink.held ++ bytes.take count := by
  unfold call
  cases sink.capacity with
  | none => exact .inr ⟨_, _, rfl, rfl⟩
  | some bound =>
    obtain ⟨limit, reason⟩ := bound
    by_cases full : limit ≤ sink.held.length
    · simp only [if_pos full]
      exact .inl ⟨_, _, rfl, rfl⟩
    · simp only [if_neg full]
      exact .inr ⟨_, _, rfl, rfl⟩

/-- Calling again and again keeps to the bytes in their order. The induction is on the calls; what
one of them took stands in front of what the others take.

A call that fails or takes nothing ends the draining with a proper front in the sink, unless all
bytes were taken before. -/
theorem drain_takes (calls : Nat) (bytes : Bytes) (sink : Sink) :
    sink.Takes bytes (drain calls bytes sink) := by
  induction calls generalizing bytes sink with
  | zero =>
    by_cases done : bytes = []
    · simpa [drain, done] using sink.takes_nothing
    · simpa [drain, done] using
        Takes.front List.nil_prefix (Ne.symm done) (List.append_nil sink.held).symm
  | succ calls inductionHypothesis =>
    rw [drain]
    by_cases done : bytes = []
    · simpa [done] using sink.takes_nothing
    · rw [if_neg done]
      rcases sink.call_cases bytes with ⟨reason, after, called, held⟩ | ⟨count, after, called, held⟩
      · rw [called]
        exact .front List.nil_prefix (Ne.symm done) (by rw [held, List.append_nil])
      · rw [called]
        cases count with
        | zero => exact .front List.nil_prefix (Ne.symm done) held
        | succ count =>
          have whole := (inductionHypothesis (bytes.drop (count + 1)) after).behind held
          rwa [List.take_append_drop] at whole

/-- A call to a sink that never refuses takes a byte where there is one. -/
theorem Unfailing.call {sink : Sink} (unfailing : sink.Unfailing) {bytes : Bytes}
    (more : bytes ≠ []) :
    ∃ count after, sink.call bytes = (.ok (count + 1), after) ∧ after.Unfailing := by
  have present := List.length_pos_of_ne_nil more
  unfold Sink.call
  cases granted : sink.grant sink.calls with
  | none =>
    obtain ⟨count, isCount⟩ := Nat.exists_eq_add_one.mpr present
    simp only [unfailing.unlimited]
    exact ⟨count, _, congrArg (·, _) (congrArg Except.ok isCount), unfailing.takes, rfl⟩
  | some most =>
    have takes := unfailing.takes _ _ granted
    obtain ⟨count, isCount⟩ := Nat.exists_eq_add_one.mpr (Nat.lt_min.mpr ⟨takes, present⟩)
    simp only [unfailing.unlimited]
    exact ⟨count, _, congrArg (·, _) (congrArg Except.ok isCount), unfailing.takes, rfl⟩

/-- A sink that never refuses takes everything in as many calls as there are bytes. -/
theorem Unfailing.drain {sink : Sink} (unfailing : sink.Unfailing) {calls : Nat} {bytes : Bytes}
    (enough : bytes.length ≤ calls) : (drain calls bytes sink).1 = .ok () := by
  induction calls generalizing bytes sink with
  | zero => simp [Sink.drain, List.eq_nil_of_length_eq_zero (Nat.le_zero.mp enough)]
  | succ calls inductionHypothesis =>
    rw [Sink.drain]
    by_cases done : bytes = []
    · simp [done]
    · rw [if_neg done]
      obtain ⟨count, after, called, still⟩ := unfailing.call done
      rw [called]
      refine inductionHypothesis still ?_
      rw [List.length_drop]
      omega

end Sink

section Codec

variable {schema : Schema} {limits : Limits} {type : DataType} {value : Value}

/-- In a linked schema a value is encoded when it passes the check, if its type is registered and
prefixes can hold all lengths. -/
theorem exists_encode_iff (linked : schema.Linked) (closed : schema.Closed type)
    (short : value.Within .ofLengthPrefix) :
    (∃ bytes, schema.encode limits type value = .ok bytes) ↔
      schema.checkValue limits.depth value type 0 = .ok () := by
  constructor
  · rintro ⟨bytes, encoded⟩
    exact (Schema.encode_eq_ok.mp encoded).1
  · intro checked
    obtain ⟨bytes, written⟩ := Schema.writable_of_fits linked ⟨_, _, checked⟩ closed short
    exact ⟨bytes, Schema.encode_eq_ok.mpr ⟨checked, written⟩⟩

/-- A value that is rejected is not encoded, and the error is that of the check. -/
theorem encode_of_rejected {fault : ValueError}
    (rejected : schema.checkValue limits.depth value type 0 = .error fault) :
    schema.encode limits type value = .error (.valueMismatch fault) := by
  rw [Schema.encode, rejected]
  rfl

/-- Bytes that the sink takes are counted. -/
theorem write_of_taken {bytes : Bytes} (encoded : schema.encode limits type value = .ok bytes)
    {sink after : Sink} (taken : sink.write bytes = (.ok (), after)) :
    schema.write limits type value sink = (.ok bytes.length, after) := by
  simp only [Schema.write, encoded, taken]

/-- A refusal of the sink is the error of writing. -/
theorem write_of_refused {bytes : Bytes} (encoded : schema.encode limits type value = .ok bytes)
    {sink after : Sink} {reason : String} (refused : sink.write bytes = (.error reason, after)) :
    schema.write limits type value sink = (.error (.sink reason), after) := by
  simp only [Schema.write, encoded, refused]

end Codec

/-- Validation decides writing. In a linked schema, for a registered type and a value whose lengths
length prefixes can hold, encoding succeeds exactly when the check within the same depth does, and
fails with the error of the check. Whatever the sink, a rejected value does not reach it; of an
accepted one it holds all bytes after a success, which gives their number, and their front after a
failure of its own, which it does not come to if it never refuses.

Proof: a rejected value is refused before anything is written. An accepted one is written in memory
first and then handed to the sink, which takes a front of the bytes, and all of them where it does
not refuse. -/
theorem validation_decides_writing {documents : List Document} {schema : Schema}
    (linked : link documents = .ok schema) {type : DataType} (closed : schema.Closed type)
    {value : Value} (short : value.Within .ofLengthPrefix) (limits : Limits) :
    ((∃ bytes, schema.encode limits type value = .ok bytes) ↔
      schema.checkValue limits.depth value type 0 = .ok ()) ∧
    (∀ error, schema.encode limits type value = .error error ↔
      ∃ fault, schema.checkValue limits.depth value type 0 = .error fault ∧
        error = .valueMismatch fault) ∧
    ∀ sink : Sink,
      (∀ fault, schema.checkValue limits.depth value type 0 = .error fault →
        schema.write limits type value sink = (.error (.valueMismatch fault), sink)) ∧
      ∀ bytes, schema.encode limits type value = .ok bytes →
        (∀ count after, schema.write limits type value sink = (.ok count, after) →
          count = bytes.length ∧ after.held = sink.held ++ bytes) ∧
        (∀ error after, schema.write limits type value sink = (.error error, after) →
          ∃ reason taken, error = .sink reason ∧ taken <+: bytes ∧
            after.held = sink.held ++ taken) ∧
        (sink.Unfailing →
          ∃ after, schema.write limits type value sink = (.ok bytes.length, after)) := by
  have accepted : (∃ bytes, schema.encode limits type value = .ok bytes) ↔
      schema.checkValue limits.depth value type 0 = .ok () :=
    exists_encode_iff (linked_of_link linked) closed short
  refine ⟨accepted, fun error => ?_,
    fun sink => ⟨fun fault rejected => ?_, fun bytes encoded => ?_⟩⟩
  · constructor
    · intro failed
      cases checked : schema.checkValue limits.depth value type 0 with
      | error fault =>
        rw [encode_of_rejected checked] at failed
        exact ⟨fault, rfl, (Except.error.inj failed).symm⟩
      | ok passed =>
        obtain ⟨bytes, encoded⟩ := accepted.mpr checked
        rw [encoded] at failed
        cases failed
    · rintro ⟨fault, rejected, rfl⟩
      exact encode_of_rejected rejected
  · rw [Schema.write, encode_of_rejected rejected]
  · have takes : sink.Takes bytes (sink.write bytes) := Sink.drain_takes _ _ _
    have everything (unfailing : sink.Unfailing) : (sink.write bytes).1 = .ok () :=
      unfailing.drain (Nat.le_refl _)
    rcases ran : sink.write bytes with ⟨reason | ⟨⟨⟩⟩, last⟩ <;> rw [ran] at takes everything
    · rw [write_of_refused encoded ran]
      refine ⟨?_, ?_, fun unfailing => ?_⟩
      · intro count after same
        cases (Prod.mk.inj same).1
      · intro error after same
        obtain ⟨refused, rfl⟩ := Prod.mk.inj same
        cases takes with
        | @front _ _ taken part less held =>
          exact ⟨reason, taken, (Except.error.inj refused).symm, part, held⟩
      · cases everything unfailing
    · rw [write_of_taken encoded ran]
      refine ⟨?_, ?_, fun _ => ⟨last, rfl⟩⟩
      · intro count after same
        obtain ⟨counted, rfl⟩ := Prod.mk.inj same
        cases takes with
        | all held => exact ⟨(Except.ok.inj counted).symm, held⟩
      · intro error after same
        cases (Prod.mk.inj same).1

/-- An empty list of a typedef that is not registered passes the check and cannot be written: there
is no element to check, and the tag of the elements is written anyway. -/
example : Schema.checkValue {} 64 (.list []) (.list (.typedef reportName)) 0 = .ok () ∧
    (Schema.encode {} {} (.list (.typedef reportName)) (.list [])).toOption = none := by
  decide

/-- A sink that takes three bytes with a call and eight in all, the first of which it has already.
-/
def narrowSink : Sink := { held := [1], grant := fun _ => some 3, capacity := some (8, "full") }

/-- The report is accepted, and of its bytes the narrow sink comes to hold the first seven, which
are the front of all of them; a report without its total is rejected and does not reach it.

Proof: the law is taken at the report and at the empty struct. Encoding and the calls of the narrow
sink are run; that the sink holds a front, and that a rejected value does not reach it, are what the
law says. -/
theorem narrow_sink_holds_the_front :
    reportSchema.Closed (.struct "report.Report") ∧ report.Within .ofLengthPrefix ∧
      (∃ bytes, reportSchema.encode {} (.struct "report.Report") report = .ok bytes) ∧
      (∃ reason after taken, reportSchema.write {} (.struct "report.Report") report narrowSink =
        (.error (.sink reason), after) ∧ taken <+: reportBytes ∧ after.held = 1 :: taken) ∧
      reportSchema.write {} (.struct "report.Report") (.struct []) narrowSink =
        (.error (.valueMismatch ⟨.missingRequiredField "report.Report" 1 "total", []⟩),
          narrowSink) := by
  have closed : reportSchema.Closed (.struct "report.Report") := by rfl
  have short : report.Within .ofLengthPrefix := by decide
  have encoded : reportSchema.encode {} (.struct "report.Report") report = .ok reportBytes := by rfl
  obtain ⟨accepted, -, writes⟩ := validation_decides_writing link_reportDocument closed short {}
  have empty : (Value.struct []).Within .ofLengthPrefix := by decide
  obtain ⟨-, -, sinks⟩ := validation_decides_writing link_reportDocument closed empty {}
  refine ⟨closed, short, accepted.mpr (by rfl), ?_, ?_⟩
  · have refused : reportSchema.write {} (.struct "report.Report") report narrowSink =
        (.error (.sink "full"),
          { narrowSink with held := 1 :: reportBytes.take 7, calls := 4 }) := by
      rfl
    obtain ⟨-, fails, -⟩ := (writes narrowSink).2 reportBytes encoded
    obtain ⟨reason, taken, isSink, front, held⟩ := fails _ _ refused
    rw [isSink] at refused
    exact ⟨reason, _, taken, refused, front, held⟩
  · exact (sinks narrowSink).1 _ (by rfl)

end SchemaCodec
