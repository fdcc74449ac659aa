import SchemaCodec.Proofs.RoundTrip
import SchemaCodec.Proofs.SettledValues

/-!
# Reading and writing again gives a normal form

Whatever a codec reads fits its type and is written again in no more bytes than it was read from.
These bytes are a normal form: reading and writing them once more gives them back. The form does not
depend on the labels of enums, which are all that equal values may differ in.
-/

namespace SchemaCodec

open Schema (FieldWritten WritesLayer inOrder)

section Equality

variable {schema : Schema}

/-- Equal fields are found under the same id. -/
theorem find_of_equal {fields others : List (Int16 × Value)}
    (equal : List.Forall₂ (fun left right => left.1 = right.1 ∧
      Value.order left.2 right.2 = .eq) fields others) (id : Int16) :
    Option.Rel (fun left right => left.1 = right.1 ∧ Value.order left.2 right.2 = .eq)
      (fields.find? (·.1 = id)) (others.find? (·.1 = id)) := by
  induction equal with
  | nil => exact .none
  | @cons field other fields others here _ inductionHypothesis =>
    by_cases same : field.1 = id
    · have alsoSame : other.1 = id := here.1.symm.trans same
      simp only [List.find?_cons, same, alsoSame, decide_true]
      exact .some here
    · have notSame : ¬other.1 = id := fun alsoSame => same (here.1.trans alsoSame)
      simp only [List.find?_cons, same, notSame, decide_false]
      exact inductionHypothesis

/-- Equal fields are put in the same order. -/
theorem inOrder_of_equal {fields others : List (Int16 × Value)}
    (equal : List.Forall₂ (fun left right => left.1 = right.1 ∧
      Value.order left.2 right.2 = .eq) fields others) (declared : List Field) :
    List.Forall₂ (fun left right => left.1 = right.1 ∧ Value.order left.2 right.2 = .eq)
      (inOrder declared fields) (inOrder declared others) := by
  induction declared with
  | nil => exact .nil
  | cons field rest inductionHypothesis =>
    have found := find_of_equal equal field.id
    simp only [inOrder, List.filterMap_cons] at inductionHypothesis ⊢
    cases left : fields.find? (·.1 = field.id) <;>
      cases right : others.find? (·.1 = field.id) <;> rw [left, right] at found
    · exact inductionHypothesis
    · cases found
    · cases found
    · cases found with
      | some here => exact .cons here inductionHypothesis

/-- Equal items are written alike, when this is so of each of them. -/
theorem Numbered.of_equal {α : Type} {first second : Bytes → α → Prop} {related : α → α → Prop}
    {taken : Bytes} {items others : List α} (numbered : Numbered first taken items)
    (equal : List.Forall₂ related items others)
    (part : ∀ {piece item other}, first piece item → related item other → second piece other) :
    Numbered second taken others := by
  obtain ⟨small, pieces, each, rfl⟩ := numbered
  rw [equal.length_eq] at small ⊢
  exact ⟨small, pieces, Pairing.forall₂_compose each equal part, rfl⟩

/-- Equal values are written alike, when this is so of their parts.

Proof: equal values are of one kind, so the cases are those of both values together. Containers are
equal in their parts place by place, and a struct sets equal fields in the order of the
declarations. Text is compared by its bytes, and an enum without its label. -/
theorem Schema.WritesLayer.of_equal {first second : DataType → Bytes → Value → Prop}
    {value other : Value} {behind : DataType} {bytes : Bytes}
    (writes : WritesLayer schema first value behind bytes)
    (equal : Value.order value other = .eq)
    (part : ∀ {type piece value other}, first type piece value →
      Value.order value other = .eq → second type piece other) :
    WritesLayer schema second other behind bytes := by
  have fieldAlike {declared : List Field} {piece : Bytes} {field another : Int16 × Value}
      (written : FieldWritten schema declared first piece field)
      (same : field.1 = another.1 ∧ Value.order field.2 another.2 = .eq) :
      FieldWritten schema declared second piece another := by
    obtain ⟨found, tag, body, known, tagged, written, rfl⟩ := written
    exact ⟨found, tag, body, same.1 ▸ known, tagged, part written same.2, by rw [same.1]⟩
  have kind := Value.sameKind_of_order_eq equal
  cases kind with
  | list items others =>
    obtain ⟨element, tag, body, rfl, tagged, numbered, rfl⟩ := writes
    exact ⟨element, tag, body, rfl, tagged,
      numbered.of_equal (Value.order_list_eq.mp equal) part, rfl⟩
  | set elements others =>
    obtain ⟨element, tag, body, rfl, tagged, numbered, rfl⟩ := writes
    exact ⟨element, tag, body, rfl, tagged,
      numbered.of_equal (Value.order_set_eq.mp equal) part, rfl⟩
  | map entries others =>
    obtain ⟨keyType, valueType, keyTag, valueTag, body, rfl, keyTagged, valueTagged, numbered,
      rfl⟩ := writes
    refine ⟨keyType, valueType, keyTag, valueTag, body, rfl, keyTagged, valueTagged,
      numbered.of_equal (Value.order_map_eq.mp equal) fun joined same => ?_, rfl⟩
    exact joined.imp (part · same.1) (part · same.2)
  | struct fields others =>
    obtain ⟨name, declared, pieces, rfl, named, each, rfl⟩ := writes
    have alike := inOrder_of_equal (Value.order_struct_eq.mp equal) declared.fields
    exact ⟨name, declared, pieces, rfl, named, Pairing.forall₂_compose each alike fieldAlike, rfl⟩
  | union id held other content =>
    obtain ⟨name, declared, piece, rfl, named, written, rfl⟩ := writes
    exact ⟨name, declared, piece, rfl, named,
      fieldAlike written (Value.order_union_eq.mp equal), rfl⟩
  | string text other =>
    have same : Utf8.encode text = Utf8.encode other := Std.LawfulEqOrd.eq_of_compare equal
    obtain ⟨rfl, written⟩ := writes
    exact ⟨rfl, same ▸ written⟩
  | bool | byte | i16 | i32 | i64 | double | binary | enum =>
    rw [← Std.LawfulEqOrd.eq_of_compare equal]
    exact writes

/-- What is sent for a value is written for every value equal to it. -/
theorem Sent.encodeValue_of_equal {condition : Value → Prop} {limit levels : Nat} {type : DataType}
    {bytes : Bytes} {value other : Value}
    (sent : Sent schema condition limit levels type bytes value)
    (equal : Value.order value other = .eq) : schema.encodeValue other type = .ok bytes := by
  induction levels generalizing type bytes value other with
  | zero => exact absurd sent Sent.not_zero
  | succ levels inductionHypothesis =>
    obtain ⟨behind, followed, writes, -⟩ := sent.layer
    exact Schema.encodeValue_eq_ok.mpr
      ⟨behind, followed, writes.of_equal equal inductionHypothesis⟩

end Equality

section Reading

variable {schema : Schema} {limits : Limits} {type : DataType} {value : Value}

/-- What is read from a slice is denoted by the bytes that were taken from it. -/
theorem exists_denotes_of_read {input : Bytes} {after : Source}
    (read : (Decoder.value schema limits type).run (Source.ofBytes input) = (.ok value, after)) :
    ∃ taken, taken.length = after.position ∧
      Denotes schema limits (limits.depth + 1) type taken value := by
  obtain ⟨taken, gives, denotes⟩ :=
    (Decoder.recognises_valueWithin schema limits _ type).sound read
  refine ⟨taken, ?_, denotes⟩
  rw [gives.position]
  exact (Nat.zero_add _).symm

/-- What was read is written again, in no more bytes. -/
theorem encode_of_denotes (linked : schema.Linked) {taken : Bytes}
    (denotes : Denotes schema limits (limits.depth + 1) type taken value) :
    schema.checkValue limits.depth value type 0 = .ok () ∧
      ∃ again, schema.encode limits type value = .ok again ∧ again.length ≤ taken.length := by
  have settled := denotes.settled linked
  have fits : schema.checkValue limits.depth value type 0 = .ok () := settled.fits rfl
  obtain ⟨again, written⟩ := settled.written
  refine ⟨fits, again, Schema.encode_eq_ok.mpr ⟨fits, written⟩, ?_⟩
  rw [← Schema.writtenLength_of_written written]
  exact settled.short

end Reading

/-- Everything that a codec reads is a valid value, and writing it gives a normal form: the value
passes the check with the same depth, it is written in no more bytes than were read, and these bytes
are read as an equal value, which is written as the same bytes.

Proof: what was read denotes a value that is settled: it fits, its parts are in order and within the
limits, and it is written in no more bytes. What is written is read back as an equal value, which
fits as well since it was read, and equal values are written alike. -/
theorem writing_what_was_read_is_normal {documents : List Document} {schema : Schema}
    {limits : Limits} {type : DataType} {input : Bytes} {value : Value} {after : Source}
    (linked : link documents = .ok schema)
    (read : (Decoder.value schema limits type).run (Source.ofBytes input) = (.ok value, after)) :
    schema.checkValue limits.depth value type 0 = .ok () ∧
      ∃ again, schema.encode limits type value = .ok again ∧ again.length ≤ after.position ∧
        ∃ result, schema.decode limits type again = .ok result ∧ (result == value) = true ∧
          schema.encode limits type result = .ok again := by
  have isLinked := linked_of_link linked
  obtain ⟨taken, length, denotes⟩ := exists_denotes_of_read read
  obtain ⟨fits, again, written, short⟩ := encode_of_denotes isLinked denotes
  have settled := denotes.settled isLinked
  have sent := sent_of_encode settled.ordered settled.within written
  have distinct : schema.DistinctIds := isLinked.distinctIds
  obtain ⟨result, isResult, equal⟩ := distinct.denotes sent
  obtain ⟨resultFits, -⟩ := encode_of_denotes isLinked isResult
  have rewritten := sent.encodeValue_of_equal (Std.OrientedCmp.eq_symm equal)
  refine ⟨fits, again, written, length ▸ short, result, Schema.decode_of_denotes isResult,
    Ordering.isEq_iff_eq_eq.mpr equal, ?_⟩
  exact Schema.encode_eq_ok.mpr ⟨resultFits, rewritten⟩

/-- A report as another writer may send it: the names twice, the first one given three times and out
of order, and a field that the report does not have. -/
def wastefulReportBytes : Bytes :=
  [14, 0, 2, 11, 0, 0, 0, 0, 2, 0, 9, 1, 8, 0, 1, 0, 0, 0, 2,
    14, 0, 2, 11, 0, 0, 0, 3, 0, 0, 0, 2, 97, 98, 0, 0, 0, 0, 0, 0, 0, 2, 97, 98, 0, 255]

/-- The wasteful report is read up to its stop and written again as the short one. -/
theorem wasteful_report_is_normalised :
    (Decoder.value reportSchema {} (.struct "report.Report")).run
        (Source.ofBytes wastefulReportBytes) = (.ok report, ⟨44, .slice [255]⟩) ∧
      ∃ again, reportSchema.encode {} (.struct "report.Report") report = .ok again ∧
        again.length ≤ 44 ∧
        ∃ result, reportSchema.decode {} (.struct "report.Report") again = .ok result ∧
          (result == report) = true ∧
          reportSchema.encode {} (.struct "report.Report") result = .ok again := by
  have read : (Decoder.value reportSchema {} (.struct "report.Report")).run
      (Source.ofBytes wastefulReportBytes) = (.ok report, ⟨44, .slice [255]⟩) := by rfl
  exact ⟨read, (writing_what_was_read_is_normal link_reportDocument read).2⟩

end SchemaCodec
