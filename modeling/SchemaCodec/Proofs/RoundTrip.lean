import Mathlib
import SchemaCodec.Proofs.LinkedRegistry
import SchemaCodec.Proofs.Refusal

/-!
# What is written is read back

A codec that writes a value reads it back from in front of any other bytes, provided that it accepts
the lengths in the value; otherwise it stops at a length. The values are ordered, as those are that
are built by insertion: the elements of a set, the keys of a map and the ids of a struct ascend.
-/

namespace SchemaCodec

variable {schema : Schema} {limits : Limits} {type : DataType} {bytes : Bytes} {value : Value}

/-- Writing succeeds for a value that fits its type, with the bytes of the value. -/
theorem Schema.encode_eq_ok : schema.encode limits type value = .ok bytes ↔
    schema.checkValue limits.depth value type 0 = .ok () ∧
      schema.encodeValue value type = .ok bytes := by
  unfold Schema.encode
  rw [Outcome.bind_eq_ok]
  simp only [Outcome.mapError_eq_ok]
  constructor
  · rintro ⟨_, fits, written⟩
    exact ⟨fits, written⟩
  · rintro ⟨fits, written⟩
    exact ⟨(), fits, written⟩

/-- A linked schema has no struct with a repeated id. -/
theorem Schema.Linked.distinctIds (linked : schema.Linked) : schema.DistinctIds :=
  fun named => (linked.struct named).distinct

/-- What is written for an ordered value is sent to a reader of the same depth. -/
theorem sent_of_encode {condition : Value → Prop} (ordered : value.Ordered)
    (holds : value.Throughout condition) (written : schema.encode limits type value = .ok bytes) :
    Sent schema condition limits.depth (limits.depth + 1) type bytes value := by
  obtain ⟨fits, written⟩ := Schema.encode_eq_ok.mp written
  exact ⟨⟨0, by omega, fits⟩, written, ordered, holds⟩

/-- Bytes that denote a value are read as that value, whatever follows them. -/
theorem Decoder.run_value_of_denotes
    (denotes : Denotes schema limits (limits.depth + 1) type bytes value) (rest : Bytes) :
    (Decoder.value schema limits type).run (Source.ofBytes (bytes ++ rest)) =
      (.ok value, ⟨bytes.length, .slice rest⟩) := by
  have read := (Decoder.recognises_valueWithin schema limits _ type).run_slice denotes 0 rest
  rwa [Nat.zero_add] at read

/-- A value that is read from all of some bytes is their value. -/
theorem Schema.decode_of_denotes
    (denotes : Denotes schema limits (limits.depth + 1) type bytes value) :
    schema.decode limits type bytes = .ok value :=
  (Decoder.recognises_valueWithin schema limits _ type).runOnAll_eq_ok.mpr denotes

/-- Bytes that are refused have no value. -/
theorem Schema.decode_of_refuses
    (refuses : Decoder.Refuses (Decoder.value schema limits type) bytes) :
    ∃ length limit offset path, schema.decode limits type bytes =
      .error ⟨.negativeOrExcessiveLength length limit, offset, path⟩ := by
  obtain ⟨length, limit, offset, path, after, refused⟩ := refuses 0 []
  rw [List.append_nil] at refused
  refine ⟨length, limit, offset, path, ?_⟩
  unfold Schema.decode Decoder.runOnAll Source.ofBytes
  rw [refused]

/-- The round trip of the wire format. What a linked schema writes for an ordered value is read back
as an equal value, from in front of any other bytes and without touching these, when all lengths in
the value are within the limits; and reading it stops at a length when one of them is not.

Proof: what is written for a value denotes an equal value, and a reader gives what its bytes denote.
If a length is not within the limits, the first part that has such a length is refused by the
reader, and what is in front of it is read. -/
theorem read_back_what_is_written {documents : List Document}
    (linked : link documents = .ok schema) (ordered : value.Ordered)
    (written : schema.encode limits type value = .ok bytes) :
    (value.Within limits → ∃ result, (result == value) = true ∧
      (∀ rest, (Decoder.value schema limits type).run (Source.ofBytes (bytes ++ rest)) =
        (.ok result, ⟨bytes.length, .slice rest⟩)) ∧
      schema.decode limits type bytes = .ok result) ∧
    (¬value.Within limits → ∃ length limit offset path, schema.decode limits type bytes =
      .error ⟨.negativeOrExcessiveLength length limit, offset, path⟩) := by
  have distinct : schema.DistinctIds := (linked_of_link linked).distinctIds
  constructor
  · intro within
    obtain ⟨result, denotes, same⟩ := distinct.denotes (sent_of_encode ordered within written)
    refine ⟨result, ?_, Decoder.run_value_of_denotes denotes, Schema.decode_of_denotes denotes⟩
    exact Ordering.isEq_iff_eq_eq.mpr same
  · intro long
    have everywhere : value.Throughout fun _ => True := fun _ _ => trivial
    exact Schema.decode_of_refuses
      (refuses_long distinct (sent_of_encode ordered everywhere written) long)

/-- A document with a struct of a number and, at will, of names. -/
def reportDocument : Document where
  path := "report.thrift"
  module := "report"
  definitions := [
    .typedef { name := "Name", target := .base .string },
    .struct { name := "Report", fields := [
      { id := 1, name := "total", requiredness := .required, type := .base .i32 },
      { id := 2, name := "names", type := .set (.named "Name" {}) }] }]

/-- The qualified name of the type of names in the report. -/
def reportName : String := "report.Name"

/-- The schema of the report. -/
def reportSchema : Schema :=
  .ofEntries [
    .typedef { name := reportName, target := .string },
    .struct ⟨"report.Report", false, [
      { id := 1, name := "total", type := .i32, requiredness := .required },
      { id := 2, name := "names", type := .set (.typedef reportName),
        requiredness := .unspecified }]⟩] [] []

/-- The document links to this schema. -/
theorem link_reportDocument : link [reportDocument] = .ok reportSchema := by
  -- The equations of the linker's state by which this is evaluated come with the whole of Mathlib.
  cbv

/-- A report of two names. -/
def report : Value := .struct [(1, .i32 2), (2, .set [.string "", .string "ab"])]

/-- The bytes of the report of two names. -/
def reportBytes : Bytes :=
  [8, 0, 1, 0, 0, 0, 2, 14, 0, 2, 11, 0, 0, 0, 2, 0, 0, 0, 0, 0, 0, 0, 2, 97, 98, 0]

/-- The report is written and read back, and is refused where only one name is accepted. -/
theorem report_is_read_back :
    (∃ result, (result == report) = true ∧
      reportSchema.decode {} (.struct "report.Report") reportBytes = .ok result) ∧
    ∃ length limit offset path,
      reportSchema.decode { containerLength := 1 } (.struct "report.Report") reportBytes =
        .error ⟨.negativeOrExcessiveLength length limit, offset, path⟩ := by
  have ordered : report.Ordered := by decide
  have written (limits : Limits) (deep : limits.depth = 64) :
      reportSchema.encode limits (.struct "report.Report") report = .ok reportBytes := by
    rw [Schema.encode, deep]
    rfl
  constructor
  · obtain ⟨result, same, -, decoded⟩ :=
      (read_back_what_is_written link_reportDocument ordered (written {} rfl)).1 (by decide)
    exact ⟨result, same, decoded⟩
  · exact (read_back_what_is_written link_reportDocument ordered (written _ rfl)).2 (by decide)

end SchemaCodec
