import SchemaCodec.Proofs.Ascending
import SchemaCodec.Proofs.Pairing
import SchemaCodec.Proofs.Writing

/-!
# How many bytes are written

What was read from some bytes is written again in no more of them. The count goes item by item: each
item that is kept is written in no more bytes than it was read from, and what is dropped or replaced
on the way only makes the whole shorter.
-/

namespace SchemaCodec

/-- Where each item has a piece of its size, there are pieces for all items of the size of all. -/
theorem exists_pieces {form : Bytes → α → Prop} (size : α → Nat) {items : List α}
    (each : ∀ item ∈ items, ∃ piece, form piece item ∧ piece.length ≤ size item) :
    ∃ pieces, List.Forall₂ form pieces items ∧
      pieces.flatten.length ≤ (items.map size).sum := by
  induction items with
  | nil => exact ⟨[], .nil, Nat.le_refl 0⟩
  | cons item rest inductionHypothesis =>
    obtain ⟨here, there⟩ := List.forall_mem_cons.mp each
    obtain ⟨piece, formed, short⟩ := here
    obtain ⟨pieces, allFormed, allShort⟩ := inductionHypothesis there
    refine ⟨piece :: pieces, .cons formed allFormed, ?_⟩
    rw [List.flatten_cons, List.length_append, List.map_cons, List.sum_cons]
    omega

/-- Items that are no larger than their pieces are no larger than all pieces together. -/
theorem sum_le_of_pieces {size : α → Nat} {pieces : List Bytes} {items : List α}
    (each : List.Forall₂ (fun piece item => size item ≤ piece.length) pieces items) :
    (items.map size).sum ≤ pieces.flatten.length := by
  induction each with
  | nil => exact Nat.le_refl 0
  | cons here _ inductionHypothesis =>
    rw [List.flatten_cons, List.length_append, List.map_cons, List.sum_cons]
    omega

/-- What a field sequence keeps is no larger than the sequence without its stop, when each field
that is kept is no larger than its header and its body.

Proof: by induction on the fields. Each of them takes three bytes for its header and those of its
body, which is what bounds a field that is kept; one that is not kept takes its bytes for nothing.
The stop is one byte more. -/
theorem sum_kept_lt {form : WireTag → Int16 → Bytes → Option α → Prop} {size : Int16 × α → Nat}
    {taken : Bytes} {kept : List (Int16 × α)} (formed : Decoder.FieldSequence form taken kept)
    (each : ∀ {tag id body value}, form tag id body (some value) →
      size (id, value) ≤ 3 + body.length) :
    (kept.map size).sum < taken.length := by
  obtain ⟨row, formedRow, rfl, rfl⟩ := formed
  rw [List.length_append, List.length_singleton]
  induction row with
  | nil => exact Nat.zero_lt_one
  | cons field rest inductionHypothesis =>
    obtain ⟨here, there⟩ := List.forall_mem_cons.mp formedRow
    have shorter := inductionHypothesis there
    have fieldLength : field.bytes.length = 3 + field.body.length := by
      simp only [Decoder.WireField.bytes, List.length_cons, List.length_append,
        length_encodeInt16]
      omega
    rw [List.flatMap_cons, List.length_append, List.filterMap_cons]
    cases isFound : field.found with
    | none =>
      simp only [Decoder.WireField.kept, isFound, Option.map_none]
      omega
    | some value =>
      have bounded := each (isFound ▸ here.2)
      simp only [Decoder.WireField.kept, isFound, Option.map_some, List.map_cons, List.sum_cons]
      omega

/-- Every field that a sequence keeps stands in it. -/
theorem exists_of_mem_kept {form : WireTag → Int16 → Bytes → Option α → Prop} {taken : Bytes}
    {kept : List (Int16 × α)} (formed : Decoder.FieldSequence form taken kept)
    {field : Int16 × α} (member : field ∈ kept) :
    ∃ tag body, form tag field.1 body (some field.2) := by
  obtain ⟨row, each, -, rfl⟩ := formed
  obtain ⟨origin, present, isKept⟩ := List.mem_filterMap.mp member
  obtain ⟨value, isFound, rfl⟩ := Option.map_eq_some_iff.mp isKept
  exact ⟨origin.tag, origin.body, isFound ▸ (each origin present).2⟩

namespace Schema

variable {schema : Schema}

/-- The number of bytes that are written for a value. -/
def writtenLength (schema : Schema) (type : DataType) (value : Value) : Nat :=
  match schema.encodeValue value type with
  | .ok bytes => bytes.length
  | .error _ => 0

/-- The number of bytes that are written for a value is the length of what is written. -/
theorem writtenLength_of_written {type : DataType} {value : Value} {bytes : Bytes}
    (written : schema.encodeValue value type = .ok bytes) :
    schema.writtenLength type value = bytes.length := by
  rw [writtenLength, written]

/-- The number of bytes that are written for a declared field, header included. -/
def fieldLength (schema : Schema) (declared : List Field) (field : Int16 × Value) : Nat :=
  match fieldById? declared field.1 with
  | some found => 3 + schema.writtenLength found.type field.2
  | none => 0

/-- The number of bytes that are written for a field is the length of what is written. -/
theorem fieldLength_of_written {declared : List Field} {field : Int16 × Value} {piece : Bytes}
    (written : FieldWritten schema declared
      (fun type bytes value => schema.encodeValue value type = .ok bytes) piece field) :
    piece.length = schema.fieldLength declared field := by
  obtain ⟨found, tag, body, known, -, bodyWritten, rfl⟩ := written
  simp only [fieldLength, known, writtenLength_of_written bodyWritten, List.length_cons,
    List.length_append, length_encodeInt16]
  omega

end Schema

end SchemaCodec
