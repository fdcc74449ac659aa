import SchemaCodec.Proofs.InsertionOrder
import SchemaCodec.Proofs.NormalForm

/-!
# The bytes of a value are its canonical form

Two values of one type are equal exactly when they are written as the same bytes. Equal values are
written alike because the order of values arranges sets and maps in one way and labels are not
written. Different values are written differently because a reader that accepts the lengths in both
of them restores each from its bytes.
-/

namespace SchemaCodec

open Value (LengthWithin)

/-- Some length is enough for every part of a value, and every greater one is as well.

Proof: for a single part its own length is enough. For several parts, by induction, the larger of
two such lengths is. -/
theorem Value.exists_within (value : Value) (depth : Nat) :
    ∃ length, ∀ longer, length ≤ longer → value.Within ⟨depth, longer, longer⟩ := by
  have enough (part : Value) :
      ∃ length, ∀ longer, length ≤ longer → LengthWithin ⟨depth, longer, longer⟩ part := by
    cases part <;> first | exact ⟨_, fun _ bound => bound⟩ | exact ⟨0, fun _ _ => trivial⟩
  have together (parts : List Value) : ∃ length, ∀ longer, length ≤ longer →
      ∀ part ∈ parts, LengthWithin ⟨depth, longer, longer⟩ part := by
    induction parts with
    | nil => exact ⟨0, fun _ _ _ member => nomatch member⟩
    | cons part rest inductionHypothesis =>
      obtain ⟨length, here⟩ := enough part
      obtain ⟨other, behind⟩ := inductionHypothesis
      refine ⟨max length other, fun longer bound => List.forall_mem_cons.mpr ⟨?_, ?_⟩⟩
      · exact here longer (Nat.le_trans (Nat.le_max_left ..) bound)
      · exact behind longer (Nat.le_trans (Nat.le_max_right ..) bound)
  exact together value.parts

variable {schema : Schema} {limits : Limits} {type : DataType} {value other : Value}
  {bytes : Bytes}

/-- Equal values are written as the same bytes. -/
theorem encode_of_order_eq {again : Bytes} (ordered : value.Ordered)
    (equal : value.order other = .eq) (written : schema.encode limits type value = .ok bytes)
    (alsoWritten : schema.encode limits type other = .ok again) : bytes = again := by
  have everywhere : value.Throughout fun _ => True := fun _ _ => trivial
  have sent := sent_of_encode ordered everywhere written
  have same := sent.encodeValue_of_equal equal
  rw [(Schema.encode_eq_ok.mp alsoWritten).2] at same
  exact (Except.ok.inj same).symm

/-- Values that are written as the same bytes are equal: these bytes are read as something equal to
both of them, once the reader accepts all lengths. -/
theorem order_eq_of_encode (distinct : schema.DistinctIds) (ordered : value.Ordered)
    (alsoOrdered : other.Ordered) (written : schema.encode limits type value = .ok bytes)
    (alsoWritten : schema.encode limits type other = .ok bytes) : value.order other = .eq := by
  obtain ⟨length, within⟩ := value.exists_within limits.depth
  obtain ⟨another, alsoWithin⟩ := other.exists_within limits.depth
  let ready : Limits := ⟨limits.depth, max length another, max length another⟩
  have restores {sentValue : Value} (ordered : sentValue.Ordered) (within : sentValue.Within ready)
      (written : schema.encode limits type sentValue = .ok bytes) :
      ∃ restored, schema.decode ready type bytes = .ok restored ∧
        restored.order sentValue = .eq := by
    have sent : Sent schema (Value.LengthWithin ready) limits.depth (limits.depth + 1) type bytes
        sentValue := sent_of_encode ordered within written
    obtain ⟨restored, denotes, same⟩ := distinct.denotes sent
    exact ⟨restored, Schema.decode_of_denotes denotes, same⟩
  obtain ⟨restored, read, same⟩ := restores ordered (within _ (Nat.le_max_left ..)) written
  obtain ⟨restoredToo, alsoRead, alsoSame⟩ :=
    restores alsoOrdered (alsoWithin _ (Nat.le_max_right ..)) alsoWritten
  rw [read] at alsoRead
  obtain rfl := Except.ok.inj alsoRead
  exact Std.TransCmp.eq_trans (Std.OrientedCmp.eq_symm same) alsoSame

/-- Writing is canonical. Of the values that a linked schema writes for a type, two are equal
exactly when their bytes are the same. So neither the order in which elements, entries and fields
were inserted nor the labels of enums show in the bytes, and different values never share theirs.

Proof: equal values are written alike, by induction on them. Conversely the bytes are read back as
something equal to each of both values, and equality is transitive. Values that are built alike are
equal. -/
theorem equal_iff_written_alike {documents : List Document}
    (linked : link documents = .ok schema) (limits : Limits) (type : DataType) :
    (∀ value other bytes again, value.Ordered → other.Ordered →
      schema.encode limits type value = .ok bytes → schema.encode limits type other = .ok again →
        ((value == other) = true ↔ bytes = again)) ∧
    (∀ value other bytes again, value.BuiltAlike other → value.Ordered →
      schema.encode limits type value = .ok bytes → schema.encode limits type other = .ok again →
        bytes = again) := by
  refine ⟨fun value other bytes again ordered alsoOrdered written alsoWritten => ?_,
    fun value other bytes again alike ordered written alsoWritten =>
      encode_of_order_eq ordered alike.order_eq written alsoWritten⟩
  rw [Value.beq_iff_order_eq]
  constructor
  · intro equal
    exact encode_of_order_eq ordered equal written alsoWritten
  · rintro rfl
    exact order_eq_of_encode (linked_of_link linked).distinctIds ordered alsoOrdered written
      alsoWritten

/-- A document with the weather of a day. -/
def weatherDocument : Document where
  path := "weather.thrift"
  module := "weather"
  definitions := [
    .enum { name := "Sky", members := [{ name := "CLEAR", number := some 1 }, { name := "RAIN" }] },
    .struct { name := "Day", fields := [
      { id := 1, name := "degrees", type := .set (.base .double) },
      { id := 2, name := "hours", type := .map (.named "Sky" {}) (.base .i32) }] }]

/-- The schema of the weather. -/
def weatherSchema : Schema :=
  .ofEntries [
    .enum ⟨"weather.Sky", [⟨"CLEAR", 1⟩, ⟨"RAIN", 2⟩]⟩,
    .struct ⟨"weather.Day", false, [
      { id := 1, name := "degrees", type := .set .double, requiredness := .unspecified },
      { id := 2, name := "hours", type := .map (.enum "weather.Sky") .i32,
        requiredness := .unspecified }]⟩] [] []

/-- A day with a zero of a sign, told in one way. -/
def day (zero : UInt64) : Value :=
  .struct [(1, .set [.double ⟨zero⟩, .double ⟨0x7FF8000000000001⟩]),
    (2, .map [(.enum 1 none, .i32 8), (.enum 2 (some "RAIN"), .i32 16)])]

/-- The same day as `day 0`, told in other words: the fields, the degrees and the hours in another
order, one of the degrees twice, and the sky named otherwise. -/
def dayRetold : Value :=
  .struct (Value.Fields.ofList [
    (2, .map (Value.entriesOf [(.enum 2 none, .i32 16), (.enum 1 (some "CLEAR"), .i32 8)])),
    (1, .set (Value.elementsOf
      [.double ⟨0x7FF8000000000001⟩, .double ⟨0⟩, .double ⟨0x7FF8000000000001⟩]))])

/-- The day has the same bytes however it is told, and other bytes once the sign of its zero
changes. -/
theorem day_is_written_canonically :
    (∃ bytes, weatherSchema.encode {} (.struct "weather.Day") (day 0) = .ok bytes ∧
      weatherSchema.encode {} (.struct "weather.Day") dayRetold = .ok bytes) ∧
    weatherSchema.encode {} (.struct "weather.Day") (day 0) ≠
      weatherSchema.encode {} (.struct "weather.Day") (day 0x8000000000000000) := by
  have linked : link [weatherDocument] = .ok weatherSchema := by cbv
  obtain ⟨canonical, -⟩ := equal_iff_written_alike linked {} (.struct "weather.Day")
  have ordered (zero : UInt64) (known : zero = 0 ∨ zero = 0x8000000000000000) :
      (day zero).Ordered := by
    rcases known with rfl | rfl <;> decide
  obtain ⟨bytes, written⟩ :
      ∃ bytes, weatherSchema.encode {} (.struct "weather.Day") (day 0) = .ok bytes := ⟨_, rfl⟩
  obtain ⟨others, othersWritten⟩ : ∃ bytes, weatherSchema.encode {} (.struct "weather.Day")
      (day 0x8000000000000000) = .ok bytes := ⟨_, rfl⟩
  obtain ⟨again, writtenAgain⟩ :
      ∃ bytes, weatherSchema.encode {} (.struct "weather.Day") dayRetold = .ok bytes := ⟨_, rfl⟩
  constructor
  · have same := (canonical _ _ _ _ (ordered 0 (.inl rfl)) (by decide) written writtenAgain).mp
      (by decide)
    exact ⟨bytes, written, same ▸ writtenAgain⟩
  · intro same
    have alike : bytes = others := Except.ok.inj (written.symm.trans (same.trans othersWritten))
    have equal := (canonical _ _ _ _ (ordered 0 (.inl rfl)) (ordered _ (.inr rfl)) written
      othersWritten).mpr alike
    exact absurd equal (by decide)

end SchemaCodec
