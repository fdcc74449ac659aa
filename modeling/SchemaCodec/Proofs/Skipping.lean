import SchemaCodec.Proofs.Pairing
import SchemaCodec.Proofs.WireFormat

/-!
# Skipping agrees with the types

Whatever denotes a value of some type can be stepped over by the tag of that type alone, at the same
number of levels and within the same limits. So a reader steps over a field that it does not declare
just as a reader that declares it reads it.
-/

namespace SchemaCodec

variable {schema : Schema} {limits : Limits} {below : DataType → Bytes → Value → Prop}
  {passed : WireTag → Bytes → Prop}

/-- No type has the tag that ends a field sequence. -/
theorem ne_stop_of_wireTag {type : DataType} {tag : WireTag}
    (known : schema.wireTag type = .ok tag) : tag ≠ .stop := by
  obtain ⟨behind, -, tagged⟩ := wireTag_eq_ok.mp known
  rintro rfl
  cases behind <;> simp [DataType.wireTag?] at tagged

/-- What is counted is counted whatever else is known of the items. -/
theorem Counted.forget {form : Bytes → α → Prop} (other : Bytes → Prop) {taken : Bytes}
    {items : List α} (counted : Counted limits form taken items)
    (weaken : ∀ bytes item, form bytes item → other bytes) :
    ∃ units : List Unit, Counted limits (fun bytes _ => other bytes) taken units := by
  obtain ⟨within, small, pieces, each, rfl⟩ := counted
  refine ⟨items.map fun _ => (), ?_, ?_, pieces, ?_, ?_⟩
  · rwa [List.length_map]
  · rwa [List.length_map]
  · rw [List.forall₂_map_right_iff]
    exact each.imp weaken
  · rw [List.length_map]

/-- The fields of a struct or union can be stepped over one by one: a declared field by the tag of
its type, any other one as before.

Proof: the same fields with nothing kept of them. One that is declared has the tag of its type and a
value of it behind, which can be passed over; any other was passed over already. -/
theorem FieldSequence.skippable {declared : List Field} {taken : Bytes}
    {read : List (Int16 × Value)}
    (formed : Decoder.FieldSequence (FieldForm schema declared below passed) taken read)
    (step : ∀ {type tag bytes value}, schema.wireTag type = .ok tag → below type bytes value →
      passed tag bytes) : ∃ kept : List (Int16 × Unit), Decoder.FieldSequence
        (fun tag _ body found => passed tag body ∧ found = none) taken kept := by
  obtain ⟨row, each, rfl, -⟩ := formed
  refine ⟨[], row.map fun field => ⟨field.tag, field.id, field.body, none⟩, ?_, ?_, ?_⟩
  · intro field member
    obtain ⟨origin, present, rfl⟩ := List.mem_map.mp member
    obtain ⟨counted, formed⟩ := each origin present
    refine ⟨counted, ?_, rfl⟩
    unfold FieldForm at formed
    cases known : fieldById? declared origin.id with
    | none =>
      simp only [known] at formed
      exact formed.1
    | some found =>
      simp only [known] at formed
      obtain ⟨tagged, value, denotes, -⟩ := formed
      exact step tagged denotes
  · rw [List.flatMap_map]
    rfl
  · simp [Decoder.WireField.kept]

/-- What denotes a value can be stepped over, when this is so one level below.

Proof: by the type. Scalars take as many bytes as are passed over for their tag, and what is
announced in front of a container is the same for both; its parts can be passed over as is assumed
one level below. -/
theorem DenotesLayer.skippable {type : DataType} {tag : WireTag} {taken : Bytes} {value : Value}
    (denotes : DenotesLayer schema limits below passed type taken value)
    (tagged : type.wireTag? = some tag)
    (step : ∀ {type tag bytes value}, schema.wireTag type = .ok tag → below type bytes value →
      passed tag bytes) : SkippableLayer limits passed tag taken := by
  cases type <;> simp only [DenotesLayer] at denotes <;>
    simp only [DataType.wireTag?, Option.some.injEq] at tagged <;> subst tagged <;>
    simp only [SkippableLayer]
  case bool =>
    obtain ⟨code, rfl, -⟩ := denotes
    rfl
  case byte | i16 | i32 | i64 | double =>
    obtain ⟨number, rfl, -⟩ := denotes
    simp
  case string | binary =>
    obtain ⟨bytes, lengthPrefixed, -⟩ := denotes
    exact ⟨bytes, lengthPrefixed⟩
  case list | set =>
    obtain ⟨items, ⟨elementTag, body, tagged, rfl, counted⟩, -⟩ := denotes
    obtain ⟨units, counted⟩ := counted.forget (passed elementTag)
      fun bytes item denotes => step tagged denotes
    exact ⟨elementTag, body, units, ne_stop_of_wireTag tagged, rfl, counted⟩
  case map =>
    obtain ⟨entries, ⟨keyTag, valueTag, body, keyTagged, valueTagged, rfl, counted⟩, -⟩ := denotes
    obtain ⟨units, counted⟩ := counted.forget (Joined (passed keyTag) (passed valueTag))
      fun bytes entry joined => by
        obtain ⟨head, tail, rfl, keyDenotes, valueDenotes⟩ := joined
        exact ⟨head, tail, rfl, step keyTagged keyDenotes, step valueTagged valueDenotes⟩
    exact ⟨keyTag, valueTag, body, units, ne_stop_of_wireTag keyTagged,
      ne_stop_of_wireTag valueTagged, rfl, counted⟩
  case struct | union =>
    obtain ⟨_, -, read, formed, -⟩ := denotes
    exact FieldSequence.skippable formed step
  case enum =>
    obtain ⟨_, -, number, rfl, -⟩ := denotes
    simp

/-- What denotes a value of a type can be stepped over by the tag of that type. -/
theorem Denotes.skippable {levels : Nat} {type : DataType} {tag : WireTag} {taken : Bytes}
    {value : Value} (denotes : Denotes schema limits levels type taken value)
    (known : schema.wireTag type = .ok tag) : Skippable limits levels tag taken := by
  induction levels generalizing type tag taken value with
  | zero => exact False.elim denotes
  | succ levels inductionHypothesis =>
    obtain ⟨behind, followed, layer⟩ := denotes
    obtain ⟨other, same, tagged⟩ := wireTag_eq_ok.mp known
    obtain rfl := Except.ok.inj (followed.symm.trans same)
    exact layer.skippable tagged fun tagged denotes => inductionHypothesis denotes tagged

end SchemaCodec
