import SchemaCodec.Proofs.NormalForm
import SchemaCodec.Proofs.Skipping
import SchemaCodec.Proofs.SourceAgreement

/-!
# Skipping ends where reading ends

Typed reading and untyped skipping walk over the same format independently of each other. Wherever
reading a value of some type succeeds, skipping by the tag of that type succeeds as well, with the
same limits, and stops at the same byte. So where skipping fails, no type with that tag can be read.
-/

namespace SchemaCodec

open Decoder (Recognises)

/-- A source that fails at its end only: a slice, or a stream whose reader gives at least one byte
with every call and never fails. -/
def Source.Unfailing (source : Source) : Prop :=
  match source.feed with
  | .slice _ => True
  | .stream reader => (∀ calls, 1 ≤ reader.grant calls) ∧ reader.failure = none

/-- A source that fails at its end only offers all of its bytes. -/
theorem Source.Unfailing.offers {source : Source} (unfailing : source.Unfailing) :
    source.Offers source.unread := by
  obtain ⟨position, rest | reader⟩ := source
  · exact List.prefix_rfl
  · obtain ⟨gives, intact⟩ := unfailing
    exact ⟨List.prefix_rfl, gives, by simp [intact]⟩

/-- Two decoders stop at the same byte, if the bytes of the first form have the second one too. -/
theorem Decoder.Recognises.stops_alike {first : Decoder α} {second : Decoder β}
    {form : Bytes → α → Prop} {other : Bytes → β → Prop} (recognised : Recognises first form)
    (also : Recognises second other) {source after : Source} {value : α} {result : β}
    (unfailing : source.Unfailing) (read : first.run source = (.ok value, after))
    (same : ∀ taken, form taken value → other taken result) :
    ∃ behind, second.run source = (.ok result, behind) ∧
      behind.position = after.position ∧ behind.unread = after.unread := by
  obtain ⟨taken, gives, formed⟩ := recognised.sound read
  have front : taken <+: source.unread := ⟨after.unread, gives.unread.symm⟩
  obtain ⟨behind, readAlso, givesAlso⟩ :=
    also.complete (offers_in_part unfailing.offers front) (same taken formed)
  refine ⟨behind, readAlso, givesAlso.position.trans gives.position.symm, ?_⟩
  exact List.append_cancel_left (givesAlso.unread.symm.trans gives.unread)

/-- A type that has values has a tag. -/
theorem Denotes.exists_wireTag {schema : Schema} {limits : Limits} {levels : Nat} {type : DataType}
    {taken : Bytes} {value : Value} (denotes : Denotes schema limits levels type taken value) :
    ∃ tag, schema.wireTag type = .ok tag := by
  cases levels with
  | zero => exact denotes.elim
  | succ levels =>
    obtain ⟨behind, followed, layer⟩ := denotes
    cases behind with
    | typedef name => exact layer.elim
    | _ => exact ⟨_, wireTag_eq_ok.mpr ⟨_, followed, rfl⟩⟩

/-- Skipping agrees with reading. Where a value of a type is read, from a slice or a stream at any
position, skipping by the tag of the type with the same limits succeeds from the same position and
stops at the same byte; and where skipping by a tag fails, reading fails for every type that has
this tag.

Proof: what denotes a value of a type has the form that skipping by its tag recognises. -/
theorem skipping_ends_where_reading_ends (schema : Schema) (limits : Limits) {source : Source}
    (unfailing : source.Unfailing) :
    (∀ type value after, (Decoder.value schema limits type).run source = (.ok value, after) →
      ∃ tag, schema.wireTag type = .ok tag ∧
        ∃ behind, (Decoder.skipValue limits tag).run source = (.ok (), behind) ∧
          behind.position = after.position ∧ behind.unread = after.unread) ∧
    (∀ tag fault behind, (Decoder.skipValue limits tag).run source = (.error fault, behind) →
      ∀ type, schema.wireTag type = .ok tag →
        ∃ error after, (Decoder.value schema limits type).run source = (.error error, after)) := by
  have agree (type : DataType) (value : Value) (after : Source)
      (read : (Decoder.value schema limits type).run source = (.ok value, after)) :
      ∃ tag, schema.wireTag type = .ok tag ∧
        ∃ behind, (Decoder.skipValue limits tag).run source = (.ok (), behind) ∧
          behind.position = after.position ∧ behind.unread = after.unread := by
    have readers := Decoder.recognises_valueWithin schema limits (limits.depth + 1) type
    obtain ⟨_, -, denotes⟩ := readers.sound read
    obtain ⟨tag, tagged⟩ := denotes.exists_wireTag
    have skippers := Decoder.recognises_skipWithin limits (limits.depth + 1) tag
    exact ⟨tag, tagged, readers.stops_alike skippers unfailing read
      fun taken formed => formed.skippable tagged⟩
  refine ⟨agree, fun tag fault behind failed type tagged => ?_⟩
  rcases read : (Decoder.value schema limits type).run source with ⟨error | value, after⟩
  · exact ⟨error, after, rfl⟩
  · obtain ⟨other, alsoTagged, last, skipped, -⟩ := agree type value after read
    obtain rfl := Except.ok.inj (tagged.symm.trans alsoTagged)
    rw [failed] at skipped
    cases skipped

/-- The wasteful report comes byte by byte: reading it and skipping a struct both stop in front of
its last byte; no map can be skipped there, so none can be read.

Proof: reading is run, and so is skipping of the map, which fails. That skipping ends where reading
does, and that no map is read, then follows for this source, whose reader grants one byte at each
call. -/
theorem wasteful_report_is_skipped :
    let source := Source.ofReader (.bytewise wastefulReportBytes)
    ((Decoder.value reportSchema {} (.struct "report.Report")).run source).1 = .ok report ∧
      (∃ behind, (Decoder.skipValue {} .struct).run source = (.ok (), behind) ∧
        behind.position = 44 ∧ behind.unread = [255]) ∧
      ∃ error after, (Decoder.value reportSchema {} (.map .bool .bool)).run source =
        (.error error, after) := by
  intro source
  have unfailing : source.Unfailing := ⟨fun _ => Nat.le_refl 1, rfl⟩
  have agree := skipping_ends_where_reading_ends reportSchema {} unfailing
  have read : (Decoder.value reportSchema {} (.struct "report.Report")).run source =
      (.ok report, ⟨44, .stream { pending := [255], grant := fun _ => 1, calls := 44 }⟩) := by
    cbv
  refine ⟨by rw [read], ?_, ?_⟩
  · obtain ⟨tag, tagged, ended⟩ := agree.1 _ _ _ read
    obtain rfl : tag = .struct := (Except.ok.inj tagged).symm
    exact ended
  · have failed : (Decoder.skipValue {} .map).run source = (.error ⟨.invalidTypeTag 0, 1, []⟩,
        ⟨2, .stream
          { pending := wastefulReportBytes.drop 2, grant := fun _ => 1, calls := 2 }⟩) := by
      cbv
    exact agree.2 .map _ _ failed (.map .bool .bool) rfl

end SchemaCodec
