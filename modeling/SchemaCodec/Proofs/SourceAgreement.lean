import SchemaCodec.Proofs.MessageFormat

/-!
# Slices and streams agree

A slice checks every length and count against the bytes that are left before it reads; a stream
knows no such number, reads payloads and skips in blocks, and takes whatever its reader grants. None
of this decides what is read: a decoder that recognises a form succeeds on a slice exactly when it
succeeds on a stream of the same bytes, with the same result, and stops at the same place. Only the
errors of the two may differ.
-/

namespace SchemaCodec

open Decoder (Recognises)

/-- A reading function succeeds on both sources or on neither, and two successes have the same
result, position and unread bytes. -/
structure SameSuccess (read : Source → Except ε α × Source) (first second : Source) : Prop where
  succeeds : (∃ result after, read first = (.ok result, after)) ↔
    ∃ result after, read second = (.ok result, after)
  same : ∀ {result other after behind}, read first = (.ok result, after) →
    read second = (.ok other, behind) →
      result = other ∧ after.position = behind.position ∧ after.unread = behind.unread

/-- Two sources stand at the same place before the same bytes, and offer all of them. -/
structure SameBytes (first second : Source) : Prop where
  position : first.position = second.position
  unread : first.unread = second.unread
  offersFirst : first.Offers first.unread
  offersSecond : second.Offers second.unread

/-- What a source offers as a whole it offers in part. -/
theorem offers_in_part {source : Source} {taken : Bytes} (offers : source.Offers source.unread)
    (front : taken <+: source.unread) : source.Offers taken := by
  obtain ⟨rest, split⟩ := front
  rw [← split] at offers
  exact offers.front

/-- The two sides may be exchanged. -/
theorem SameBytes.symm {first second : Source} (same : SameBytes first second) :
    SameBytes second first :=
  ⟨same.position.symm, same.unread.symm, same.offersSecond, same.offersFirst⟩

/-- What is recognised on one source is recognised on the other, with the same result, and leaves
the other one at the same place. -/
theorem Decoder.Recognises.transfer {decoder : Decoder α} {form : Bytes → α → Prop}
    (recognised : Recognises decoder form) {first second after : Source} {result : α}
    (sameBytes : SameBytes first second) (read : decoder.run first = (.ok result, after)) :
    ∃ behind, decoder.run second = (.ok result, behind) ∧
      after.position = behind.position ∧ after.unread = behind.unread := by
  obtain ⟨taken, gives, formed⟩ := recognised.sound read
  have front : taken <+: second.unread := by
    rw [← sameBytes.unread, gives.unread]
    exact List.prefix_append taken after.unread
  obtain ⟨behind, readBehind, givesBehind⟩ :=
    recognised.complete (offers_in_part sameBytes.offersSecond front) formed
  refine ⟨behind, readBehind, ?_, ?_⟩
  · rw [gives.position, givesBehind.position, sameBytes.position]
  · have split := sameBytes.unread
    rw [gives.unread, givesBehind.unread] at split
    exact List.append_cancel_left split

/-- Sameness of success follows from either side: each success of one source is had on the other,
at the same place. -/
theorem SameSuccess.of_transfer {read : Source → Except ε α × Source} {first second : Source}
    (forth : ∀ result after, read first = (.ok result, after) →
      ∃ behind, read second = (.ok result, behind) ∧
        after.position = behind.position ∧ after.unread = behind.unread)
    (back : ∀ result after, read second = (.ok result, after) →
      ∃ behind, read first = (.ok result, behind)) : SameSuccess read first second := by
  constructor
  · constructor
    · rintro ⟨result, after, success⟩
      obtain ⟨behind, successBehind, -⟩ := forth result after success
      exact ⟨result, behind, successBehind⟩
    · rintro ⟨result, after, success⟩
      obtain ⟨behind, successBehind⟩ := back result after success
      exact ⟨result, behind, successBehind⟩
  · intro result other after behind success successOther
    obtain ⟨last, successLast, position, unread⟩ := forth result after success
    simp only [successLast, Prod.mk.injEq, Except.ok.injEq] at successOther
    obtain ⟨rfl, rfl⟩ := successOther
    exact ⟨rfl, position, unread⟩

/-- A decoder that recognises a form has the same success on two sources of the same bytes. -/
theorem Decoder.Recognises.sameSuccess {decoder : Decoder α} {form : Bytes → α → Prop}
    (recognised : Recognises decoder form) {first second : Source}
    (sameBytes : SameBytes first second) : SameSuccess decoder.run first second := by
  apply SameSuccess.of_transfer
  · intro result after read
    exact recognised.transfer sameBytes read
  · intro result after read
    obtain ⟨behind, readBehind, -⟩ := recognised.transfer sameBytes.symm read
    exact ⟨behind, readBehind⟩

/-- A header is read from a source exactly when its decoder gives one. -/
theorem MessageHeader.read_eq_ok {limits : Limits} {source after : Source}
    {header : MessageHeader} :
    MessageHeader.read limits source = (.ok header, after) ↔
      (MessageHeader.decoder limits).run source = (.ok (.ok header), after) := by
  unfold MessageHeader.read
  rcases (MessageHeader.decoder limits).run source with ⟨_ | outcome, behind⟩ <;> simp

/-- Reading a header has the same success on two sources of the same bytes: a header that is there
and wrong fails on both. -/
theorem MessageHeader.read_sameSuccess (limits : Limits) {first second : Source}
    (sameBytes : SameBytes first second) :
    SameSuccess (MessageHeader.read limits) first second := by
  have recognised := MessageHeader.recognises_decoder limits
  apply SameSuccess.of_transfer
  · intro header after read
    obtain ⟨behind, readBehind, samePlace⟩ :=
      recognised.transfer sameBytes (MessageHeader.read_eq_ok.mp read)
    exact ⟨behind, MessageHeader.read_eq_ok.mpr readBehind, samePlace⟩
  · intro header after read
    obtain ⟨behind, readBehind, -⟩ :=
      recognised.transfer sameBytes.symm (MessageHeader.read_eq_ok.mp read)
    exact ⟨behind, MessageHeader.read_eq_ok.mpr readBehind⟩

/-- A slice, and a stream whose reader gives at least one byte with every call and never fails, have
the same success: reading a value of any type of any schema, stepping over a value of any kind,
reading a message header and reading an application exception.

Proof: each of the four readers recognises a form, and no form tells apart a slice from a stream. -/
theorem slice_and_stream_agree (limits : Limits) (position : Nat) (reader : Reader)
    (gives : ∀ calls, 1 ≤ reader.grant calls) (unfailing : reader.failure = none) :
    let slice : Source := ⟨position, .slice reader.pending⟩
    let stream : Source := ⟨position, .stream reader⟩
    (∀ schema type, SameSuccess (Decoder.value schema limits type).run slice stream) ∧
    (∀ tag, SameSuccess (Decoder.skipValue limits tag).run slice stream) ∧
    SameSuccess (MessageHeader.read limits) slice stream ∧
    SameSuccess (ApplicationException.decoder limits).run slice stream := by
  intro slice stream
  have delivered : reader.Delivers reader.pending :=
    ⟨List.prefix_rfl, gives, by simp [unfailing]⟩
  have sameBytes : SameBytes slice stream := ⟨rfl, rfl, List.prefix_rfl, delivered⟩
  refine ⟨fun schema type => ?_, fun tag => ?_, ?_, ?_⟩
  · exact (Decoder.recognises_valueWithin schema limits _ type).sameSuccess sameBytes
  · exact (Decoder.recognises_skipWithin limits _ tag).sameSuccess sameBytes
  · exact MessageHeader.read_sameSuccess limits sameBytes
  · exact (ApplicationException.recognises_decoder limits).sameSuccess sameBytes

/-- A reader that gives its bytes one by one. -/
def Reader.bytewise (bytes : Bytes) : Reader := { pending := bytes, grant := fun _ => 1 }

/-- A list of two bytes is read one byte at a time as it is read from the slice. -/
theorem bytewise_stream_agrees :
    ((Decoder.value {} {} (.list .byte)).run
      (.ofBytes [3, 0, 0, 0, 2, 5, 250, 9])).1.toOption.isSome ∧
      SameSuccess (Decoder.value {} {} (.list .byte)).run (.ofBytes [3, 0, 0, 0, 2, 5, 250, 9])
        (.ofReader (.bytewise [3, 0, 0, 0, 2, 5, 250, 9])) := by
  refine ⟨by decide, ?_⟩
  have agree := slice_and_stream_agree {} 0 (.bytewise [3, 0, 0, 0, 2, 5, 250, 9])
    (fun _ => Nat.le_refl 1) rfl
  exact agree.1 {} (.list .byte)

end SchemaCodec
