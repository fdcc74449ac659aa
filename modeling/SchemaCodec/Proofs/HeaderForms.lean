import SchemaCodec.Proofs.MessageEnvelopes

/-!
# Both forms of a message header

A header is written in its versioned form and read in that form and in the older one. The first word
tells the two apart: its sign bit is set by the version and never by the length of a name. Whichever
form a header was read in, it can be written, because its name was short enough to be read.
-/

namespace SchemaCodec

namespace MessageHeader

/-- The bytes of the older form: the name behind its length, the code of the type in a byte of its
own, and the sequence id. -/
def encodeUnversioned (header : MessageHeader) : Except EncodeError Bytes := do
  let name ← encodeLengthPrefixed (Utf8.encode header.name)
  .ok (name ++ header.type.code :: encodeInt32 header.sequenceId)

/-- Bytes are read as a header wherever they stand in front of any others, and exactly the others
are left: in a slice, and in a stream whose reader gives at least one byte with every call and never
fails. -/
structure ReadsBack (limits : Limits) (bytes : Bytes) (header : MessageHeader) : Prop where
  slice : ∀ start rest, read limits ⟨start, .slice (bytes ++ rest)⟩ =
    (.ok header, ⟨start + bytes.length, .slice rest⟩)
  stream : ∀ start rest (reader : Reader), reader.pending = bytes ++ rest →
    (∀ calls, 1 ≤ reader.grant calls) → reader.failure = none →
      ∃ after : Reader, after.pending = rest ∧ read limits ⟨start, .stream reader⟩ =
        (.ok header, ⟨start + bytes.length, .stream after⟩)

variable {limits : Limits} {header other : MessageHeader} {bytes older : Bytes}

/-- Bytes of either form are read back. -/
theorem Form.readsBack (formed : Form limits bytes (.ok header)) :
    ReadsBack limits bytes header where
  slice start rest := read_eq_ok.mpr ((recognises_decoder limits).run_slice formed start rest)
  stream start rest reader pending grants intact := by
    have delivers : reader.Delivers bytes :=
      ⟨pending ▸ List.prefix_append bytes rest, grants, by simp [intact]⟩
    have offers : Source.Offers ⟨start, .stream reader⟩ bytes := delivers
    obtain ⟨⟨place, feed⟩, streamed, gives⟩ := (recognises_decoder limits).complete offers formed
    obtain rfl : place = start + bytes.length := gives.position
    cases feed with
    | slice others => exact gives.feed.elim
    | stream last =>
      have behind : reader.Behind bytes last := gives.feed
      have split := behind.pending
      rw [pending] at split
      exact ⟨last, (List.append_cancel_left split).symm, read_eq_ok.mpr streamed⟩

/-- The length of a name is a first word without a sign. -/
theorem exists_word_of_unversioned (written : header.encodeUnversioned = .ok older) :
    ∃ first : Int32, 0 ≤ first.toInt ∧ first.toInt.toNat = (Utf8.encode header.name).length ∧
      older = encodeInt32 first ++ (Utf8.encode header.name ++
        header.type.code :: encodeInt32 header.sequenceId) := by
  obtain ⟨name, isName, same⟩ := Outcome.bind_eq_ok.mp written
  obtain rfl := Except.ok.inj same
  obtain ⟨small, rfl⟩ := Schema.encodeLengthPrefixed_eq_ok.mp isName
  obtain ⟨nonneg, number⟩ := toInt_ofNat_toNat small
  refine ⟨_, nonneg, number, ?_⟩
  rw [(encodeInt32_of_nonneg nonneg).1, number, List.append_assoc]

/-- A header in the older form is read, where the name is not too long for the reader. -/
theorem form_of_encodeUnversioned (written : header.encodeUnversioned = .ok older)
    (within : (Utf8.encode header.name).length ≤ limits.stringLength) :
    Form limits older (.ok header) := by
  obtain ⟨first, nonneg, number, rfl⟩ := exists_word_of_unversioned written
  refine ⟨first, _, rfl, ?_⟩
  rw [if_neg (Int.not_lt.mpr nonneg), UnversionedForm, number]
  refine ⟨within, _, _, rfl, rfl, ?_⟩
  simp only [NamedForm, Utf8.decode?_eq_some_iff.mpr rfl]
  refine ⟨header.type.code, _, rfl, ?_⟩
  simp only [SequenceForm, MessageType.ofCode?_code]
  exact ⟨header.sequenceId, rfl, rfl⟩

/-- The first word of a header in the versioned form has its sign bit set. -/
theorem exists_word_of_encode (written : header.encode = .ok bytes) :
    ∃ first : Int32, first.toInt < 0 ∧ ∃ tail, bytes = encodeInt32 first ++ tail := by
  obtain ⟨name, -, same⟩ := Outcome.bind_eq_ok.mp written
  obtain rfl := Except.ok.inj same
  obtain ⟨first, isWord, negative, -⟩ := header.type.exists_word
  exact ⟨first, negative, name ++ encodeInt32 header.sequenceId, by
    rw [isWord, List.append_assoc]⟩

/-- No bytes start with headers of both forms. -/
theorem forms_differ (written : header.encode = .ok bytes)
    (writtenOlder : other.encodeUnversioned = .ok older) (rest tail : Bytes) :
    bytes ++ rest ≠ older ++ tail := by
  obtain ⟨first, negative, behind, rfl⟩ := exists_word_of_encode written
  obtain ⟨second, nonneg, -, rfl⟩ := exists_word_of_unversioned writtenOlder
  intro same
  rw [List.append_assoc, List.append_assoc] at same
  have sizes : (encodeInt32 first).length = (encodeInt32 second).length := by
    rw [length_encodeInt32, length_encodeInt32]
  have words : first = second := by
    rw [← FixedWidth.int32.decode_encode first, (List.append_inj same sizes).1,
      FixedWidth.int32.decode_encode]
  rw [words] at negative
  exact Int.not_lt.mpr nonneg negative

/-- The end of a header keeps its name. -/
theorem SequenceForm.name_eq {code : UInt8} {name : String} {taken : Bytes}
    (formed : SequenceForm code name taken (.ok header)) : header.name = name := by
  unfold SequenceForm at formed
  split at formed
  · simp at formed
  · obtain ⟨sequenceId, -, same⟩ := formed
    rw [Except.ok.inj same]

/-- A header that is there has a text for a name. -/
theorem NamedForm.exists_name {taken : Bytes}
    {behind : String → Bytes → Except MessageError MessageHeader → Prop}
    (formed : NamedForm bytes behind taken (.ok header)) :
    ∃ name, bytes = Utf8.encode name ∧ behind name taken (.ok header) := by
  unfold NamedForm at formed
  split at formed
  · simp at formed
  · next name decoded => exact ⟨name, Utf8.decode?_eq_some_iff.mp decoded, formed⟩

/-- In either form the name is not too long for the reader, nor for a length prefix.

Proof: by the sign of the first word. The versioned form has a length prefix of its own in front of
the name, and in the older form the first word is this length and is not negative. -/
theorem Form.name_length_le (formed : Form limits bytes (.ok header)) :
    (Utf8.encode header.name).length ≤ limits.stringLength ∧
      (Utf8.encode header.name).length < 0x80000000 := by
  obtain ⟨first, tail, rfl, formed⟩ := formed
  by_cases negative : first.toInt < 0
  · rw [if_pos negative] at formed
    unfold VersionedForm at formed
    split at formed
    · simp at formed
    · obtain ⟨_, head, behind, -, ⟨within, small, -⟩, named⟩ := formed
      obtain ⟨name, rfl, ended⟩ := named.exists_name
      rw [ended.name_eq]
      exact ⟨within, small⟩
  · rw [if_neg negative] at formed
    obtain ⟨within, _, behind, -, length, named⟩ := formed
    obtain ⟨name, rfl, code, last, -, ended⟩ := named.exists_name
    rw [ended.name_eq, length]
    exact ⟨within, (encodeInt32_of_nonneg (Int.not_lt.mp negative)).2⟩

/-- A header with a name short enough for a length prefix is written in either form. -/
theorem exists_encode (small : (Utf8.encode header.name).length < 0x80000000) :
    (∃ bytes, header.encode = .ok bytes) ∧ ∃ older, header.encodeUnversioned = .ok older := by
  have isName := Schema.encodeLengthPrefixed_eq_ok.mpr ⟨small, rfl⟩
  exact ⟨⟨_, Outcome.bind_eq_ok.mpr ⟨_, isName, rfl⟩⟩,
    ⟨_, Outcome.bind_eq_ok.mpr ⟨_, isName, rfl⟩⟩⟩

end MessageHeader

open MessageHeader

/-- Both forms of a header read back to the same header. If its name is not too long for the reader,
whatever is written of it, in the versioned form or in the older one, is read back from slices and
streams alike, whatever follows; and if the name is short enough for a length prefix, both forms are
written. No bytes start with a header of both forms. Whatever header is read, from any source and in
either form, is written, and what is written is read back.

Proof: each form has a shape of its own, which is recognised as it is written. The first word is
negative in one of them and a length in the other one, so no bytes have both. What was read has a
name within the limits, so it can be written. -/
theorem both_header_forms_read_back (limits : Limits) :
    (∀ header : MessageHeader, (Utf8.encode header.name).length ≤ limits.stringLength →
      ∀ bytes, header.encode = .ok bytes ∨ header.encodeUnversioned = .ok bytes →
        ReadsBack limits bytes header) ∧
    (∀ header : MessageHeader, (Utf8.encode header.name).length < 0x80000000 →
      (∃ bytes, header.encode = .ok bytes) ∧ ∃ older, header.encodeUnversioned = .ok older) ∧
    (∀ (header other : MessageHeader) (bytes older rest tail : Bytes), header.encode = .ok bytes →
      other.encodeUnversioned = .ok older → bytes ++ rest ≠ older ++ tail) ∧
    (∀ source header after, MessageHeader.read limits source = (.ok header, after) →
      ∃ bytes, header.encode = .ok bytes ∧ ReadsBack limits bytes header) := by
  refine ⟨fun header within bytes written => ?_, fun header small => exists_encode small,
    fun header other bytes older rest tail written writtenOlder =>
      forms_differ written writtenOlder rest tail, fun source header after read => ?_⟩
  · rcases written with versioned | unversioned
    · exact (form_of_encode versioned within).readsBack
    · exact (form_of_encodeUnversioned unversioned within).readsBack
  · obtain ⟨taken, -, formed⟩ := (recognises_decoder limits).sound (read_eq_ok.mp read)
    obtain ⟨within, small⟩ := formed.name_length_le
    obtain ⟨⟨bytes, written⟩, -⟩ := exists_encode small
    exact ⟨bytes, written, (form_of_encode written within).readsBack⟩

/-- The header of a oneway message. -/
def pingHeader : MessageHeader := ⟨"ping", .oneway, -2⟩

/-- The header of a oneway message in the versioned form and in the older one: each of them reads
back, they differ, and what is read of the older one is written in the versioned form. -/
theorem ping_reads_back : ∃ bytes older,
    pingHeader.encode = .ok bytes ∧ pingHeader.encodeUnversioned = .ok older ∧
      bytes = [0x80, 1, 0, 4, 0, 0, 0, 4, 112, 105, 110, 103, 255, 255, 255, 254] ∧
      older = [0, 0, 0, 4, 112, 105, 110, 103, 4, 255, 255, 255, 254] ∧
      ReadsBack {} bytes pingHeader ∧ ReadsBack {} older pingHeader ∧
      (∀ rest tail, bytes ++ rest ≠ older ++ tail) ∧
      (MessageHeader.read {} (.ofBytes older)).1 = .ok pingHeader ∧
        ∃ again, pingHeader.encode = .ok again ∧ ReadsBack {} again pingHeader := by
  obtain ⟨readsBack, -, differ, again⟩ := both_header_forms_read_back {}
  have written : pingHeader.encode =
      .ok [0x80, 1, 0, 4, 0, 0, 0, 4, 112, 105, 110, 103, 255, 255, 255, 254] := by rfl
  have writtenOlder : pingHeader.encodeUnversioned =
      .ok [0, 0, 0, 4, 112, 105, 110, 103, 4, 255, 255, 255, 254] := by rfl
  have short : (Utf8.encode pingHeader.name).length ≤ ({} : Limits).stringLength := by decide
  have read : MessageHeader.read {}
      (.ofBytes [0, 0, 0, 4, 112, 105, 110, 103, 4, 255, 255, 255, 254]) =
        (.ok pingHeader, ⟨13, .slice []⟩) := by rfl
  exact ⟨_, _, written, writtenOlder, rfl, rfl, readsBack _ short _ (.inl written),
    readsBack _ short _ (.inr writtenOlder), fun rest tail => differ _ _ _ _ rest tail written
      writtenOlder, by rw [read], again _ _ _ read⟩

end SchemaCodec
