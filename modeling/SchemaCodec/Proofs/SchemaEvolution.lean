import SchemaCodec.Proofs.RoundTrip

/-!
# Reading what another schema wrote

A reader need not know all fields that a writer writes, nor a writer all fields that a reader knows.
As long as unions, enums and typedefs are the same, common fields have one type, and nothing is
required of the writer that it does not promise, the reader reads what the writer wrote as that part
of it which it knows.
-/

namespace SchemaCodec

/-- The fields of one struct on both sides: common ids have one type, and what is required of the
written ones is required where they are written. -/
structure FieldsCompatible (written known : List Field) : Prop where
  types : ∀ before ∈ written, ∀ after ∈ known, before.id = after.id → after.type = before.type
  required : ∀ after ∈ known, after.requiredness = .required →
    ∃ before ∈ written, before.id = after.id ∧ before.requiredness = .required

/-- A reader's schema is compatible with a writer's: unions, enums and typedefs are the same, and
every struct is there with compatible fields. -/
structure Schema.CompatibleWith (reader writer : Schema) : Prop where
  union : ∀ {name declared}, reader.unionType name = .ok declared →
    writer.unionType name = .ok declared
  enum : ∀ {name declared}, reader.enumType name = .ok declared →
    writer.enumType name = .ok declared
  typedef : ∀ {name target}, reader.typedefTarget name = .ok target →
    writer.typedefTarget name = .ok target
  struct : ∀ {name known}, reader.structType name = .ok known →
    ∃ written, writer.structType name = .ok written ∧
      FieldsCompatible written.fields known.fields

section Compatibility

variable {reader writer : Schema} {limits : Limits} {limit : Nat}

/-- The reader sees the same type behind all typedefs as the writer does. -/
theorem Schema.CompatibleWith.canonical (compatible : reader.CompatibleWith writer)
    (linked : reader.Linked) {type behind : DataType} (closed : reader.Closed type)
    (followed : writer.canonical type = .ok behind) :
    reader.canonical type = .ok behind ∧ reader.Closed behind := by
  obtain ⟨known, seen, closedBehind⟩ := linked.canonical closed
  have alsoFollowed : writer.canonicalWithin type (reader.types.length + 1) type = .ok known :=
    Schema.canonicalWithin_of_targets compatible.typedef (Nat.le_refl _) seen
  obtain rfl := Schema.canonicalWithin_unique followed alsoFollowed
  exact ⟨seen, closedBehind⟩

/-- The reader understands the fields of a struct: a field that it does not declare was written for
some type, and can be stepped over by the tag of that type. -/
theorem FieldsCompatible.understood {written known : List Field}
    (compatible : FieldsCompatible written known)
    (wellFormed : FieldsWellFormed reader.Closed known) (distinct : (written.map (·.id)).Nodup)
    (distinctIds : writer.DistinctIds) :
    FieldsUnderstood writer limits limit reader.Closed written known where
  distinct := distinct
  types := by
    intro id before after isWritten isKnown
    obtain ⟨writtenMember, writtenId⟩ := mem_of_fieldById? isWritten
    obtain ⟨knownMember, knownId⟩ := mem_of_fieldById? isKnown
    exact ⟨compatible.types before writtenMember after knownMember (writtenId.trans knownId.symm),
      wellFormed.types after knownMember⟩
  required := compatible.required
  dropped := by
    intro id before _ _ levels tag bytes value tagged sent
    obtain ⟨restored, denotes, -⟩ := distinctIds.denotes sent
    exact denotes.skippable tagged

/-- A reader understands a writer with whose schema its own is compatible.

Proof: what the reader declares is in its linked schema. A struct or an enum of this name is in the
schema of the writer by compatibility, and a union is the same in both, so the alternative that was
written is one that the reader knows. -/
theorem Schema.CompatibleWith.understands (compatible : reader.CompatibleWith writer)
    (readerLinked : reader.Linked) (writerLinked : writer.Linked) :
    Understands reader writer limits limit reader.Closed where
  canonical := compatible.canonical readerLinked
  list closed := closed
  set closed := closed
  map closed := closed
  struct := by
    intro name written closed named
    obtain ⟨known, isKnown⟩ := Schema.exists_structType closed
    obtain ⟨other, alsoNamed, fields⟩ := compatible.struct isKnown
    obtain rfl := Except.ok.inj (named.symm.trans alsoNamed)
    exact ⟨known, isKnown, fields.understood (readerLinked.struct isKnown)
      (writerLinked.struct named).distinct writerLinked.distinctIds⟩
  union := by
    intro name written id before closed named isWritten
    obtain ⟨known, isKnown⟩ := Schema.exists_unionType closed
    obtain rfl := Except.ok.inj (named.symm.trans (compatible.union isKnown))
    have types := (readerLinked.union isKnown).types before (mem_of_fieldById? isWritten).1
    exact ⟨written, before, isKnown, isWritten, rfl, types⟩
  enum := by
    intro name written closed _
    exact Schema.exists_enumType closed

end Compatibility

/-- Schema evolution. What a writer writes for an ordered value, a compatible reader that follows at
least as many levels and accepts its lengths reads as what its own schema leaves of the value, from
in front of any other bytes and without touching these.

Proof: a compatible reader understands the writer: where the writer declares something in a type,
the reader declares it alike, or skips it. So what is written denotes, for the reader, a value equal
to the projection, by induction on the levels. -/
theorem compatible_reader_reads_projection {readerDocuments writerDocuments : List Document}
    {reader writer : Schema} {readerLimits writerLimits : Limits} {type : DataType} {bytes : Bytes}
    {value : Value} (readerLinked : link readerDocuments = .ok reader)
    (writerLinked : link writerDocuments = .ok writer) (compatible : reader.CompatibleWith writer)
    (closed : reader.Closed type) (deep : writerLimits.depth ≤ readerLimits.depth)
    (ordered : value.Ordered) (within : value.Within readerLimits)
    (written : writer.encode writerLimits type value = .ok bytes) :
    ∃ result, (result == reader.project value type) = true ∧
      ∀ rest, (Decoder.value reader readerLimits type).run (Source.ofBytes (bytes ++ rest)) =
        (.ok result, ⟨bytes.length, .slice rest⟩) := by
  obtain ⟨fits, isWritten⟩ := Schema.encode_eq_ok.mp written
  have sent : Sent writer (Value.LengthWithin readerLimits) writerLimits.depth
      (readerLimits.depth + 1) type bytes value :=
    ⟨⟨0, by omega, fits⟩, isWritten, ordered, within⟩
  have understands :
      Understands reader writer readerLimits writerLimits.depth reader.Closed :=
    compatible.understands (linked_of_link readerLinked) (linked_of_link writerLinked)
  obtain ⟨result, denotes, equal⟩ := understands.arrives closed sent
  exact ⟨result, Ordering.isEq_iff_eq_eq.mpr equal, Decoder.run_value_of_denotes denotes⟩

/-- Standings of players: an entry has a player and points. -/
def standingsWriterDocument : Document where
  path := "game.thrift"
  module := "game"
  definitions := [
    .struct { name := "Entry", fields := [
      { id := 1, name := "player", requiredness := .required, type := .base .string },
      { id := 2, name := "points", type := .base .i16 }] },
    .struct { name := "Standings", fields := [
      { id := 1, name := "round", requiredness := .required, type := .base .i32 },
      { id := 2, name := "entries", type := .set (.named "Entry" {}) }] }]

/-- The same standings for a reader that asks neither for rounds nor for points. -/
def standingsReaderDocument : Document where
  path := "game.thrift"
  module := "game"
  definitions := [
    .struct { name := "Entry", fields := [
      { id := 1, name := "player", requiredness := .required, type := .base .string }] },
    .struct { name := "Standings", fields := [
      { id := 2, name := "entries", type := .set (.named "Entry" {}) }] }]

/-- The writer's schema of the standings. -/
def standingsWriter : Schema :=
  .ofEntries [
    .struct ⟨"game.Entry", false, [
      { id := 1, name := "player", type := .string, requiredness := .required },
      { id := 2, name := "points", type := .i16, requiredness := .unspecified }]⟩,
    .struct ⟨"game.Standings", false, [
      { id := 1, name := "round", type := .i32, requiredness := .required },
      { id := 2, name := "entries", type := .set (.struct "game.Entry"),
        requiredness := .unspecified }]⟩] [] []

/-- The reader's schema of the standings. -/
def standingsReader : Schema :=
  .ofEntries [
    .struct ⟨"game.Entry", false, [
      { id := 1, name := "player", type := .string, requiredness := .required }]⟩,
    .struct ⟨"game.Standings", false, [
      { id := 2, name := "entries", type := .set (.struct "game.Entry"),
        requiredness := .unspecified }]⟩] [] []

/-- Standings in which one player has two entries. -/
def standings : Value :=
  .struct [(1, .i32 3), (2, .set [
    .struct [(1, .string "a"), (2, .i16 5)], .struct [(1, .string "a"), (2, .i16 9)],
    .struct [(1, .string "b")]])]

/-- What the reader knows of the standings: without their points, two entries are one. -/
def standingsRead : Value :=
  .struct [(2, .set [.struct [(1, .string "a")], .struct [(1, .string "b")]])]

/-- The document of the reader links. -/
theorem link_standingsReaderDocument :
    link [standingsReaderDocument] = .ok standingsReader := by cbv

/-- The reader's schema of the standings is compatible with the writer's.

Proof: neither schema has unions, enums or typedefs. Each struct of the reader is looked up in the
schema of the writer, and its fields are compared one by one with those found there. -/
theorem standings_compatible : standingsReader.CompatibleWith standingsWriter where
  union := by
    intro name declared found
    have member := Schema.mem_of_declaration? (Schema.unionType_eq_ok.mp found)
    simp [standingsReader] at member
  enum := by
    intro name declared found
    have member := Schema.mem_of_declaration? (Schema.enumType_eq_ok.mp found)
    simp [standingsReader] at member
  typedef := by
    intro name target found
    obtain ⟨declared, isDeclared, -⟩ := Schema.typedefTarget_eq_ok.mp found
    have member := Schema.mem_of_declaration? isDeclared
    simp [standingsReader] at member
  struct := by
    intro name known found
    have indexed := (linked_of_link link_standingsReaderDocument).indexed
    obtain ⟨member, rfl⟩ :=
      indexed.declaration?_eq_some.mp (Schema.structType_eq_ok.mp found)
    simp only [standingsReader, Schema.types_ofEntries, List.mem_cons,
      TypeDeclaration.struct.injEq, List.not_mem_nil, or_false] at member
    rcases member with rfl | rfl
    · exact ⟨_, rfl, by decide, by decide⟩
    · exact ⟨_, rfl, by decide, by decide⟩

/-- The standings are read without rounds and points, from in front of another byte. -/
theorem standings_are_read :
    standingsReader.project standings (.struct "game.Standings") = standingsRead ∧
      ∃ bytes result, standingsWriter.encode {} (.struct "game.Standings") standings = .ok bytes ∧
        (result == standingsRead) = true ∧
        (Decoder.value standingsReader {} (.struct "game.Standings")).run
          (Source.ofBytes (bytes ++ [7])) = (.ok result, ⟨bytes.length, .slice [7]⟩) := by
  have readerLinked := link_standingsReaderDocument
  have writerLinked : link [standingsWriterDocument] = .ok standingsWriter := by cbv
  have closed : standingsReader.Closed (.struct "game.Standings") := by rfl
  have seen : standingsReader.project standings (.struct "game.Standings") = standingsRead := by
    rfl
  have written : ∃ bytes,
      standingsWriter.encode {} (.struct "game.Standings") standings = .ok bytes := ⟨_, rfl⟩
  obtain ⟨bytes, written⟩ := written
  obtain ⟨result, same, reads⟩ := compatible_reader_reads_projection readerLinked writerLinked
    standings_compatible closed (Nat.le_refl _) (by decide) (by decide) written
  exact ⟨seen, bytes, result, written, seen ▸ same, reads [7]⟩

end SchemaCodec
