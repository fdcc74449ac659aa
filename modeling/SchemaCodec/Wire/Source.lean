import SchemaCodec.Bytes.BigEndian

/-!
# Byte sources

Encoded values are read from a slice, whose length is known, or from a stream, which gives its bytes
in pieces of its own choosing and may fail. Both count the bytes that were read in full. A read that
fails leaves a slice where it was; on a stream the bytes already given are gone, while the position
stays.

A call of a stream that is interrupted is no failure of the read: it is made again, with the same
bytes wanted. So a read of a stream that is interrupted ever again does not end. It is modelled by a
patience, the number of times that a call is made again before one stops watching: what holds for
every patience holds of the read that is never given up. A call that is answered in the end, however
often it was interrupted before, counts as one call.
-/

namespace SchemaCodec

/-- The kinds of failures of a stream, as far as a read tells them apart. -/
inductive StreamErrorKind where
  /-- The stream says itself that its input ended too early. -/
  | unexpectedEnd
  /-- The call was interrupted and is to be made again. -/
  | interrupted
  | other
deriving DecidableEq, Repr

/-- A failure of a stream, with a text of its own. -/
structure StreamError where
  reason : String
  kind : StreamErrorKind := .other
deriving DecidableEq, Repr

/-- A failure of which only the text is told is of no kind of its own. -/
instance : Coe String StreamError := ⟨fun reason => { reason }⟩

/-- Why a read fails: the input is at its end before the wanted bytes are there, or a call of the
stream failed for a reason that does not make it worth calling again. -/
inductive ReadFailure where
  | endOfInput
  /-- The stream itself failed. Where the failure is an interruption, the read has not ended: the
  patience with it has. -/
  | broken (error : StreamError)
deriving DecidableEq, Repr

/-- A stream: the bytes that it has still to give and the way in which it gives them. -/
structure Reader where
  pending : Bytes
  /-- The most bytes that a call gives, by the number of calls before it. -/
  grant : Nat → Nat
  calls : Nat := 0
  /-- After so many further bytes every call fails in this way. -/
  failure : Option (Nat × StreamError) := none
  /-- The number of times that an interrupted call is made again. -/
  patience : Nat := 0

namespace Reader

/-- One call: some of the wanted bytes, none at the end of the data. A failure that is due comes in
place of bytes, never with some of them, and it comes again at every later call. Calls are counted,
since how much a stream gives may depend on how often it was asked. -/
def call (reader : Reader) (wanted : Nat) : Except StreamError Bytes × Reader :=
  let given := min wanted (reader.grant reader.calls)
  let after (count : Nat) (failure : Option (Nat × StreamError)) :
      Except StreamError Bytes × Reader :=
    (.ok (reader.pending.take count),
      { reader with pending := reader.pending.drop count, calls := reader.calls + 1, failure })
  match reader.failure with
  | none => after given none
  | some (0, error) => (.error error, { reader with calls := reader.calls + 1 })
  | some (left, error) =>
    let count := min (min given left) reader.pending.length
    after count (some (left - count, error))

/-- Make a call, and make it again whenever it was interrupted, for at most so many times. -/
def callAgain : Nat → Nat → Reader → Except StreamError Bytes × Reader
  | 0, wanted, reader => reader.call wanted
  | retries + 1, wanted, reader =>
    match reader.call wanted with
    | (.ok bytes, reader) => (.ok bytes, reader)
    | (.error error, reader) =>
      if error.kind = .interrupted then callAgain retries wanted reader else (.error error, reader)

/-- The answer to a call, which is made again as often as the patience allows. -/
def answer (reader : Reader) (wanted : Nat) : Except StreamError Bytes × Reader :=
  callAgain reader.patience wanted reader

/-- Call until the wanted bytes are complete, for at most that many answers. Nothing is called for
once nothing is wanted, and an empty answer ends the input. -/
def fill : Nat → Nat → Reader → Except ReadFailure Bytes × Reader
  | 0, wanted, reader => (if wanted = 0 then .ok [] else .error .endOfInput, reader)
  | answers + 1, wanted, reader =>
    if wanted = 0 then (.ok [], reader)
    else
      match reader.answer wanted with
      | (.error error, reader) => (.error (.broken error), reader)
      | (.ok [], reader) => (.error .endOfInput, reader)
      | (.ok bytes, reader) =>
        match fill answers (wanted - bytes.length) reader with
        | (.error failure, reader) => (.error failure, reader)
        | (.ok rest, reader) => (.ok (bytes ++ rest), reader)

/-- The wanted bytes. Every answer gives at least one of them, so as many answers as bytes are
wanted are enough, and their number never ends a read by itself. -/
def readExact (reader : Reader) (wanted : Nat) : Except ReadFailure Bytes × Reader :=
  fill wanted wanted reader

end Reader

/-- Where the bytes of a source come from. -/
inductive Feed where
  | slice (rest : Bytes)
  | stream (reader : Reader)

/-- A source: the number of bytes read in full, and where the others come from. -/
structure Source where
  position : Nat := 0
  feed : Feed

namespace Source

/-- A source over bytes at hand. -/
def ofBytes (bytes : Bytes) : Source := { feed := .slice bytes }

/-- A source over a stream. -/
def ofReader (reader : Reader) : Source := { feed := .stream reader }

/-- The number of bytes left, where it is known. -/
def remaining? (source : Source) : Option Nat :=
  match source.feed with
  | .slice rest => some rest.length
  | .stream _ => none

/-- The bytes that were not given out yet, known or not. -/
def unread (source : Source) : Bytes :=
  match source.feed with
  | .slice rest => rest
  | .stream reader => reader.pending

/-- Exactly the wanted bytes, or a failure. The position moves only with a read that is complete. A
read that fails leaves a slice with its bytes, while a stream has lost those that it had given. -/
def readExact (source : Source) (wanted : Nat) : Except ReadFailure Bytes × Source :=
  match source.feed with
  | .slice rest =>
    if wanted ≤ rest.length then
      (.ok (rest.take wanted), ⟨source.position + wanted, .slice (rest.drop wanted)⟩)
    else (.error .endOfInput, source)
  | .stream reader =>
    match reader.readExact wanted with
    | (.ok bytes, reader) => (.ok bytes, ⟨source.position + wanted, .stream reader⟩)
    | (.error failure, reader) => (.error failure, ⟨source.position, .stream reader⟩)

/-- The largest piece that is skipped in one read of a stream. -/
def skipBlock : Nat := 512

/-- Read past bytes of a stream, block by block, for at most that many blocks. Every whole block
counts as read, so a failure leaves the position behind the last block that was complete. -/
def skipBlocks : Nat → Nat → Source → Except ReadFailure Unit × Source
  | 0, _, source => (.ok (), source)
  | blocks + 1, count, source =>
    if count = 0 then (.ok (), source)
    else
      match source.readExact (min count skipBlock) with
      | (.error failure, source) => (.error failure, source)
      | (.ok _, source) => skipBlocks blocks (count - skipBlock) source

/-- Move past bytes without keeping them. On a slice this is one step, checked against the bytes at
hand; a stream has to give the bytes, whose number may be far larger than what it has. -/
def skip (source : Source) (count : Nat) : Except ReadFailure Unit × Source :=
  match source.feed with
  | .slice rest =>
    if count ≤ rest.length then
      (.ok (), ⟨source.position + count, .slice (rest.drop count)⟩)
    else (.error .endOfInput, source)
  | .stream _ => source.skipBlocks (count / skipBlock + 1) count

end Source

end SchemaCodec
