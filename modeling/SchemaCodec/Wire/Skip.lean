import SchemaCodec.Wire.Decoder

/-!
# Skipping a value by its tag

The format tells enough to step over a value without its type: lengths, counts and nested field
headers are read, and all else is passed over. Depth and limits are those of typed reading.
-/

namespace SchemaCodec

namespace Decoder

/-- Step over a value, at most that many levels deep. The tag alone tells how: numbers by their
size, strings by their length, and containers item by item, since only the items tell where they
end. No text is checked and nothing is compared, so more is stepped over than can be read. -/
def skipWithin (limits : Limits) : Nat → WireTag → Decoder Unit
  | 0, _ => do
    let start ← position
    fail (.depthLimitExceeded limits.depth) start
  | levels + 1, tag =>
    match tag with
    | .stop => do
      let start ← position
      fail (.invalidTypeTag WireTag.stop.code) start
    | .bool | .byte => skipBytes 1
    | .i16 => skipBytes 2
    | .i32 => skipBytes 4
    | .i64 | .double => skipBytes 8
    | .string => do
      let size ← length limits
      skipBytes size
    | .struct => do
      let _ ← fields (α := Unit) fun header => do
        within (.field header.id) (skipWithin limits levels header.tag)
        pure none
    | .map => do
      let keyTag ← elementTag
      let valueTag ← elementTag
      let size ← count limits (keyTag.leastSize + valueTag.leastSize)
      let _ ← collect (fun position => do
        within (.key position) (skipWithin limits levels keyTag)
        within (.value position) (skipWithin limits levels valueTag)) size 0
    | .set | .list => do
      let tag ← elementTag
      let size ← count limits tag.leastSize
      let _ ← collect (fun position =>
        within (.index position) (skipWithin limits levels tag)) size 0

/-- Step over a value of a kind, with all the levels that the limits allow. -/
def skipValue (limits : Limits) (tag : WireTag) : Decoder Unit :=
  skipWithin limits (limits.depth + 1) tag

end Decoder

/-- The number of bytes that the value of a kind at the start of some bytes occupies. -/
def extent (bytes : Bytes) (tag : WireTag) : Except DecodeError Nat :=
  match (Decoder.skipValue {} tag).run (Source.ofBytes bytes) with
  | (.ok (), source) => .ok source.position
  | (.error error, _) => .error error

end SchemaCodec
