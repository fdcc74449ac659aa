import SchemaCodec.Bytes.BigEndian

/-!
# Sinks

Encoded bytes are written to a sink, which takes them in pieces of its own choosing and may refuse
them. It is called until all of them are taken. What it took before a refusal stays with it.
-/

namespace SchemaCodec

/-- A sink: the bytes that it took and the way in which it takes more. -/
structure Sink where
  held : Bytes := []
  /-- The most bytes that a call takes, by the number of calls before it; none is no bound. -/
  grant : Nat → Option Nat := fun _ => none
  calls : Nat := 0
  /-- The bytes that it takes in all, and the text with which it refuses more. -/
  capacity : Option (Nat × String) := none

namespace Sink

/-- One call: the number of bytes that are taken from the front, or the text of a refusal. -/
def call (sink : Sink) (bytes : Bytes) : Except String Nat × Sink :=
  let wanted := match sink.grant sink.calls with
    | none => bytes.length
    | some most => min most bytes.length
  let after (count : Nat) : Except String Nat × Sink :=
    (.ok count, { sink with held := sink.held ++ bytes.take count, calls := sink.calls + 1 })
  match sink.capacity with
  | none => after wanted
  | some (limit, reason) =>
    if limit ≤ sink.held.length then (.error reason, { sink with calls := sink.calls + 1 })
    else after (min wanted (limit - sink.held.length))

/-- The text for a sink that takes nothing of what it is offered. -/
def stalled : String := "failed to write whole buffer"

/-- Call until all bytes are taken, for at most that many calls. Nothing is called for once nothing
is left, and a call that takes nothing ends in failure. -/
def drain : Nat → Bytes → Sink → Except String Unit × Sink
  | 0, bytes, sink => (if bytes = [] then .ok () else .error stalled, sink)
  | calls + 1, bytes, sink =>
    if bytes = [] then (.ok (), sink)
    else
      match sink.call bytes with
      | (.error reason, sink) => (.error reason, sink)
      | (.ok 0, sink) => (.error stalled, sink)
      | (.ok (count + 1), sink) => drain calls (bytes.drop (count + 1)) sink

/-- Write all bytes. Every successful call takes at least one of them. -/
def write (sink : Sink) (bytes : Bytes) : Except String Unit × Sink :=
  drain bytes.length bytes sink

end Sink

end SchemaCodec
