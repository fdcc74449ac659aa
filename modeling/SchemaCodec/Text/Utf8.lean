import SchemaCodec.Bytes.BigEndian

/-!
# Text as UTF-8

Every text has exactly one encoding, and only that encoding reads back as the text: overlong forms,
surrogates and code points past the last one are refused. The main statement is
`decode?_eq_some_iff`.

Bytes that are no text can still be shown: what belongs to no character is replaced, one replacement
for each byte that starts no character and for each character that breaks off. So different bytes
may be shown alike, while a text is shown as itself.
-/

namespace SchemaCodec.Utf8

/-- The UTF-8 encoding of a text. -/
def encode (text : String) : Bytes := text.toByteArray.data.toList

/-- The text that a byte string encodes, if it is valid UTF-8. -/
def decode? (bytes : Bytes) : Option String := String.fromUTF8? ⟨bytes.toArray⟩

/-- Decoding accepts exactly the encodings. -/
theorem decode?_eq_some_iff {bytes : Bytes} {text : String} :
    decode? bytes = some text ↔ bytes = encode text := by
  unfold decode? encode String.fromUTF8?
  constructor
  · intro decoded
    split at decoded
    · obtain rfl := Option.some.inj decoded
      simp [String.fromUTF8]
    · contradiction
  · rintro rfl
    have restored : (⟨text.toByteArray.data.toList.toArray⟩ : ByteArray) = text.toByteArray := by
      simp
    rw [restored]
    have valid : text.toByteArray.IsValidUTF8 := text.isValidUTF8
    simp [String.fromUTF8, valid]

/-- Texts with the same encoding are one. -/
theorem eq_of_encode_eq {text other : String} (same : encode text = encode other) :
    text = other := by
  have decoded : decode? (encode text) = some other := decode?_eq_some_iff.mpr same
  rw [decode?_eq_some_iff.mpr rfl] at decoded
  exact Option.some.inj decoded

/-- How a character goes on behind its first byte: how many bytes follow, and in which bounds the
next one lies. There is nothing to go on where no character starts with the byte. -/
def lead? (byte : UInt8) : Option (Nat × UInt8 × UInt8) :=
  if byte < 0x80 then some (0, 0x80, 0xBF)
  else if byte < 0xC2 then none
  else if byte < 0xE0 then some (1, 0x80, 0xBF)
  else if byte = 0xE0 then some (2, 0xA0, 0xBF)
  else if byte = 0xED then some (2, 0x80, 0x9F)
  else if byte < 0xF0 then some (2, 0x80, 0xBF)
  else if byte = 0xF0 then some (3, 0x90, 0xBF)
  else if byte < 0xF4 then some (3, 0x80, 0xBF)
  else if byte = 0xF4 then some (3, 0x80, 0x8F)
  else none

/-- The number of bytes at the front of some others that are one character, or the longest start of
one, or a single byte that starts none. -/
def partSize : Bytes → Nat
  | [] => 0
  | [_] => 1
  | byte :: next :: rest =>
    match lead? byte with
    | some (following + 1, least, most) =>
      if least ≤ next ∧ next ≤ most then
        2 + ((rest.take following).takeWhile fun tail => 0x80 ≤ tail ∧ tail ≤ 0xBF).length
      else 1
    | _ => 1

/-- The characters of some bytes, at most that many, with a replacement for each part that is none.
-/
def replaceWithin : Nat → Bytes → String
  | 0, _ => ""
  | _ + 1, [] => ""
  | parts + 1, bytes =>
    (decode? (bytes.take (partSize bytes))).getD "\uFFFD" ++
      replaceWithin parts (bytes.drop (partSize bytes))

/-- The text by which some bytes are shown: the text that they encode, or one with replacements. -/
def decodeLossy (bytes : Bytes) : String :=
  (decode? bytes).getD (replaceWithin bytes.length bytes)

/-- A text is shown as itself. -/
@[simp] theorem decodeLossy_encode (text : String) : decodeLossy (encode text) = text := by
  rw [decodeLossy, decode?_eq_some_iff.mpr rfl, Option.getD_some]

/-- Two characters that break off, a byte that starts none, and a character. -/
example : decodeLossy [0xE2, 0x82, 0x61, 0xC3, 0xFF, 0x62] = "\uFFFDa\uFFFD\uFFFDb" := by decide

end SchemaCodec.Utf8
