import Mathlib.Data.List.Forall2
import SchemaCodec.Proofs.Delivery
import SchemaCodec.Proofs.Words
import SchemaCodec.Wire.Decoder

/-!
# Decoders that recognise a form

A form relates bytes to what they mean. A decoder recognises a form when it succeeds exactly on the
bytes that have it: whatever it reads successfully has the form, and bytes of the form are read from
every source that offers them, with the result that they mean. Position, limits on the bytes left
and the kind of the source take no part in a form, so decoders that recognise one form agree on
slices and streams.

Each reader of numbers, tags, lengths and field headers recognises its form, and reading one after
another recognises one form after another. On a slice bytes of a form are read whatever follows
them, so a form tells where its bytes end.
-/

namespace SchemaCodec.Decoder

/-- The position is told without moving. -/
@[simp] theorem run_position (source : Source) :
    position.run source = (.ok source.position, source) := rfl

/-- What is known of the bytes left is told without moving. -/
@[simp] theorem run_remaining (source : Source) :
    remaining?.run source = (.ok source.remaining?, source) := rfl

/-- A failure leaves the source where it is. -/
@[simp] theorem run_fail (fault : DecodeFault) (offset : Nat) (source : Source) :
    (fail fault offset : Decoder α).run source = (.error ⟨fault, offset, []⟩, source) := rfl

/-- A decoder succeeds exactly on the bytes of a form, with the results that they mean. -/
structure Recognises (decoder : Decoder α) (form : Bytes → α → Prop) : Prop where
  /-- What is read has the form. -/
  sound : ∀ {source result after}, decoder.run source = (.ok result, after) →
    ∃ taken, source.Gives taken after ∧ form taken result
  /-- Bytes of the form are read. -/
  complete : ∀ {source taken result}, source.Offers taken → form taken result →
    ∃ after, decoder.run source = (.ok result, after) ∧ source.Gives taken after

namespace Recognises

variable {α β : Type} {first : Decoder α} {next : α → Decoder β} {form : Bytes → α → Prop}

/-- A form may be told in other words. -/
theorem of_iff {other : Bytes → α → Prop} (recognised : Recognises first form)
    (same : ∀ taken result, form taken result ↔ other taken result) : Recognises first other where
  sound read := by
    obtain ⟨taken, gives, formed⟩ := recognised.sound read
    exact ⟨taken, gives, (same _ _).mp formed⟩
  complete offers formed := recognised.complete offers ((same _ _).mpr formed)

/-- A failure has no form. -/
theorem failWith (error : DecodeError) :
    Recognises (failWith error : Decoder α) fun _ _ => False where
  sound read := by simp [run, Decoder.failWith] at read
  complete _ impossible := impossible.elim

/-- A failure at a place has no form. -/
theorem fail (fault : DecodeFault) (offset : Nat) :
    Recognises (fail fault offset : Decoder α) fun _ _ => False :=
  failWith ⟨fault, offset, []⟩

/-- A result that is given stands for no bytes. -/
theorem pure (result : α) :
    Recognises (pure result : Decoder α) fun taken given => taken = [] ∧ given = result where
  sound {source _ _} read := by
    simp only [run_pure, Prod.mk.injEq, Except.ok.injEq] at read
    obtain ⟨rfl, rfl⟩ := read
    exact ⟨[], .refl source, rfl, rfl⟩
  complete {source _ _} _ formed := by
    obtain ⟨rfl, rfl⟩ := formed
    exact ⟨source, rfl, .refl source⟩

/-- Reading on recognises one form after the other. -/
theorem bind {following : α → Bytes → β → Prop} (recognised : Recognises first form)
    (continued : ∀ result, Recognises (next result) (following result)) :
    Recognises (first >>= next) fun taken result => ∃ middle head tail,
      taken = head ++ tail ∧ form head middle ∧ following middle tail result where
  sound {source result after} read := by
    rw [run_bind] at read
    rcases begun : first.run source with ⟨_ | middle, between⟩ <;> rw [begun] at read
    · simp at read
    · obtain ⟨head, gives, formed⟩ := recognised.sound begun
      obtain ⟨tail, behind, ended⟩ := (continued middle).sound read
      exact ⟨head ++ tail, gives.trans behind, middle, head, tail, rfl, formed, ended⟩
  complete {source taken result} offers formed := by
    obtain ⟨middle, head, tail, rfl, begun, ended⟩ := formed
    obtain ⟨between, read, gives⟩ := recognised.complete offers.front begun
    obtain ⟨after, rest, behind⟩ := (continued middle).complete (offers.rest gives) ended
    exact ⟨after, by rw [run_bind, read]; exact rest, gives.trans behind⟩

/-- What is computed from a result stands for the bytes of that result. -/
theorem map (recognised : Recognises first form) (convert : α → β) :
    Recognises (first >>= fun result => Pure.pure (convert result)) fun taken result =>
      ∃ middle, form taken middle ∧ result = convert middle := by
  refine (recognised.bind fun middle => pure (convert middle)).of_iff fun taken result => ?_
  constructor
  · rintro ⟨middle, head, tail, rfl, formed, rfl, rfl⟩
    exact ⟨middle, by simpa using formed, rfl⟩
  · rintro ⟨middle, formed, rfl⟩
    exact ⟨middle, taken, [], by simp, formed, rfl, rfl⟩

/-- A lookup only decides how reading goes on. -/
theorem lookup_bind {outcome : Except ε α} {following : α → Bytes → β → Prop} (offset : Nat)
    (reason : ε → String)
    (continued : ∀ found, outcome = .ok found → Recognises (next found) (following found)) :
    Recognises (Decoder.lookup offset reason outcome >>= next) fun taken result =>
      ∃ found, outcome = .ok found ∧ following found taken result := by
  cases outcome with
  | ok found =>
    refine (continued found rfl).of_iff fun taken result => ?_
    simp only [Except.ok.injEq, exists_eq_left']
  | error error =>
    have failed := fail (DecodeFault.unknownType (reason error)) offset (α := β)
    exact failed.of_iff fun _ _ => by simp

/-- A position is known without reading. -/
theorem position_bind {next : Nat → Decoder β} {following : Bytes → β → Prop}
    (continued : ∀ start, Recognises (next start) following) :
    Recognises (position >>= next) following where
  sound {source _ _} read := (continued source.position).sound read
  complete {source _ _} offers formed := (continued source.position).complete offers formed

/-- What is known of the bytes left may decide how bytes are read, if not which. -/
theorem remaining_bind {next : Option Nat → Decoder β} {following : Bytes → β → Prop}
    (continued : ∀ left, Recognises (next left) following) :
    Recognises (remaining? >>= next) following where
  sound {source _ _} read := (continued source.remaining?).sound read
  complete {source _ _} offers formed := (continued source.remaining?).complete offers formed

/-- A step of a path only concerns errors. -/
theorem within (step : PathStep) (recognised : Recognises first form) :
    Recognises (within step first) form where
  sound {source result after} read := by
    unfold run Decoder.within at read
    rcases begun : first source with ⟨_ | middle, between⟩ <;>
      simp only [begun, Prod.mk.injEq, Except.ok.injEq, reduceCtorEq, false_and] at read
    obtain ⟨rfl, rfl⟩ := read
    exact recognised.sound begun
  complete {source taken result} offers formed := by
    obtain ⟨after, read, gives⟩ := recognised.complete offers formed
    refine ⟨after, ?_, gives⟩
    unfold run Decoder.within
    rw [show first source = (.ok result, after) from read]

/-- What is decided without reading, once a result is there, stands for the bytes of that result. -/
theorem finish (outcome : α → β → Prop) (recognised : Recognises first form)
    (finished : ∀ middle, Recognises (next middle) fun taken result =>
      taken = [] ∧ outcome middle result) :
    Recognises (first >>= next) fun taken result =>
      ∃ middle, form taken middle ∧ outcome middle result := by
  refine (bind recognised finished).of_iff fun taken result => ?_
  constructor
  · rintro ⟨middle, head, tail, rfl, formed, rfl, ended⟩
    exact ⟨middle, by simpa using formed, ended⟩
  · rintro ⟨middle, formed, ended⟩
    exact ⟨middle, taken, [], by simp, formed, rfl, ended⟩

end Recognises

/-- Exactly so many bytes, as they are. -/
theorem recognises_bytesFrom (offset count : Nat) :
    Recognises (bytesFrom offset count) fun taken result =>
      taken = result ∧ result.length = count where
  sound {source result after} read := by
    unfold run bytesFrom at read
    rcases exact : source.readExact count with ⟨_ | bytes, behind⟩ <;>
      simp only [exact, Prod.mk.injEq, Except.ok.injEq, reduceCtorEq, false_and] at read
    obtain ⟨rfl, rfl⟩ := read
    obtain ⟨gives, length⟩ := Source.readExact_sound exact
    exact ⟨bytes, gives, rfl, length⟩
  complete {source taken result} offers formed := by
    obtain ⟨rfl, rfl⟩ := formed
    obtain ⟨after, exact⟩ := Source.readExact_complete offers
    exact ⟨after, by simp only [run, bytesFrom, exact], (Source.readExact_sound exact).1⟩

/-- Exactly so many bytes, as they are. -/
theorem recognises_bytes (count : Nat) :
    Recognises (bytes count) fun taken result => taken = result ∧ result.length = count :=
  Recognises.position_bind fun start => recognises_bytesFrom start count

/-- Exactly so many bytes, whatever they are. -/
theorem recognises_skipBytes (count : Nat) :
    Recognises (skipBytes count) fun taken _ => taken.length = count where
  sound {source result after} read := by
    unfold run skipBytes at read
    rcases skipped : source.skip count with ⟨_ | ⟨⟨⟩⟩, behind⟩ <;>
      simp only [skipped, Prod.mk.injEq, reduceCtorEq, false_and] at read
    obtain ⟨-, rfl⟩ := read
    exact Source.skip_sound skipped
  complete {source taken result} offers length := by
    subst length
    obtain ⟨after, skipped⟩ := Source.skip_complete offers
    obtain ⟨others, gives, sameLength⟩ := Source.skip_sound skipped
    have sameBytes : others = taken := by
      refine (List.prefix_of_prefix_length_le ⟨_, gives.unread.symm⟩ offers.prefix_unread
        (Nat.le_of_eq sameLength)).eq_of_length sameLength
    exact ⟨after, by simp only [run, skipBytes, skipped], sameBytes ▸ gives⟩

/-- A word of a fixed width, as it is written. -/
theorem Recognises.word {width : Nat} {encode : α → Bytes} {decode : Bytes → α}
    (fixed : FixedWidth width encode decode) :
    Recognises (bytes width >>= fun read => Pure.pure (decode read)) fun taken result =>
      taken = encode result := by
  refine ((recognises_bytes width).map decode).of_iff fun taken result => ?_
  constructor
  · rintro ⟨_, ⟨rfl, length⟩, rfl⟩
    exact (fixed.encode_decode taken length).symm
  · rintro rfl
    exact ⟨_, ⟨rfl, fixed.length_encode result⟩, (fixed.decode_encode result).symm⟩

/-- A byte as it is. -/
theorem recognises_uint8 : Recognises uint8 fun taken code => taken = [code] :=
  .word FixedWidth.uint8

/-- A signed byte. -/
theorem recognises_int8 : Recognises int8 fun taken number => taken = encodeInt8 number :=
  .word FixedWidth.int8

/-- A signed number of two bytes. -/
theorem recognises_int16 : Recognises int16 fun taken number => taken = encodeInt16 number :=
  .word FixedWidth.int16

/-- A signed number of four bytes. -/
theorem recognises_int32 : Recognises int32 fun taken number => taken = encodeInt32 number :=
  .word FixedWidth.int32

/-- A signed number of eight bytes. -/
theorem recognises_int64 : Recognises int64 fun taken number => taken = encodeInt64 number :=
  .word FixedWidth.int64

/-- A double. -/
theorem recognises_double : Recognises double fun taken number => taken = number.encode :=
  .word FixedWidth.double

/-- The tag that is asked for, and no other byte. -/
theorem recognises_expectTag (expected : WireTag) :
    Recognises (expectTag expected) fun taken _ => taken = [expected.code] := by
  refine .position_bind fun start => ?_
  refine (Recognises.finish (fun code _ => code = expected.code) recognises_uint8
    fun code => ?_).of_iff fun taken result => by simp
  by_cases same : code = expected.code
  · simp only [same, if_true]
    exact (Recognises.pure ()).of_iff fun taken result => by simp
  · simp only [same, if_false]
    exact (Recognises.fail _ start).of_iff fun taken result => by simp

/-- The tag of a kind that has values.

Proof: by what the code stands for. An unknown code fails and so does that of the stop; any other
one gives its tag, which has no other code. -/
theorem recognises_elementTag :
    Recognises elementTag fun taken tag => taken = [tag.code] ∧ tag ≠ .stop := by
  refine .position_bind fun start => ?_
  refine (Recognises.finish (fun code tag => WireTag.ofCode? code = some tag ∧ tag ≠ .stop)
    recognises_uint8 fun code => ?_).of_iff fun taken tag => ?_
  · cases known : WireTag.ofCode? code with
    | none => exact (Recognises.fail _ start).of_iff fun _ _ => by simp
    | some tag =>
      cases tag with
      | stop => exact (Recognises.fail _ start).of_iff fun _ _ => by simp +contextual [eq_comm]
      | _ => exact (Recognises.pure _).of_iff fun _ _ => by simp +contextual [eq_comm]
  · simp only [WireTag.ofCode?_eq_some_iff]
    constructor
    · rintro ⟨code, rfl, rfl, counted⟩
      exact ⟨rfl, counted⟩
    · rintro ⟨rfl, counted⟩
      exact ⟨tag.code, rfl, rfl, counted⟩

/-- So many items in a row, each in its form.

Proof: by induction on the count; the first item takes a piece of its own in front of the pieces of
the others. -/
theorem recognises_collect {item : Nat → Decoder α} {form : Bytes → α → Prop}
    (recognised : ∀ position, Recognises (item position) form) (count position : Nat) :
    Recognises (collect item count position) fun taken items =>
      items.length = count ∧ ∃ pieces, List.Forall₂ form pieces items ∧ taken = pieces.flatten := by
  induction count generalizing position with
  | zero =>
    refine (Recognises.pure []).of_iff fun taken items => ?_
    constructor
    · rintro ⟨rfl, rfl⟩
      exact ⟨rfl, [], .nil, rfl⟩
    · rintro ⟨none, pieces, formed, rfl⟩
      obtain rfl := List.eq_nil_of_length_eq_zero none
      obtain rfl := List.forall₂_nil_right_iff.mp formed
      exact ⟨rfl, rfl⟩
  | succ count inductionHypothesis =>
    refine ((recognised position).bind fun head =>
      (inductionHypothesis (position + 1)).map (head :: ·)).of_iff fun taken items => ?_
    constructor
    · rintro ⟨head, piece, others, rfl, formed, rest, ⟨rfl, pieces, restFormed, rfl⟩, rfl⟩
      exact ⟨rfl, piece :: pieces, .cons formed restFormed, rfl⟩
    · rintro ⟨counted, pieces, formed, rfl⟩
      cases formed with
      | nil => simp at counted
      | @cons piece head pieces rest here there =>
        exact ⟨head, piece, pieces.flatten, rfl, here, rest,
          ⟨Nat.succ.inj counted, pieces, there, rfl⟩, rfl⟩

/-- A prefix that announces a number of what follows: a number that is not negative and within a
limit. A source that knows how many bytes are left may refuse it, but not when so many bytes follow
as the number calls for. -/
structure Announces (announcement : Decoder Nat) (limit : Nat) (room : Nat → Nat) : Prop where
  sound : ∀ {source number after}, announcement.run source = (.ok number, after) →
    ∃ word : Int32, int32.run source = (.ok word, after) ∧ 0 ≤ word.toInt ∧
      word.toInt.toNat = number ∧ number ≤ limit
  complete : ∀ {source : Source} {word : Int32} {after : Source},
    int32.run source = (.ok word, after) → 0 ≤ word.toInt → word.toInt.toNat ≤ limit →
    (∀ left, after.remaining? = some left → room word.toInt.toNat ≤ left) →
    announcement.run source = (.ok word.toInt.toNat, after)

/-- Where the number of bytes left is known, it is the number of the unread bytes. -/
theorem remaining_eq_unread {source : Source} {left : Nat} (known : source.remaining? = some left) :
    left = source.unread.length := by
  obtain ⟨_, rest | reader⟩ := source
  · exact (Option.some.inj known).symm
  · simp [Source.remaining?] at known

/-- An announced number in front of what takes at least the room that is announced. The check
against the bytes left never refuses such bytes, so it takes no part in the form. -/
theorem Announces.bind {announcement : Decoder Nat} {limit : Nat} {room : Nat → Nat}
    {next : Nat → Decoder α} {following : Nat → Bytes → α → Prop}
    (announces : Announces announcement limit room)
    (continued : ∀ number, Recognises (next number) (following number))
    (large : ∀ number body result, following number body result → room number ≤ body.length) :
    Recognises (announcement >>= next) fun taken result =>
      ∃ number body, number ≤ limit ∧ number < 0x80000000 ∧
        taken = BigEndian.encode 4 number ++ body ∧ following number body result where
  sound {source result after} read := by
    rw [run_bind] at read
    rcases begun : announcement.run source with ⟨_ | number, between⟩ <;> rw [begun] at read
    · simp at read
    · obtain ⟨word, wordRead, nonneg, rfl, within⟩ := announces.sound begun
      obtain ⟨head, gives, rfl⟩ := recognises_int32.sound wordRead
      obtain ⟨tail, behind, ended⟩ := (continued _).sound read
      obtain ⟨plain, small⟩ := encodeInt32_of_nonneg nonneg
      exact ⟨_, gives.trans behind, _, tail, within, small, by rw [plain], ended⟩
  complete {source taken result} offers formed := by
    obtain ⟨number, body, within, small, rfl, ended⟩ := formed
    obtain ⟨nonneg, same⟩ := toInt_ofNat_toNat small
    have plain : encodeInt32 (Int32.ofNat number) = BigEndian.encode 4 number := by
      rw [(encodeInt32_of_nonneg nonneg).1, same]
    rw [← plain] at offers ⊢
    obtain ⟨between, read, gives⟩ := recognises_int32.complete offers.front rfl
    have offersBody : between.Offers body := offers.rest gives
    have begun := announces.complete read nonneg (by rw [same]; exact within) (by
      intro left known
      rw [same, remaining_eq_unread known]
      exact Nat.le_trans (large number body result ended) offersBody.prefix_unread.length_le)
    rw [same] at begun
    obtain ⟨after, rest, behind⟩ := (continued number).complete offersBody ended
    exact ⟨after, by rw [run_bind, begun]; exact rest, gives.trans behind⟩

/-- An announcement as the format makes it: the number is checked against the limit, and where the
bytes left are known the room that it calls for is checked against these. -/
def announcement (limit : Nat) (room : Nat → Nat) (fault : Int32 → DecodeFault)
    (short : Nat → Int32 → Nat → Decoder Nat) : Decoder Nat := do
  let start ← position
  let announced ← int32
  if announced.toInt < 0 ∨ limit < announced.toInt.toNat then fail (fault announced) start
  else
    match ← remaining? with
    | some left =>
      if left < room announced.toInt.toNat then short start announced left
      else pure announced.toInt.toNat
    | none => pure announced.toInt.toNat

/-- A length calls for as many bytes. -/
theorem length_eq (limits : Limits) : length limits =
    announcement limits.stringLength id
      (fun word => .negativeOrExcessiveLength word.toInt limits.stringLength)
      (fun _ _ _ => position >>= fun here => fail .truncatedInput here) := rfl

/-- A count calls for as many items, each of a least size. -/
theorem count_eq (limits : Limits) (leastSize : Nat) : count limits leastSize =
    announcement limits.containerLength (· * leastSize)
      (fun word => .negativeOrExcessiveLength word.toInt limits.containerLength)
      (fun start word left =>
        fail (.negativeOrExcessiveLength word.toInt (left / max leastSize 1)) start) := rfl

/-- An announcement announces when it gives nothing where the room is too small.

Proof: what was announced passed the check against the limit, and where the room is known, it was
not too small, since a decoder that refuses gives nothing. Conversely a number that passes both is
given. -/
theorem announces_announcement (limit : Nat) (room : Nat → Nat) (fault : Int32 → DecodeFault)
    (short : Nat → Int32 → Nat → Decoder Nat)
    (refuses : ∀ start word left, Recognises (short start word left) fun _ _ => False) :
    Announces (announcement limit room fault short) limit room where
  sound {source number after} read := by
    simp only [announcement, run_bind, run_position] at read
    rcases begun : int32.run source with ⟨_ | word, between⟩ <;> simp only [begun] at read
    · simp at read
    · by_cases refused : word.toInt < 0 ∨ limit < word.toInt.toNat
      · simp only [if_pos refused, run_fail, Prod.mk.injEq, reduceCtorEq, false_and] at read
      · have given : (.ok word.toInt.toNat, between) =
            (Except.ok (ε := DecodeError) number, after) := by
          simp only [if_neg refused, run_bind, run_remaining] at read
          cases known : between.remaining? with
          | none => simpa only [known, run_pure] using read
          | some left =>
            simp only [known] at read
            by_cases few : left < room word.toInt.toNat
            · rw [if_pos few] at read
              obtain ⟨_, _, impossible⟩ := (refuses source.position word left).sound read
              exact impossible.elim
            · rwa [if_neg few, run_pure] at read
        simp only [Prod.mk.injEq, Except.ok.injEq] at given
        obtain ⟨rfl, rfl⟩ := given
        exact ⟨word, rfl, by omega, rfl, by omega⟩
  complete {source word after} read nonneg within enough := by
    have accepted : ¬(word.toInt < 0 ∨ limit < word.toInt.toNat) := by omega
    simp only [announcement, run_bind, run_position, read, if_neg accepted, run_remaining]
    cases known : after.remaining? with
    | none => rfl
    | some left =>
      have enoughLeft : ¬left < room word.toInt.toNat := Nat.not_lt.mpr (enough left known)
      simp only [if_neg enoughLeft, run_pure]

/-- A length announces as many bytes. -/
theorem announces_length (limits : Limits) : Announces (length limits) limits.stringLength id := by
  rw [length_eq]
  exact announces_announcement _ _ _ _ fun _ _ _ => .position_bind fun here => .fail _ here

/-- A count announces as many items, each of a least size. -/
theorem announces_count (limits : Limits) (leastSize : Nat) :
    Announces (count limits leastSize) limits.containerLength (· * leastSize) := by
  rw [count_eq]
  exact announces_announcement _ _ _ _ fun start _ _ => .fail _ start

/-- No bytes stand for no bytes. -/
theorem recognises_noBytes :
    Recognises (pure [] : Decoder Bytes) fun taken result =>
      taken = result ∧ result.length = 0 := by
  refine (Recognises.pure []).of_iff fun taken result => ?_
  constructor
  · rintro ⟨rfl, rfl⟩
    exact ⟨rfl, rfl⟩
  · rintro ⟨rfl, none⟩
    exact ⟨List.eq_nil_of_length_eq_zero none, List.eq_nil_of_length_eq_zero none⟩

/-- A payload read in enough blocks is so many bytes, as they are.

Proof: by induction on the blocks. If bytes are left to be read, the first block takes as many of
them as it holds, and the other blocks are enough for the rest. -/
theorem recognises_payloadBlocks (start blocks size : Nat) (enough : size ≤ blocks * payloadBlock) :
    Recognises (payloadBlocks start blocks size) fun taken result =>
      taken = result ∧ result.length = size := by
  induction blocks generalizing size with
  | zero =>
    obtain rfl : size = 0 := by omega
    exact recognises_noBytes
  | succ blocks inductionHypothesis =>
    rw [payloadBlocks]
    by_cases empty : size = 0
    · subst empty
      exact recognises_noBytes
    · rw [if_neg empty]
      have fewer : size - payloadBlock ≤ blocks * payloadBlock := by
        rw [Nat.succ_mul] at enough
        omega
      refine ((recognises_bytesFrom start (min size payloadBlock)).bind fun block =>
        (inductionHypothesis _ fewer).map (block ++ ·)).of_iff fun taken result => ?_
      constructor
      · rintro ⟨block, _, _, rfl, ⟨rfl, blockLength⟩, rest, ⟨rfl, restLength⟩, rfl⟩
        refine ⟨rfl, ?_⟩
        rw [List.length_append, blockLength, restLength]
        omega
      · rintro ⟨rfl, length⟩
        refine ⟨taken.take payloadBlock, _, taken.drop payloadBlock,
          ?_, ⟨rfl, ?_⟩, _, ⟨rfl, ?_⟩, ?_⟩
        · exact (List.take_append_drop _ _).symm
        · rw [List.length_take, length, Nat.min_comm]
        · rw [List.length_drop, length]
        · exact (List.take_append_drop _ _).symm

/-- The bytes behind a length, as they are, whether they are read in one piece or in blocks. -/
theorem recognises_payload (size : Nat) :
    Recognises (payload size) fun taken result => taken = result ∧ result.length = size := by
  refine .remaining_bind fun left => ?_
  cases left with
  | some left => exact recognises_bytes size
  | none =>
    have enough : size ≤ (size / payloadBlock + 1) * payloadBlock := by
      simp only [payloadBlock]
      omega
    exact .position_bind fun start => recognises_payloadBlocks start _ size enough

/-- A field on the wire: the tag and the id in its header, the bytes of its value, and what the
reader of fields finds in these. -/
structure WireField (α : Type) where
  tag : WireTag
  id : Int16
  body : Bytes
  found : Option α

namespace WireField

/-- The bytes of a field, header included. -/
def bytes (field : WireField α) : Bytes := field.tag.code :: (encodeInt16 field.id ++ field.body)

/-- What is kept of a field, under its id. -/
def kept (field : WireField α) : Option (Int16 × α) :=
  field.found.map fun value => (field.id, value)

end WireField

/-- Fields in a row, each in the form that its header asks for, and the stop behind them. -/
structure FieldRow (form : WireTag → Int16 → Bytes → Option α → Prop) (row : List (WireField α))
    (taken : Bytes) (result : List (Int16 × α)) : Prop where
  each : ∀ field ∈ row, field.tag ≠ .stop ∧ form field.tag field.id field.body field.found
  bytes : taken = row.flatMap WireField.bytes ++ [WireTag.stop.code]
  kept : result = row.filterMap WireField.kept

/-- A field sequence: some fields in a row up to the stop. -/
def FieldSequence (form : WireTag → Int16 → Bytes → Option α → Prop) (taken : Bytes)
    (result : List (Int16 × α)) : Prop :=
  ∃ row, FieldRow form row taken result

/-- Every field takes at least one byte, and so does the stop. -/
theorem FieldRow.length_lt {form : WireTag → Int16 → Bytes → Option α → Prop}
    {row : List (WireField α)} {taken : Bytes} {result : List (Int16 × α)}
    (formed : FieldRow form row taken result) : row.length < taken.length := by
  have oneEach : row.length ≤ (row.flatMap WireField.bytes).length := by
    clear formed
    induction row with
    | nil => exact Nat.le_refl 0
    | cons field rest inductionHypothesis =>
      simp only [List.flatMap_cons, List.length_append, List.length_cons, WireField.bytes]
      omega
  rw [formed.bytes, List.length_append, List.length_singleton]
  omega

/-- What stands in front of a field at a place: its tag and id, or the stop. -/
def HeaderAt (start : Nat) (taken : Bytes) : Option FieldHeader → Prop
  | none => taken = [WireTag.stop.code]
  | some header => taken = header.tag.code :: encodeInt16 header.id ∧ header.tag ≠ .stop ∧
      header.offset = start

/-- A header is read at the place where it starts.

Proof: by the code that is read first. The code of the stop is a header of its own, a code without a
tag fails, and a code with a tag is followed by the id, of two bytes. -/
theorem recognises_headerAt (start : Nat) :
    Recognises (do
      let code ← uint8
      if code = WireTag.stop.code then pure none
      else
        match WireTag.ofCode? code with
        | none => fail (.invalidTypeTag code) start
        | some tag => do
          let id ← int16
          pure (some ⟨tag, id, start⟩)) (HeaderAt start) := by
  have behindCode (code : UInt8) : Recognises (if code = WireTag.stop.code then pure none
      else
        match WireTag.ofCode? code with
        | none => fail (.invalidTypeTag code) start
        | some tag => do
          let id ← int16
          pure (some ⟨tag, id, start⟩))
        fun tail header => HeaderAt start (code :: tail) header := by
    by_cases stopped : code = WireTag.stop.code
    · rw [if_pos stopped]
      refine (Recognises.pure none).of_iff fun tail header => ?_
      cases header with
      | none => simp [HeaderAt, stopped]
      | some header =>
        simp only [reduceCtorEq, and_false, HeaderAt, List.cons.injEq, stopped, false_iff]
        rintro ⟨⟨sameCode, -⟩, counted, -⟩
        exact counted (WireTag.eq_of_code_eq sameCode.symm)
    · rw [if_neg stopped]
      cases known : WireTag.ofCode? code with
      | none =>
        refine (Recognises.fail _ start).of_iff fun tail header => ?_
        have unknown (tag : WireTag) : tag.code ≠ code := fun same => by
          simp [WireTag.ofCode?_eq_some_iff.mpr same] at known
        cases header with
        | none => simp [HeaderAt, stopped]
        | some header => simp [HeaderAt, (unknown header.tag).symm]
      | some tag =>
        obtain rfl := WireTag.ofCode?_eq_some_iff.mp known
        refine (recognises_int16.map fun id => some (⟨tag, id, start⟩ : FieldHeader)).of_iff
          fun tail header => ?_
        constructor
        · rintro ⟨id, rfl, rfl⟩
          exact ⟨rfl, fun stop => stopped (congrArg WireTag.code stop), rfl⟩
        · intro formed
          cases header with
          | none => exact absurd (List.cons.inj formed).1 stopped
          | some header =>
            obtain ⟨tag, id, offset⟩ := header
            obtain ⟨sameBytes, -, rfl⟩ := formed
            obtain ⟨sameCode, rfl⟩ := List.cons.inj sameBytes
            exact ⟨id, rfl, by rw [WireTag.eq_of_code_eq sameCode]⟩
  refine (recognises_uint8.bind behindCode).of_iff fun taken header => ?_
  constructor
  · rintro ⟨code, _, tail, rfl, rfl, formed⟩
    exact formed
  · intro formed
    cases header with
    | none => exact ⟨WireTag.stop.code, [WireTag.stop.code], [], formed, rfl, rfl⟩
    | some header =>
      exact ⟨header.tag.code, _, encodeInt16 header.id, formed.1, rfl, rfl, formed.2⟩

section Fields

variable {field : FieldHeader → Decoder (Option α)}
  {form : WireTag → Int16 → Bytes → Option α → Prop}

/-- A row with one field more in front. -/
theorem FieldRow.cons {row : List (WireField α)} {taken : Bytes} {result : List (Int16 × α)}
    (formed : FieldRow form row taken result) (first : WireField α) (counted : first.tag ≠ .stop)
    (here : form first.tag first.id first.body first.found) :
    FieldRow form (first :: row) (first.bytes ++ taken) (first.kept.toList ++ result) where
  each := List.forall_mem_cons.mpr ⟨⟨counted, here⟩, formed.each⟩
  bytes := by rw [formed.bytes, List.flatMap_cons, List.append_assoc]
  kept := by
    rw [formed.kept]
    cases found : first.kept <;> simp [found]

/-- No fields at all: the stop alone. -/
theorem FieldSequence.stop : FieldSequence form [WireTag.stop.code] [] :=
  ⟨[], by simp, rfl, rfl⟩

/-- A field sequence with one field more in front. -/
theorem FieldSequence.cons {taken : Bytes} {result : List (Int16 × α)}
    (formed : FieldSequence form taken result) (first : WireField α) (counted : first.tag ≠ .stop)
    (here : form first.tag first.id first.body first.found) :
    FieldSequence form (first.bytes ++ taken) (first.kept.toList ++ result) := by
  obtain ⟨row, formed⟩ := formed
  exact ⟨first :: row, formed.cons first counted here⟩

/-- What stands behind the header of a field, of which fewer than so many follow: the body and the
other fields. Nothing stands behind the stop. -/
def FieldsBehind (form : WireTag → Int16 → Bytes → Option α → Prop) (attempts : Nat) :
    Option FieldHeader → Bytes → List (Int16 × α) → Prop
  | none, taken, result => taken = [] ∧ result = []
  | some header, taken, result => ∃ found body rest, taken = body ++ rest ∧
      form header.tag header.id body found ∧
      ∃ others, (∃ row, row.length < attempts ∧ FieldRow form row rest others) ∧
        result = (found.map (header.id, ·)).toList ++ others

/-- So many attempts read a row of fewer fields.

Proof: by induction on the attempts. One attempt reads a header, which is the stop of an empty row
or belongs to the first field, whose body is read and in front of whose successors it is kept. -/
theorem recognises_fieldsWithin
    (recognised : ∀ header, Recognises (field header) (form header.tag header.id))
    (attempts : Nat) :
    Recognises (fieldsWithin field attempts) fun taken result =>
      ∃ row, row.length < attempts ∧ FieldRow form row taken result := by
  induction attempts with
  | zero =>
    refine (Recognises.position_bind fun here => .fail _ here).of_iff fun taken result => ?_
    simp
  | succ attempts inductionHypothesis =>
    rw [fieldsWithin, fieldHeader, bind_assoc]
    refine .position_bind fun start =>
      ((recognises_headerAt start).bind fun header =>
        show Recognises _ (FieldsBehind form attempts header) from ?behind).of_iff
          fun taken result => ?row
    case behind =>
      cases header with
      | none => exact .pure []
      | some header =>
        refine (recognised header).bind fun found => ?_
        cases found with
        | none => simpa using inductionHypothesis.map fun rest => rest
        | some value => exact inductionHypothesis.map fun rest => (header.id, value) :: rest
    case row =>
      constructor
      · rintro ⟨_ | header, head, tail, rfl, headed, formed⟩
        · obtain ⟨rfl, rfl⟩ := formed
          obtain rfl := headed
          exact ⟨[], Nat.succ_pos attempts, by simp, rfl, rfl⟩
        · obtain ⟨rfl, counted, -⟩ := headed
          obtain ⟨found, body, rest, rfl, here, others, ⟨row, fewer, formed⟩, rfl⟩ := formed
          refine ⟨⟨header.tag, header.id, body, found⟩ :: row, Nat.succ_lt_succ fewer, ?_⟩
          simpa [WireField.bytes, WireField.kept] using
            formed.cons ⟨header.tag, header.id, body, found⟩ counted here
      · rintro ⟨_ | ⟨first, row⟩, fewer, each, rfl, rfl⟩
        · exact ⟨none, [WireTag.stop.code], [], rfl, rfl, rfl, rfl⟩
        · obtain ⟨⟨counted, here⟩, others⟩ := List.forall_mem_cons.mp each
          refine ⟨some ⟨first.tag, first.id, start⟩, _, _, ?_, ⟨rfl, counted, rfl⟩, first.found,
            first.body, _, rfl, here, _, ⟨row, Nat.lt_of_succ_lt_succ fewer, others, rfl, rfl⟩, ?_⟩
          · simp [WireField.bytes]
          · cases found : first.found <;> simp [WireField.kept, found]

/-- A field sequence is read to its stop, however many fields it has. -/
theorem recognises_fields
    (recognised : ∀ header, Recognises (field header) (form header.tag header.id)) :
    Recognises (fields field) (FieldSequence form) where
  sound {source _ _} read := by
    obtain ⟨taken, gives, row, -, formed⟩ :=
      (recognises_fieldsWithin recognised (source.unread.length + 1)).sound read
    exact ⟨taken, gives, row, formed⟩
  complete {source taken _} offers formed := by
    obtain ⟨row, formed⟩ := formed
    have enough : row.length < source.unread.length + 1 := by
      have atMost := offers.prefix_unread.length_le
      have oneEach := formed.length_lt
      omega
    exact (recognises_fieldsWithin recognised (source.unread.length + 1)).complete offers
      ⟨row, enough, formed⟩

end Fields

section Delimiting

variable {decoder : Decoder α} {form : Bytes → α → Prop}

/-- Bytes of a recognised form end where the form says: of two ways to split the same bytes into
such a form and a rest there is only one. -/
theorem Recognises.delimits (recognised : Recognises decoder form)
    {taken other rest tail : Bytes} {result another : α} (formed : form taken result)
    (alsoFormed : form other another) (same : taken ++ rest = other ++ tail) :
    taken = other ∧ result = another := by
  obtain ⟨after, read, gives⟩ := recognised.complete (Source.offers_slice 0 taken rest) formed
  obtain ⟨behind, readAlso, givesAlso⟩ :=
    recognised.complete (Source.offers_slice 0 other tail) alsoFormed
  obtain rfl := gives.ofSlice
  obtain rfl := givesAlso.ofSlice
  rw [same, readAlso] at read
  simp only [Prod.mk.injEq, Except.ok.injEq, Source.mk.injEq, Feed.slice.injEq] at read
  obtain ⟨rfl, -, rfl⟩ := read
  exact ⟨List.append_cancel_right same, rfl⟩

/-- Bytes of a recognised form are read as what they mean, whatever follows them. -/
theorem Recognises.run_slice (recognised : Recognises decoder form) {taken : Bytes}
    {result : α} (formed : form taken result) (position : Nat) (rest : Bytes) :
    decoder.run ⟨position, .slice (taken ++ rest)⟩ =
      (.ok result, ⟨position + taken.length, .slice rest⟩) := by
  obtain ⟨after, read, gives⟩ :=
    recognised.complete (Source.offers_slice position taken rest) formed
  rw [← gives.ofSlice]
  exact read

/-- What is read from the front of a slice has the recognised form, and the rest is left. -/
theorem Recognises.form_of_slice (recognised : Recognises decoder form) {bytes : Bytes}
    {position : Nat} {result : α} {after : Source}
    (read : decoder.run ⟨position, .slice bytes⟩ = (.ok result, after)) :
    ∃ taken rest, bytes = taken ++ rest ∧ form taken result ∧
      after = ⟨position + taken.length, .slice rest⟩ := by
  obtain ⟨taken, gives, formed⟩ := recognised.sound read
  obtain rfl : bytes = taken ++ after.unread := gives.unread
  exact ⟨taken, after.unread, rfl, formed, gives.ofSlice⟩

end Delimiting

end SchemaCodec.Decoder
