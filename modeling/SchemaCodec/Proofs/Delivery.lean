import SchemaCodec.Wire.Source

/-!
# What a successful read takes from a source

A read succeeds exactly on the bytes that come next, whether they lie in a slice or come from a
stream in pieces. A slice gives them at once; a stream gives them by as many calls as it likes, and
it may fail as long as it does so behind the last byte that is wanted.

`Source.Offers` says that some bytes come next, and `Source.Gives` relates a source to the source
behind them. The reads of both kinds of source are sound and complete for these two relations.
-/

namespace SchemaCodec

/-- What remains of a failure after so many further bytes. -/
def remainingFailure (failure : Option (Nat × StreamError)) (count : Nat) :
    Option (Nat × StreamError) :=
  failure.map fun planned => (planned.1 - count, planned.2)

/-- A reader behind some bytes of another one: it still gives the others in the same way. -/
structure Reader.Behind (reader : Reader) (taken : Bytes) (after : Reader) : Prop where
  pending : reader.pending = taken ++ after.pending
  grant : after.grant = reader.grant
  failure : after.failure = remainingFailure reader.failure taken.length
  patience : after.patience = reader.patience

/-- A reader delivers bytes: they come next, every call gives something, and no failure is planned
before their end. -/
structure Reader.Delivers (reader : Reader) (taken : Bytes) : Prop where
  next : taken <+: reader.pending
  grants : ∀ calls, 1 ≤ reader.grant calls
  intact : ∀ left error, reader.failure = some (left, error) → taken.length ≤ left

namespace Reader

/-- Nothing taken leaves the reader as it is. -/
theorem Behind.refl (reader : Reader) : reader.Behind [] reader where
  pending := rfl
  grant := rfl
  failure := by cases failure : reader.failure <;> simp [remainingFailure]
  patience := rfl

/-- Bytes taken one after another are taken together. -/
theorem Behind.trans {reader middle after : Reader} {first second : Bytes}
    (before : reader.Behind first middle) (behind : middle.Behind second after) :
    reader.Behind (first ++ second) after where
  pending := by rw [before.pending, behind.pending, List.append_assoc]
  grant := behind.grant.trans before.grant
  failure := by
    rw [behind.failure, before.failure]
    cases reader.failure <;> simp [remainingFailure, Nat.sub_sub]
  patience := behind.patience.trans before.patience

/-- Bytes that are delivered together are delivered one after another. -/
theorem Delivers.rest {reader middle : Reader} {first second : Bytes}
    (delivers : reader.Delivers (first ++ second)) (behind : reader.Behind first middle) :
    middle.Delivers second where
  next := by
    have next := delivers.next
    rw [behind.pending] at next
    exact (List.prefix_append_right_inj first).mp next
  grants := behind.grant ▸ delivers.grants
  intact left error planned := by
    rw [behind.failure] at planned
    obtain ⟨⟨whole, planned⟩, failure, same⟩ := Option.map_eq_some_iff.mp planned
    have bound := delivers.intact whole _ failure
    simp only [Prod.mk.injEq] at same
    rw [List.length_append] at bound
    omega

/-- Whoever delivers bytes delivers the first of them. -/
theorem Delivers.front {reader : Reader} {first second : Bytes}
    (delivers : reader.Delivers (first ++ second)) : reader.Delivers first where
  next := (List.prefix_append first second).trans delivers.next
  grants := delivers.grants
  intact left error planned := by
    have bound := delivers.intact left error planned
    rw [List.length_append] at bound
    omega

/-- One call takes what it gives.

Proof: by the failure that is planned. A call that succeeds gives a front of the pending bytes and
leaves the rest; where a failure is planned, it gives no more than stands in front of it and moves
it nearer by as much. -/
theorem call_sound {reader after : Reader} {wanted : Nat} {taken : Bytes}
    (called : reader.call wanted = (.ok taken, after)) :
    reader.Behind taken after ∧ taken.length ≤ wanted := by
  unfold call at called
  cases planned : reader.failure with
  | none =>
    simp only [planned, Prod.mk.injEq, Except.ok.injEq] at called
    obtain ⟨rfl, rfl⟩ := called
    refine ⟨⟨(List.take_append_drop _ _).symm, rfl, by simp [remainingFailure, planned], rfl⟩, ?_⟩
    rw [List.length_take]
    omega
  | some failure =>
    obtain ⟨left, error⟩ := failure
    cases left with
    | zero => simp [planned] at called
    | succ left =>
      simp only [planned, Prod.mk.injEq, Except.ok.injEq] at called
      obtain ⟨rfl, rfl⟩ := called
      refine ⟨⟨(List.take_append_drop _ _).symm, rfl, ?_, rfl⟩, ?_⟩
      · simp only [remainingFailure, planned, Option.map_some, List.length_take]
        congr 2
        omega
      · rw [List.length_take]
        omega

/-- A call for bytes that are delivered gives at least the first of them.

Proof: without a planned failure a call gives as many bytes as are wanted, granted and present; with
one, as many as are still in front of it, which are all that are delivered. These numbers are
positive, so the bytes that are given are a nonempty front of those that are wanted. -/
theorem call_complete {reader : Reader} {taken : Bytes} (delivers : reader.Delivers taken)
    (wanted : taken ≠ []) : ∃ head tail, taken = head ++ tail ∧ head ≠ [] ∧
      (reader.call taken.length).1 = .ok head := by
  have positive : 0 < taken.length := List.length_pos_iff.mpr wanted
  have granted := delivers.grants reader.calls
  have enough : taken.length ≤ reader.pending.length := delivers.next.length_le
  have split (count : Nat) (some : 1 ≤ count) (few : count ≤ taken.length)
      (given : (reader.call taken.length).1 = .ok (reader.pending.take count)) :
      ∃ head tail, taken = head ++ tail ∧ head ≠ [] ∧
        (reader.call taken.length).1 = .ok head := by
    obtain ⟨rest, next⟩ := delivers.next
    rw [← next, List.take_append_of_le_length few] at given
    refine ⟨taken.take count, taken.drop count, (List.take_append_drop _ _).symm, ?_, given⟩
    intro empty
    rcases List.take_eq_nil_iff.mp empty with none | absent
    · omega
    · exact wanted absent
  cases planned : reader.failure with
  | none =>
    exact split (min taken.length (reader.grant reader.calls)) (by omega) (by omega)
      (by simp only [call, planned])
  | some failure =>
    obtain ⟨left, error⟩ := failure
    have room : taken.length ≤ left := delivers.intact left error planned
    cases left with
    | zero => omega
    | succ left =>
      exact split (min (min (min taken.length (reader.grant reader.calls)) (left + 1))
        reader.pending.length) (by omega) (by omega) (by simp only [call, planned])

/-- A call fails exactly where nothing is left in front of the failure. -/
theorem call_eq_error {reader after : Reader} {wanted : Nat} {error : StreamError} :
    reader.call wanted = (.error error, after) ↔
      reader.failure = some (0, error) ∧ { reader with calls := reader.calls + 1 } = after := by
  unfold call
  cases planned : reader.failure with
  | none => simp
  | some failure =>
    obtain ⟨left, planned⟩ := failure
    cases left <;> simp

/-- A call that gives bytes is not made again. -/
theorem callAgain_of_call {retries wanted : Nat} {reader after : Reader} {taken : Bytes}
    (called : reader.call wanted = (.ok taken, after)) :
    callAgain retries wanted reader = (.ok taken, after) := by
  cases retries with
  | zero => exact called
  | succ retries => simp only [callAgain, called]

/-- A call that fails, fails as often as it is made again: once for good, and where it was
interrupted as many times as the patience allows and once more.

Proof: by induction on the retries. A planned failure stays planned behind the call that meets it,
so an interrupted call is made again with one retry less and fails in the same way, and any other
failure is final. -/
theorem callAgain_of_failure {retries wanted : Nat} {reader : Reader} {error : StreamError}
    (planned : reader.failure = some (0, error)) :
    callAgain retries wanted reader = (.error error, { reader with
      calls := reader.calls + (if error.kind = .interrupted then retries else 0) + 1 }) := by
  have called {reader : Reader} (planned : reader.failure = some (0, error)) :
      reader.call wanted = (.error error, { reader with calls := reader.calls + 1 }) :=
    call_eq_error.mpr ⟨planned, rfl⟩
  induction retries generalizing reader with
  | zero => simpa [callAgain] using called planned
  | succ retries inductionHypothesis =>
    rw [callAgain, called planned]
    by_cases again : error.kind = .interrupted
    · have behind := @inductionHypothesis { reader with calls := reader.calls + 1 } planned
      simp only [again, if_true] at behind ⊢
      rw [behind]
      congr 3
      omega
    · simp [again]

/-- An answer that gives bytes is that of a single call: where a call was interrupted, those that
are made again are interrupted too. -/
theorem answer_eq_ok {reader after : Reader} {wanted : Nat} {taken : Bytes} :
    reader.answer wanted = (.ok taken, after) ↔ reader.call wanted = (.ok taken, after) := by
  constructor
  · intro answered
    rcases called : reader.call wanted with ⟨error | bytes, middle⟩
    · obtain ⟨planned, -⟩ := call_eq_error.mp called
      rw [answer, callAgain_of_failure planned] at answered
      simp at answered
    · rwa [answer, callAgain_of_call called] at answered
  · exact callAgain_of_call

/-- Calls until the bytes are complete take these bytes.

Proof: by induction on the answers that are left. Where nothing is wanted any more, nothing is
taken; otherwise an answer takes a nonempty front, and the calls behind it take the rest from the
reader that it leaves. -/
theorem fill_sound {answers wanted : Nat} {reader after : Reader} {taken : Bytes}
    (filled : fill answers wanted reader = (.ok taken, after)) :
    reader.Behind taken after ∧ taken.length = wanted := by
  induction answers generalizing wanted reader taken with
  | zero =>
    by_cases done : wanted = 0
    · simp only [fill, done, if_true, Prod.mk.injEq, Except.ok.injEq] at filled
      obtain ⟨rfl, rfl⟩ := filled
      exact ⟨.refl reader, done.symm⟩
    · simp [fill, done] at filled
  | succ answers inductionHypothesis =>
    by_cases done : wanted = 0
    · simp only [fill, done, if_true, Prod.mk.injEq, Except.ok.injEq] at filled
      obtain ⟨rfl, rfl⟩ := filled
      exact ⟨.refl reader, done.symm⟩
    · rw [fill, if_neg done] at filled
      rcases answered : reader.answer wanted with ⟨_ | ⟨_ | ⟨byte, bytes⟩⟩, middle⟩ <;>
        simp only [answered] at filled
      · simp at filled
      · simp at filled
      · obtain ⟨behind, few⟩ := call_sound (answer_eq_ok.mp answered)
        rcases rest : fill answers (wanted - (byte :: bytes).length) middle with
            ⟨_ | tail, last⟩ <;>
          simp only [rest, Prod.mk.injEq, Except.ok.injEq, reduceCtorEq, false_and] at filled
        obtain ⟨rfl, rfl⟩ := filled
        obtain ⟨continued, length⟩ := inductionHypothesis rest
        refine ⟨behind.trans continued, ?_⟩
        rw [List.length_append, length]
        omega

/-- Bytes that are delivered are complete after at most one answer for each of them.

Proof: by induction on the answers. An answer gives at least one of the bytes that are delivered, so
at most as many answers are needed as there are bytes, and what is left is delivered by the reader
behind the call. -/
theorem fill_complete {answers : Nat} {reader : Reader} {taken : Bytes}
    (delivers : reader.Delivers taken) (enough : taken.length ≤ answers) :
    ∃ after, fill answers taken.length reader = (.ok taken, after) := by
  induction answers generalizing reader taken with
  | zero =>
    have empty : taken = [] := List.eq_nil_of_length_eq_zero (by omega)
    exact ⟨reader, by simp [fill, empty]⟩
  | succ answers inductionHypothesis =>
    by_cases done : taken = []
    · exact ⟨reader, by simp [fill, done]⟩
    · obtain ⟨head, tail, rfl, given, isHead⟩ := call_complete delivers done
      rcases called : reader.call (head ++ tail).length with ⟨_, middle⟩
      rw [called] at isHead
      simp only at isHead
      subst isHead
      have positive : 0 < head.length := List.length_pos_iff.mpr given
      rw [List.length_append] at enough
      obtain ⟨after, rest⟩ := inductionHypothesis
        (delivers.rest (call_sound called).1) (by omega)
      refine ⟨after, ?_⟩
      have wanted : (head ++ tail).length ≠ 0 := by rw [List.length_append]; omega
      have missing : (head ++ tail).length - head.length = tail.length := by simp
      rw [fill, if_neg wanted, answer_eq_ok.mpr called]
      cases head with
      | nil => exact absurd rfl given
      | cons byte bytes => simp only [missing, rest]

end Reader

/-- A feed behind some bytes of another one, of the same kind. -/
def Feed.Behind : Feed → Bytes → Feed → Prop
  | .slice bytes, taken, .slice rest => bytes = taken ++ rest
  | .stream reader, taken, .stream after => reader.Behind taken after
  | _, _, _ => False

namespace Source

/-- A source gives bytes and is another one afterwards, which has counted them. -/
structure Gives (source : Source) (taken : Bytes) (after : Source) : Prop where
  position : after.position = source.position + taken.length
  feed : source.feed.Behind taken after.feed

/-- Some bytes come next and can be read without failure. -/
def Offers (source : Source) (taken : Bytes) : Prop :=
  match source.feed with
  | .slice rest => taken <+: rest
  | .stream reader => reader.Delivers taken

/-- Nothing taken leaves the source as it is. -/
theorem Gives.refl (source : Source) : source.Gives [] source where
  position := rfl
  feed := by
    cases source.feed with
    | slice rest => rfl
    | stream reader => exact Reader.Behind.refl reader

/-- Bytes taken one after another are taken together. -/
theorem Gives.trans {source middle after : Source} {first second : Bytes}
    (before : source.Gives first middle) (behind : middle.Gives second after) :
    source.Gives (first ++ second) after where
  position := by
    rw [behind.position, before.position, List.length_append]
    omega
  feed := by
    obtain ⟨-, front⟩ := before
    obtain ⟨-, back⟩ := behind
    obtain ⟨_, bytes | reader⟩ := source <;> obtain ⟨_, rest | between⟩ := middle <;>
      obtain ⟨_, tail | last⟩ := after <;> first | exact front.elim | exact back.elim | skip
    · change bytes = first ++ second ++ tail
      rw [front, back, List.append_assoc]
    · exact Reader.Behind.trans front back

/-- The bytes taken are those that stood in front of the others. -/
theorem Gives.unread {source after : Source} {taken : Bytes} (gives : source.Gives taken after) :
    source.unread = taken ++ after.unread := by
  obtain ⟨-, behind⟩ := gives
  obtain ⟨_, bytes | reader⟩ := source <;> obtain ⟨_, rest | last⟩ := after
  · exact behind
  · exact behind.elim
  · exact behind.elim
  · exact Reader.Behind.pending behind

/-- Of a slice, the rest of the slice is left. -/
theorem Gives.ofSlice {position : Nat} {taken rest : Bytes} {after : Source}
    (gives : Gives ⟨position, .slice (taken ++ rest)⟩ taken after) :
    after = ⟨position + taken.length, .slice rest⟩ := by
  obtain ⟨counted, behind⟩ := gives
  obtain ⟨_, tail | last⟩ := after
  · have same : rest = tail := List.append_cancel_left behind
    simp only at counted
    rw [counted, same]
  · exact behind.elim

/-- Bytes that come next are at least those that are offered. -/
theorem Offers.prefix_unread {source : Source} {taken : Bytes} (offers : source.Offers taken) :
    taken <+: source.unread := by
  obtain ⟨_, rest | reader⟩ := source
  · exact offers
  · exact Reader.Delivers.next offers

/-- Whoever offers bytes offers the first of them. -/
theorem Offers.front {source : Source} {first second : Bytes}
    (offers : source.Offers (first ++ second)) : source.Offers first := by
  obtain ⟨_, rest | reader⟩ := source
  · exact (List.prefix_append first second).trans offers
  · exact Reader.Delivers.front offers

/-- Once the first bytes are taken, the others are offered. -/
theorem Offers.rest {source middle : Source} {first second : Bytes}
    (offers : source.Offers (first ++ second)) (gives : source.Gives first middle) :
    middle.Offers second := by
  obtain ⟨-, behind⟩ := gives
  obtain ⟨_, bytes | reader⟩ := source <;> obtain ⟨_, rest | between⟩ := middle
  · change second <+: rest
    have next : first ++ second <+: bytes := offers
    rw [show bytes = first ++ rest from behind] at next
    exact (List.prefix_append_right_inj first).mp next
  · exact behind.elim
  · exact behind.elim
  · exact Reader.Delivers.rest offers behind

/-- A slice offers whatever it starts with. -/
theorem offers_slice (position : Nat) (taken rest : Bytes) :
    Offers ⟨position, .slice (taken ++ rest)⟩ taken :=
  List.prefix_append taken rest

/-- A read of a number of bytes takes as many as it gives.

Proof: by the kind of the source. A slice gives its front when it is long enough, and a stream is
filled by calls of its reader; a read that fails is excluded by the premise. -/
theorem readExact_sound {source after : Source} {wanted : Nat} {taken : Bytes}
    (read : source.readExact wanted = (.ok taken, after)) :
    source.Gives taken after ∧ taken.length = wanted := by
  obtain ⟨position, feed⟩ := source
  cases feed with
  | slice rest =>
    by_cases enough : wanted ≤ rest.length
    · simp only [readExact, enough, if_true, Prod.mk.injEq, Except.ok.injEq] at read
      obtain ⟨rfl, rfl⟩ := read
      have length : (rest.take wanted).length = wanted := by
        rw [List.length_take]
        omega
      exact ⟨⟨by rw [length], (List.take_append_drop wanted rest).symm⟩, length⟩
    · simp [readExact, enough] at read
  | stream reader =>
    rcases filled : reader.readExact wanted with ⟨_ | bytes, last⟩ <;>
      simp only [readExact, filled, Prod.mk.injEq, Except.ok.injEq, reduceCtorEq, false_and] at read
    obtain ⟨rfl, rfl⟩ := read
    obtain ⟨behind, length⟩ := Reader.fill_sound filled
    exact ⟨⟨by rw [length], behind⟩, length⟩

/-- Bytes that are offered can be read. -/
theorem readExact_complete {source : Source} {taken : Bytes} (offers : source.Offers taken) :
    ∃ after, source.readExact taken.length = (.ok taken, after) := by
  obtain ⟨position, feed⟩ := source
  cases feed with
  | slice rest =>
    obtain ⟨tail, rfl⟩ := offers
    exact ⟨⟨position + taken.length, .slice tail⟩, by simp [readExact]⟩
  | stream reader =>
    obtain ⟨after, filled⟩ := Reader.fill_complete offers (Nat.le_refl taken.length)
    exact ⟨⟨position + taken.length, .stream after⟩, by
      simp only [readExact, Reader.readExact, filled]⟩

/-- Skipping block by block takes as many bytes as are asked for, if the blocks suffice.

Proof: by induction on the blocks. Each step reads a full block or what is left, whichever is
smaller, and the blocks that remain suffice for what remains. -/
theorem skipBlocks_sound {blocks count : Nat} {source after : Source}
    (enough : count < blocks * skipBlock + 1)
    (skipped : source.skipBlocks blocks count = (.ok (), after)) :
    ∃ taken, source.Gives taken after ∧ taken.length = count := by
  induction blocks generalizing count source with
  | zero =>
    simp only [skipBlocks, Prod.mk.injEq, true_and] at skipped
    subst skipped
    exact ⟨[], .refl source, by simp; omega⟩
  | succ blocks inductionHypothesis =>
    by_cases done : count = 0
    · simp only [skipBlocks, done, if_true, Prod.mk.injEq, true_and] at skipped
      subst skipped
      exact ⟨[], .refl source, done.symm⟩
    · rcases read : source.readExact (min count skipBlock) with ⟨_ | block, middle⟩ <;>
        simp only [skipBlocks, done, if_false, read, Prod.mk.injEq, reduceCtorEq, false_and]
          at skipped
      obtain ⟨gives, length⟩ := readExact_sound read
      obtain ⟨rest, continued, restLength⟩ :=
        inductionHypothesis (by rw [Nat.add_mul] at enough; omega) skipped
      refine ⟨block ++ rest, gives.trans continued, ?_⟩
      rw [List.length_append, length, restLength]
      omega

/-- Bytes that are offered can be skipped block by block. -/
theorem skipBlocks_complete {blocks : Nat} {source : Source} {taken : Bytes}
    (offers : source.Offers taken) :
    ∃ after, source.skipBlocks blocks taken.length = (.ok (), after) := by
  induction blocks generalizing source taken with
  | zero => exact ⟨source, rfl⟩
  | succ blocks inductionHypothesis =>
    by_cases done : taken.length = 0
    · exact ⟨source, by simp only [skipBlocks, done, if_true]⟩
    · have split : taken = taken.take skipBlock ++ taken.drop skipBlock :=
        (List.take_append_drop _ _).symm
      rw [split] at offers
      obtain ⟨middle, read⟩ := readExact_complete offers.front
      obtain ⟨after, rest⟩ := inductionHypothesis (offers.rest (readExact_sound read).1)
      rw [List.length_take, Nat.min_comm] at read
      rw [List.length_drop] at rest
      exact ⟨after, by simp only [skipBlocks, done, if_false, read, rest]⟩

/-- Skipping takes as many bytes as are asked for.

Proof: by the kind of the source. A slice moves on at once when it is long enough; a stream is
skipped block by block, and the number of blocks is chosen so that they suffice. -/
theorem skip_sound {source after : Source} {count : Nat}
    (skipped : source.skip count = (.ok (), after)) :
    ∃ taken, source.Gives taken after ∧ taken.length = count := by
  obtain ⟨position, feed⟩ := source
  cases feed with
  | slice rest =>
    by_cases enough : count ≤ rest.length
    · simp only [skip, enough, if_true, Prod.mk.injEq, true_and] at skipped
      subst skipped
      have length : (rest.take count).length = count := by
        rw [List.length_take]
        omega
      exact ⟨_, ⟨by rw [length], (List.take_append_drop count rest).symm⟩, length⟩
    · simp [skip, enough] at skipped
  | stream reader =>
    refine skipBlocks_sound ?_ skipped
    unfold skipBlock
    omega

/-- Bytes that are offered can be skipped. -/
theorem skip_complete {source : Source} {taken : Bytes} (offers : source.Offers taken) :
    ∃ after, source.skip taken.length = (.ok (), after) := by
  obtain ⟨position, feed⟩ := source
  cases feed with
  | slice rest =>
    obtain ⟨tail, rfl⟩ := offers
    exact ⟨⟨position + taken.length, .slice tail⟩, by simp [skip]⟩
  | stream reader => exact skipBlocks_complete offers

end Source

end SchemaCodec
