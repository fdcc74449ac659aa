import SchemaCodec.Proofs.NormalForm
import SchemaCodec.Proofs.Simulation

/-!
# Streams that break

A stream may break behind any byte: between two fields, inside a length or in the middle of a block.
What is read from a slice is read from a stream of the same bytes if the stream breaks behind the
last byte that is needed. If it breaks earlier, the failure of the stream itself is reported, never
the end of the input, and at an offset that was reached: the bytes read in full are at most those
that the stream gave.

An interruption is no failure of a read: the call is made again. So a stream of which every call is
interrupted neither gives a value nor breaks, it is read without end. That is shown of every
patience: the stream has been called more often than that, and the last call was interrupted like
the others.

A decoder that reports breaks does so step by step, so this is shown of each way to take bytes from
a source, and the walk over the format carries it to values and to what is skipped.
-/

namespace SchemaCodec

/-- A reader of some bytes that gives at least one with every call and fails behind so many. -/
structure Reader.BreaksBehind (reader : Reader) (bytes : Bytes) (left : Nat) (error : StreamError)
    (patience : Nat) : Prop where
  pending : reader.pending = bytes
  grants : ∀ calls, 1 ≤ reader.grant calls
  planned : reader.failure = some (left, error)
  patience : reader.patience = patience

/-- What comes of reading from a stream that breaks behind so many bytes, when so many are needed
for a result. -/
inductive BreakOutcome (start left : Nat) (error : StreamError) (patience : Nat) (result : α)
    (size : Nat) (rest : Bytes) : Except DecodeError α × Source → Prop where
  /-- The break comes later: there is the result, and the stream still breaks at the same place. -/
  | read {after : Reader} (enough : size ≤ left)
      (goesOn : after.BreaksBehind rest (left - size) error patience) :
      BreakOutcome start left error patience result size rest
        (.ok result, ⟨start + size, .stream after⟩)
  /-- The break comes earlier: it is reported, at an offset that was reached. -/
  | broken {offset place : Nat} {path : FieldPath} {after : Reader} (early : left < size)
      (final : error.kind ≠ .interrupted) (reached : offset ≤ place)
      (given : place ≤ start + left) :
      BreakOutcome start left error patience result size rest
        (.error ⟨.source error, offset, path⟩, ⟨place, .stream after⟩)
  /-- The interruptions come earlier: more calls were made than the patience allows to be made
  again, and the last one was interrupted like the others. -/
  | unfinished {offset place : Nat} {path : FieldPath} {after : Reader} (early : left < size)
      (again : error.kind = .interrupted) (calls : patience < after.calls)
      (given : place ≤ start + left) :
      BreakOutcome start left error patience result size rest
        (.error ⟨.source error, offset, path⟩, ⟨place, .stream after⟩)

/-- A reader that was interrupted has been called more often than the patience allows to call it
again. -/
def Reader.Persisted (reader : Reader) (error : StreamError) (patience : Nat) : Prop :=
  error.kind = .interrupted → patience < reader.calls

/-- A break that comes early is reported or outlasts the patience. -/
theorem BreakOutcome.stopped {start left : Nat} {error : StreamError} {patience : Nat} {result : α}
    {size : Nat} {rest : Bytes} {offset place : Nat} {path : FieldPath} {after : Reader}
    (early : left < size) (persisted : after.Persisted error patience) (reached : offset ≤ place)
    (given : place ≤ start + left) :
    BreakOutcome start left error patience result size rest
      (.error ⟨.source error, offset, path⟩, ⟨place, .stream after⟩) := by
  by_cases again : error.kind = .interrupted
  · exact .unfinished early again (persisted again) given
  · exact .broken early again reached given

/-- A break is reported as the failure of the stream, unless the stream says that its input ended.
-/
theorem DecodeError.ofRead_broken {error : StreamError} (failing : error.kind ≠ .unexpectedEnd)
    (offset : Nat) : ofRead offset (.broken error) = ⟨.source error, offset, []⟩ := by
  rw [ofRead, if_neg failing]

namespace Reader

variable {reader after : Reader} {bytes taken rest : Bytes} {left wanted : Nat}
  {error : StreamError} {patience : Nat}

/-- Behind some of its bytes a reader breaks that much earlier. -/
theorem BreaksBehind.behind (breaks : reader.BreaksBehind (taken ++ rest) left error patience)
    (behind : reader.Behind taken after) :
    after.BreaksBehind rest (left - taken.length) error patience where
  pending := by
    have pending := behind.pending
    rw [breaks.pending] at pending
    exact (List.append_cancel_left pending).symm
  grants := behind.grant ▸ breaks.grants
  planned := by rw [behind.failure, breaks.planned, remainingFailure, Option.map_some]
  patience := behind.patience.trans breaks.patience

/-- A reader delivers the bytes in front of its break. -/
theorem BreaksBehind.delivers (breaks : reader.BreaksBehind (taken ++ rest) left error patience)
    (enough : taken.length ≤ left) : reader.Delivers taken where
  next := breaks.pending ▸ List.prefix_append taken rest
  grants := breaks.grants
  intact planned same failure := by
    rw [breaks.planned, Option.some.injEq, Prod.mk.injEq] at failure
    omega

/-- An answer fails at the break, once no patience is left, and in front of the break it gives some
of the bytes up to there.

Proof: at the break the planned failure is given, and calling again only uses up patience. In front
of it one call gives as many bytes as are wanted, granted, present and still in front of the break,
whichever are fewest; each of these numbers is positive. -/
theorem BreaksBehind.answer (breaks : reader.BreaksBehind bytes left error patience)
    (some : 0 < wanted) (present : wanted ≤ bytes.length) :
    (left = 0 ∧ ∃ after, after.Persisted error patience ∧
        reader.answer wanted = (.error error, after)) ∨
      ∃ count after, 0 < count ∧ count ≤ wanted ∧ count ≤ left ∧
        reader.answer wanted = (.ok (bytes.take count), after) ∧
          after.BreaksBehind (bytes.drop count) (left - count) error patience := by
  have granted := breaks.grants reader.calls
  have planned := breaks.planned
  cases left with
  | zero =>
    refine .inl ⟨rfl, _, fun again => ?_, callAgain_of_failure planned⟩
    simp only [again, if_true, breaks.patience]
    omega
  | succ left =>
    obtain ⟨count, isCount⟩ : ∃ count,
      count = min (min (min wanted (reader.grant reader.calls)) (left + 1)) bytes.length := ⟨_, rfl⟩
    have called : reader.call wanted = (.ok (bytes.take count), { reader with
        pending := bytes.drop count
        calls := reader.calls + 1
        failure := Option.some (left + 1 - count, error) }) := by
      unfold call
      rw [planned, breaks.pending, isCount]
      rfl
    exact .inr ⟨count, _, by omega, by omega, by omega, answer_eq_ok.mpr called,
      rfl, breaks.grants, rfl, breaks.patience⟩

/-- Where more bytes are wanted than stand in front of the break, they are never complete. The
induction is on the answers, each of which brings the break nearer. -/
theorem BreaksBehind.fill {answers : Nat} (breaks : reader.BreaksBehind bytes left error patience)
    (early : left < wanted) (present : wanted ≤ bytes.length) (enough : wanted ≤ answers) :
    ∃ after, after.Persisted error patience ∧
      reader.fill answers wanted = (.error (.broken error), after) := by
  induction answers generalizing reader bytes left wanted with
  | zero => omega
  | succ answers inductionHypothesis =>
    have notDone : wanted ≠ 0 := by omega
    rw [Reader.fill, if_neg notDone]
    rcases breaks.answer (by omega) present with ⟨-, after, persisted, failed⟩ |
      ⟨count, middle, some, few, intact, given, behind⟩
    · exact ⟨after, persisted, by rw [failed]⟩
    · have length : (bytes.take count).length = count := by
        rw [List.length_take]
        omega
      have stillEarly : left - count < wanted - count := by omega
      obtain ⟨after, persisted, failed⟩ := inductionHypothesis behind stillEarly
        (by rw [List.length_drop]; omega) (by omega)
      rw [given]
      cases isTaken : bytes.take count with
      | nil => simp [isTaken] at length; omega
      | cons byte others =>
        rw [isTaken] at length
        exact ⟨after, persisted, by simp only [length, failed]⟩

end Reader

namespace Source

variable {reader : Reader} {bytes : Bytes} {left wanted start : Nat} {error : StreamError}
  {patience : Nat}

/-- A read of bytes up to the break takes them, and a read beyond the break fails where it
started. -/
theorem readExact_of_breaks (breaks : reader.BreaksBehind bytes left error patience)
    (present : wanted ≤ bytes.length) (start : Nat) :
    (wanted ≤ left ∧ ∃ after,
        after.BreaksBehind (bytes.drop wanted) (left - wanted) error patience ∧
          readExact ⟨start, .stream reader⟩ wanted =
            (.ok (bytes.take wanted), ⟨start + wanted, .stream after⟩)) ∨
      left < wanted ∧ ∃ after, after.Persisted error patience ∧
        readExact ⟨start, .stream reader⟩ wanted =
          (.error (.broken error), ⟨start, .stream after⟩) := by
  unfold readExact Reader.readExact
  dsimp only
  rcases Nat.lt_or_ge left wanted with early | enough
  · obtain ⟨after, persisted, failed⟩ := breaks.fill early present (Nat.le_refl wanted)
    exact .inr ⟨early, after, persisted, by rw [failed]⟩
  · have length : (bytes.take wanted).length = wanted := List.length_take_of_le present
    have split := breaks
    rw [← List.take_append_drop wanted bytes] at split
    obtain ⟨after, filled⟩ := Reader.fill_complete (split.delivers (length.symm ▸ enough))
      (Nat.le_of_eq length)
    rw [length] at filled
    have goesOn := split.behind (Reader.fill_sound filled).1
    rw [length] at goesOn
    exact .inl ⟨enough, after, goesOn, by rw [filled]⟩

/-- Skipping beyond the break fails in front of it, behind the blocks that were read in full.

Proof: by induction on the blocks. A block is either read in full, and then the break is nearer by
its size, or it meets the break and nothing more is read. -/
theorem skipBlocks_of_breaks {blocks count : Nat}
    (breaks : reader.BreaksBehind bytes left error patience) (early : left < count)
    (present : count ≤ bytes.length) (enough : count < blocks * skipBlock + 1) (start : Nat) :
    ∃ place after, after.Persisted error patience ∧ start ≤ place ∧ place ≤ start + left ∧
      skipBlocks blocks count ⟨start, .stream reader⟩ =
        (.error (.broken error), ⟨place, .stream after⟩) := by
  induction blocks generalizing reader bytes left count start with
  | zero => omega
  | succ blocks inductionHypothesis =>
    have notDone : count ≠ 0 := by omega
    rw [skipBlocks, if_neg notDone]
    have within : min count skipBlock ≤ bytes.length := by omega
    rcases readExact_of_breaks breaks within start with ⟨whole, middle, goesOn, read⟩ |
      ⟨-, after, persisted, failed⟩
    · -- The break lies behind this block, so there are more blocks to come.
      have isBlock : min count skipBlock = skipBlock := by omega
      rw [isBlock] at read goesOn whole
      have stillEarly : left - skipBlock < count - skipBlock := by omega
      obtain ⟨place, after, persisted, above, below, failed⟩ := inductionHypothesis goesOn
        stillEarly (by rw [List.length_drop]; omega)
        (by rw [Nat.add_mul] at enough; omega) (start + skipBlock)
      exact ⟨place, after, persisted, by omega, by omega, by rw [isBlock, read]; exact failed⟩
    · exact ⟨start, after, persisted, Nat.le_refl start, Nat.le_add_right start left,
        by rw [failed]⟩

end Source

namespace Decoder

variable {α β : Type} {error : StreamError} {patience : Nat}

/-- The second decoder reports breaks of a stream where the first one reads from a slice: the bytes
that are needed for a result are those that the slice was read of. -/
def ReportsBreaks (error : StreamError) (patience : Nat) (α : Type) (first second : Decoder α) :
    Prop :=
  ∀ start bytes result after, first.run ⟨start, .slice bytes⟩ = (.ok result, after) →
    ∃ size ≤ bytes.length, after = ⟨start + size, .slice (bytes.drop size)⟩ ∧
      ∀ reader left, reader.BreaksBehind bytes left error patience →
        BreakOutcome start left error patience result size (bytes.drop size)
          (second.run ⟨start, .stream reader⟩)

section Steps

/-- A result that is given without reading meets no break. -/
theorem reportsBreaks_pure (result : α) :
    ReportsBreaks error patience α (pure result) (pure result) := by
  intro start bytes given after read
  simp only [run_pure, Prod.mk.injEq, Except.ok.injEq] at read
  obtain ⟨rfl, rfl⟩ := read
  exact ⟨0, Nat.zero_le _, rfl, fun reader left breaks => .read (Nat.zero_le left) breaks⟩

/-- The position is known on both sides. -/
theorem reportsBreaks_position : ReportsBreaks error patience Nat position position :=
  fun start bytes => reportsBreaks_pure start start bytes

/-- Where the first decoder fails, nothing is asked of the second one. -/
theorem reportsBreaks_of_fails {first second : Decoder α}
    (fails : ∀ source result after, first.run source ≠ (.ok result, after)) :
    ReportsBreaks error patience α first second :=
  fun _ _ _ _ read => absurd read (fails _ _ _)

/-- Of two steps the one reports the break that meets it.

Proof: read from the slice, the two steps consume two sizes that add up. On the stream a break
within the first size meets the first step, which reports it. Otherwise the first step gives what it
gives on the slice and leaves a reader with the rest of the bytes in front of its break, and the
second step is decided in the same way. -/
theorem ReportsBreaks.bind {first second : Decoder α} {next following : α → Decoder β}
    (before : ReportsBreaks error patience α first second)
    (behind : ∀ result, ReportsBreaks error patience β (next result) (following result)) :
    ReportsBreaks error patience β (first >>= next) (second >>= following) := by
  intro start bytes result after read
  rw [run_bind] at read
  rcases begun : first.run ⟨start, .slice bytes⟩ with ⟨_ | middle, between⟩ <;> rw [begun] at read
  · simp at read
  · obtain ⟨head, headPresent, rfl, onStream⟩ := before start bytes middle between begun
    obtain ⟨tail, tailPresent, rfl, onRest⟩ := behind middle _ _ result after read
    rw [List.length_drop] at tailPresent
    rw [List.drop_drop] at onRest
    rw [List.drop_drop, Nat.add_assoc]
    refine ⟨head + tail, by omega, rfl, fun reader left breaks => ?_⟩
    rw [run_bind]
    generalize streamed : second.run ⟨start, .stream reader⟩ = outcome
    have here := onStream reader left breaks
    rw [streamed] at here
    cases here with
    | @broken offset place path last early final reached given =>
      exact .broken (by omega) final reached given
    | @unfinished offset place path last early again calls given =>
      exact .unfinished (by omega) again calls given
    | @read between enough goesOn =>
      dsimp only
      generalize continued : (following middle).run ⟨start + head, .stream between⟩ = outcome
      have there := onRest between (left - head) goesOn
      rw [continued] at there
      cases there with
      | @broken offset place path last early final reached given =>
        exact .broken (by omega) final reached (by omega)
      | @unfinished offset place path last early again calls given =>
        exact .unfinished (by omega) again calls (by omega)
      | @read last enoughBehind goesOnBehind =>
        rw [Nat.sub_sub] at goesOnBehind
        rw [Nat.add_assoc]
        exact .read (by omega) goesOnBehind

/-- A step of a path changes neither result nor place. -/
theorem ReportsBreaks.within {first second : Decoder α}
    (reports : ReportsBreaks error patience α first second) (step : PathStep) :
    ReportsBreaks error patience α (within step first) (within step second) := by
  intro start bytes result after read
  unfold run Decoder.within at read ⊢
  rcases begun : first ⟨start, .slice bytes⟩ with ⟨_ | middle, between⟩ <;>
    simp only [begun, Prod.mk.injEq, Except.ok.injEq, reduceCtorEq, false_and] at read
  obtain ⟨rfl, rfl⟩ := read
  obtain ⟨size, present, stopped, onStream⟩ := reports start bytes middle between begun
  refine ⟨size, present, stopped, fun reader left breaks => ?_⟩
  have here := onStream reader left breaks
  unfold run at here
  generalize second ⟨start, .stream reader⟩ = outcome at here ⊢
  cases here with
  | broken early final reached given => exact .broken early final reached given
  | unfinished early again calls given => exact .unfinished early again calls given
  | read enough goesOn => exact .read enough goesOn

/-- A decoder of a form of a fixed size reports breaks when it does so in front of all of its bytes.

Proof: the slice read tells the size. In front of a break behind that size the stream offers all
bytes of the form, so it reads the same result and leaves the rest in front of the break; the other
case is the premise. -/
theorem Recognises.reportsBreaks {decoder : Decoder α} {form : Bytes → α → Prop} {size : Nat}
    (recognised : Recognises decoder form)
    (sized : ∀ taken result, form taken result → taken.length = size)
    (stops : ∀ {reader : Reader} {bytes : Bytes} {left : Nat} (start : Nat),
      reader.BreaksBehind bytes left error patience → left < size → size ≤ bytes.length →
        ∃ place after, after.Persisted error patience ∧ start ≤ place ∧ place ≤ start + left ∧
          decoder.run ⟨start, .stream reader⟩ =
            (.error ⟨.source error, start, []⟩, ⟨place, .stream after⟩)) :
    ReportsBreaks error patience α decoder decoder := by
  intro start bytes result after read
  obtain ⟨taken, rest, rfl, formed, rfl⟩ := recognised.form_of_slice read
  obtain rfl := sized taken result formed
  refine ⟨taken.length, by simp, by rw [List.drop_left], fun reader left breaks => ?_⟩
  rw [List.drop_left]
  rcases Nat.lt_or_ge left taken.length with early | enough
  · obtain ⟨place, last, persisted, above, below, failed⟩ := stops start breaks early (by simp)
    rw [failed]
    exact .stopped early persisted above below
  · have offers : Source.Offers ⟨start, .stream reader⟩ taken := breaks.delivers enough
    obtain ⟨⟨place, feed⟩, streamed, gives⟩ := recognised.complete offers formed
    obtain rfl : place = start + taken.length := gives.position
    cases feed with
    | slice others => exact gives.feed.elim
    | stream last =>
      rw [streamed]
      exact .read enough (breaks.behind gives.feed)

variable (failing : error.kind ≠ .unexpectedEnd)

include failing

/-- Bytes in one piece. -/
theorem reportsBreaks_bytes (size : Nat) :
    ReportsBreaks error patience Bytes (bytes size) (bytes size) := by
  refine (recognises_bytes size).reportsBreaks (by rintro _ _ ⟨rfl, length⟩; exact length) ?_
  intro reader input left start breaks early present
  rcases Source.readExact_of_breaks breaks present start with ⟨enough, -⟩ |
    ⟨-, after, persisted, failed⟩
  · omega
  · refine ⟨start, after, persisted, Nat.le_refl start, Nat.le_add_right start left, ?_⟩
    rw [bytes, run_bind, run_position]
    simp only [run, bytesFrom, failed, DecodeError.ofRead_broken failing]

/-- A number of four bytes. -/
theorem reportsBreaks_int32 : ReportsBreaks error patience Int32 int32 int32 :=
  (reportsBreaks_bytes failing 4).bind fun _ => reportsBreaks_pure _

/-- Bytes that are stepped over. -/
theorem reportsBreaks_skipBytes (size : Nat) :
    ReportsBreaks error patience Unit (skipBytes size) (skipBytes size) := by
  refine (recognises_skipBytes size).reportsBreaks (fun _ _ length => length) ?_
  intro reader input left start breaks early present
  have enough : size < (size / Source.skipBlock + 1) * Source.skipBlock + 1 := by
    unfold Source.skipBlock
    omega
  obtain ⟨place, after, persisted, above, below, failed⟩ :=
    Source.skipBlocks_of_breaks breaks early present enough start
  refine ⟨place, after, persisted, above, below, ?_⟩
  simp only [run, skipBytes, Source.skip, failed, DecodeError.ofRead_broken failing]

/-- A payload is read from a stream block by block. A break in any of the blocks is reported where
the payload starts.

Proof: by induction on the blocks. The next block is either read in full, which brings the break
nearer by its size, or it meets the break, and then the read fails with the place at which the
payload started. -/
theorem run_payloadBlocks_of_breaks {reader : Reader} {input : Bytes} {left blocks size : Nat}
    (breaks : reader.BreaksBehind input left error patience) (early : left < size)
    (present : size ≤ input.length) (enough : size < blocks * payloadBlock + 1)
    (start place : Nat) :
    ∃ last after, after.Persisted error patience ∧ place ≤ last ∧ last ≤ place + left ∧
      (payloadBlocks start blocks size).run ⟨place, .stream reader⟩ =
        (.error ⟨.source error, start, []⟩, ⟨last, .stream after⟩) := by
  induction blocks generalizing reader input left size place with
  | zero => omega
  | succ blocks inductionHypothesis =>
    have notDone : size ≠ 0 := by omega
    rw [payloadBlocks, if_neg notDone, run_bind]
    have within : min size payloadBlock ≤ input.length := by omega
    rcases Source.readExact_of_breaks breaks within place with ⟨whole, middle, goesOn, read⟩ |
      ⟨-, after, persisted, failed⟩
    · -- The break lies behind this block, so there are more blocks to come.
      have isBlock : min size payloadBlock = payloadBlock := by omega
      rw [isBlock] at read goesOn whole
      have stillEarly : left - payloadBlock < size - payloadBlock := by omega
      obtain ⟨last, after, persisted, above, below, failed⟩ := inductionHypothesis goesOn stillEarly
        (by rw [List.length_drop]; omega)
        (by rw [Nat.add_mul] at enough; omega) (place + payloadBlock)
      refine ⟨last, after, persisted, by omega, by omega, ?_⟩
      have block : (bytesFrom start payloadBlock).run ⟨place, .stream reader⟩ =
          (.ok (input.take payloadBlock), ⟨place + payloadBlock, .stream middle⟩) := by
        simp only [run, bytesFrom, read]
      rw [isBlock, block]
      dsimp only
      rw [run_bind, failed]
    · refine ⟨place, after, persisted, Nat.le_refl place, Nat.le_add_right place left, ?_⟩
      simp only [run, bytesFrom, failed, DecodeError.ofRead_broken failing]

/-- The bytes behind a length. -/
theorem reportsBreaks_payload (size : Nat) :
    ReportsBreaks error patience Bytes (payload size) (payload size) := by
  refine (recognises_payload size).reportsBreaks (by rintro _ _ ⟨rfl, length⟩; exact length) ?_
  intro reader input left start breaks early present
  have enough : size < (size / payloadBlock + 1) * payloadBlock + 1 := by
    unfold payloadBlock
    omega
  exact run_payloadBlocks_of_breaks failing breaks early present enough start start

/-- A number that announces what follows. What is left is known of a slice only, and the check
against it does not hold up a slice that goes on. -/
theorem reportsBreaks_announcement (limit : Nat) (room : Nat → Nat) (fault : Int32 → DecodeFault)
    (short : Nat → Int32 → Nat → Decoder Nat)
    (fails : ∀ start word left source result after,
      (short start word left).run source ≠ (.ok result, after)) :
    ReportsBreaks error patience Nat (announcement limit room fault short)
      (announcement limit room fault short) := by
  refine reportsBreaks_position.bind fun start => (reportsBreaks_int32 failing).bind
    fun announced => ?_
  by_cases refused : announced.toInt < 0 ∨ limit < announced.toInt.toNat
  · simp only [if_pos refused]
    exact reportsBreaks_of_fails fun source result after => by simp
  · simp only [if_neg refused]
    intro start bytes result after read
    simp only [run_bind, run_remaining, Source.remaining?] at read ⊢
    by_cases few : bytes.length < room announced.toInt.toNat
    · rw [if_pos few] at read
      exact absurd read (fails _ _ _ _ _ _)
    · rw [if_neg few] at read
      exact reportsBreaks_pure announced.toInt.toNat start bytes result after read

end Steps

/-- A reader of a stream that breaks walks in step with a reader of a slice. -/
theorem reportsBreaks_simulation {error : StreamError} (failing : error.kind ≠ .unexpectedEnd)
    (patience : Nat) (limits : Limits) :
    Simulation (ReportsBreaks error patience) limits limits where
  give := reportsBreaks_pure
  bind := ReportsBreaks.bind
  fail fault offset := reportsBreaks_of_fails fun source result after => by simp
  within step reports := reports.within step
  position := reportsBreaks_position
  bytes := reportsBreaks_bytes failing
  skipBytes := reportsBreaks_skipBytes failing
  payload := reportsBreaks_payload failing
  length := by
    rw [length_eq]
    exact reportsBreaks_announcement failing _ _ _ _ fun _ _ _ _ _ _ => by simp
  count leastSize := by
    rw [count_eq]
    exact reportsBreaks_announcement failing _ _ _ _ fun _ _ _ _ _ _ => by simp
  available step := by
    intro start bytes result after read
    obtain ⟨size, present, stopped, onStream⟩ :=
      step bytes.length bytes.length (Nat.le_refl _) start bytes result after read
    refine ⟨size, present, stopped, fun reader left breaks => ?_⟩
    obtain rfl := breaks.pending
    exact onStream reader left breaks
  spent _ := reportsBreaks_of_fails fun source result after => by simp

end Decoder

/-- A reader of the wasteful report that gives three bytes with a call and breaks behind so many. -/
def brokenReport (left : Nat) (kind : StreamErrorKind) : Reader where
  pending := wastefulReportBytes
  grant _ := 3
  failure := some (left, ⟨"reset", kind⟩)

end SchemaCodec
