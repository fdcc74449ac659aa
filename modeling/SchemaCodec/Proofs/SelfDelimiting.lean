import SchemaCodec.Proofs.NormalForm
import SchemaCodec.Proofs.Simulation

/-!
# Values tell where they end

What a reader takes from the front of a slice it takes from in front of any other bytes as well, and
it notices when a part of it is missing. The checks of lengths and counts look at the bytes that are
left, but all that they can do is to stop a reader that would run out of input anyway.

A reader is steady: with more bytes behind a slice it does what it did on the slice alone, unless it
ran into the end of the slice.
-/

namespace SchemaCodec

/-- A fault for want of input: the input ends early, or a length or count is out of bounds, as it is
when it calls for more bytes than are left. -/
def DecodeFault.OfShortInput : DecodeFault → Prop
  | .truncatedInput | .negativeOrExcessiveLength _ _ => True
  | _ => False

namespace Decoder

/-- A run that stopped for want of input. -/
def StopsShort (ran : Except DecodeError α × Source) : Prop :=
  ∃ error after, ran = (.error error, after) ∧ error.fault.OfShortInput

/-- On a slice with more bytes behind it, the second decoder does what the first one does on the
slice alone and leaves these bytes, unless the first one stops for want of input. -/
def Steady (α : Type) (first second : Decoder α) : Prop :=
  ∀ position bytes more, StopsShort (first.run ⟨position, .slice bytes⟩) ∨
    ∃ outcome place left, first.run ⟨position, .slice bytes⟩ = (outcome, ⟨place, .slice left⟩) ∧
      second.run ⟨position, .slice (bytes ++ more)⟩ = (outcome, ⟨place, .slice (left ++ more)⟩)

section Steps

variable {α β : Type}

/-- A result that is given needs no input. -/
theorem steady_pure (result : α) : Steady α (pure result) (pure result) :=
  fun position bytes _ => .inr ⟨.ok result, position, bytes, rfl, rfl⟩

/-- A failure needs no input. -/
theorem steady_fail (fault : DecodeFault) (offset : Nat) :
    Steady α (fail fault offset) (fail fault offset) :=
  fun position bytes _ => .inr ⟨.error ⟨fault, offset, []⟩, position, bytes, rfl, rfl⟩

/-- Steady steps one after another are steady. -/
theorem Steady.bind {first second : Decoder α} {next following : α → Decoder β}
    (before : Steady α first second)
    (behind : ∀ result, Steady β (next result) (following result)) :
    Steady β (first >>= next) (second >>= following) := by
  intro position bytes more
  rcases before position bytes more with ⟨error, after, failed, short⟩ |
    ⟨outcome, place, left, read, readAlso⟩
  · exact .inl ⟨error, after, by rw [run_bind, failed], short⟩
  · simp only [run_bind, read, readAlso]
    cases outcome with
    | error error => exact .inr ⟨.error error, place, left, rfl, rfl⟩
    | ok result => exact behind result place left more

/-- A step of a path changes no fault. -/
theorem Steady.within {first second : Decoder α} (steady : Steady α first second)
    (step : PathStep) : Steady α (within step first) (within step second) := by
  intro position bytes more
  unfold run Decoder.within
  rcases steady position bytes more with ⟨error, after, failed, short⟩ |
    ⟨outcome, place, left, read, readAlso⟩
  · rw [show first _ = _ from failed]
    exact .inl ⟨error.within step, after, rfl, short⟩
  · rw [show first _ = _ from read, show second _ = _ from readAlso]
    cases outcome with
    | error error => exact .inr ⟨.error (error.within step), place, left, rfl, rfl⟩
    | ok result => exact .inr ⟨.ok result, place, left, rfl, rfl⟩

/-- Bytes that are there are still there with more bytes behind them. -/
theorem steady_bytes (size : Nat) : Steady Bytes (bytes size) (bytes size) := by
  intro position input more
  by_cases enough : size ≤ input.length
  · have enoughAlso : size ≤ input.length + more.length := Nat.le_add_right_of_le enough
    refine .inr ⟨.ok (input.take size), position + size, input.drop size, ?_, ?_⟩
    · simp [run, bytes, bytesFrom, Source.readExact, enough, bind, andThen, Decoder.position]
    · simp [run, bytes, bytesFrom, Source.readExact, enoughAlso, bind, andThen, Decoder.position,
        List.take_append_of_le_length enough, List.drop_append_of_le_length enough]
  · refine .inl ⟨⟨.truncatedInput, position, []⟩, ⟨position, .slice input⟩, ?_, trivial⟩
    simp [run, bytes, bytesFrom, Source.readExact, enough, bind, andThen, Decoder.position,
      DecodeError.ofRead]

/-- Bytes that can be stepped over still can with more bytes behind them. -/
theorem steady_skipBytes (size : Nat) : Steady Unit (skipBytes size) (skipBytes size) := by
  intro position input more
  by_cases enough : size ≤ input.length
  · have enoughAlso : size ≤ input.length + more.length := Nat.le_add_right_of_le enough
    refine .inr ⟨.ok (), position + size, input.drop size, ?_, ?_⟩
    · simp [run, skipBytes, Source.skip, enough]
    · simp [run, skipBytes, Source.skip, enoughAlso, List.drop_append_of_le_length enough]
  · refine .inl ⟨⟨.truncatedInput, position, []⟩, ⟨position, .slice input⟩, ?_, trivial⟩
    simp [run, skipBytes, Source.skip, enough, DecodeError.ofRead]

/-- A number that announces what follows is checked against a limit, which is steady, and against
the room that is left. Where the room is too small for it, the reader stops for want of input.

Proof: the place and the number are read steadily. A number beyond the limit is refused whatever
follows. Otherwise the room is compared: too little of it stops the reader short, and enough of it
is enough with more bytes behind. -/
theorem steady_announcement (limit : Nat) (room : Nat → Nat) (fault : Int32 → DecodeFault)
    (short : Nat → Int32 → Nat → Decoder Nat)
    (stops : ∀ start word left source, StopsShort ((short start word left).run source)) :
    Steady Nat (announcement limit room fault short) (announcement limit room fault short) := by
  have start : Steady Nat position position :=
    fun position bytes _ => .inr ⟨.ok position, position, bytes, rfl, rfl⟩
  have word : Steady Int32 int32 int32 := (steady_bytes 4).bind fun _ => steady_pure _
  refine start.bind fun start => word.bind fun announced => ?_
  by_cases refused : announced.toInt < 0 ∨ limit < announced.toInt.toNat
  · simp only [if_pos refused]
    exact steady_fail _ _
  · simp only [if_neg refused]
    intro position bytes more
    simp only [run_bind, run_remaining, Source.remaining?]
    by_cases few : bytes.length < room announced.toInt.toNat
    · rw [if_pos few]
      exact .inl (stops start announced bytes.length _)
    · have notFewer : ¬(bytes ++ more).length < room announced.toInt.toNat := by
        rw [List.length_append]
        omega
      rw [if_neg few, if_neg notFewer]
      exact .inr ⟨.ok announced.toInt.toNat, position, bytes, rfl, rfl⟩

end Steps

/-- A reader with more bytes behind its slice walks in step with itself. -/
theorem steady_simulation (limits : Limits) : Simulation Steady limits limits where
  give := steady_pure
  bind := Steady.bind
  fail := steady_fail
  within step steady := steady.within step
  position position bytes _ := .inr ⟨.ok position, position, bytes, rfl, rfl⟩
  bytes := steady_bytes
  skipBytes := steady_skipBytes
  payload := steady_bytes
  length := by
    rw [length_eq]
    exact steady_announcement _ _ _ _ fun _ _ _ _ => ⟨_, _, rfl, trivial⟩
  count leastSize := by
    rw [count_eq]
    exact steady_announcement _ _ _ _ fun _ _ _ _ => ⟨_, _, rfl, trivial⟩
  available step position bytes more :=
    step bytes.length (bytes ++ more).length (by simp) position bytes more
  spent _ position bytes _ :=
    .inl ⟨⟨.truncatedInput, position, []⟩, ⟨position, .slice bytes⟩, rfl, trivial⟩

/-- Skipping is steady. -/
theorem steady_skipWithin (limits : Limits) (levels : Nat) (tag : WireTag) :
    Steady Unit (skipWithin limits levels tag) (skipWithin limits levels tag) :=
  (steady_simulation limits).skipWithin_same levels tag

/-- Typed reading is steady. -/
theorem steady_valueWithin (schema : Schema) (limits : Limits) (levels : Nat) (type : DataType) :
    Steady Value (valueWithin schema limits levels type) (valueWithin schema limits levels type) :=
  (steady_simulation limits).valueWithin_same schema levels type

/-- The first so many bytes of a slice give a result by themselves: in front of any other bytes they
give this result and nothing but them is taken, and a reader of fewer of them stops for want of
input. -/
structure StandsAlone (decoder : Decoder α) (start : Nat) (bytes : Bytes) (result : α)
    (size : Nat) : Prop where
  present : size ≤ bytes.length
  anywhere : ∀ rest, decoder.run ⟨start, .slice (bytes.take size ++ rest)⟩ =
    (.ok result, ⟨start + size, .slice rest⟩)
  needed : ∀ fewer < size, StopsShort (decoder.run ⟨start, .slice (bytes.take fewer)⟩)

/-- What a steady decoder of a form takes from a slice gives its result by itself. If it were read
from a part of these bytes, it would have been read from this part of the slice as well and would
have left the others. -/
theorem Recognises.standsAlone {decoder : Decoder α} {form : Bytes → α → Prop}
    (recognised : Recognises decoder form) (steady : Steady α decoder decoder) {start : Nat}
    {bytes : Bytes} {result : α} {after : Source}
    (read : decoder.run ⟨start, .slice bytes⟩ = (.ok result, after)) :
    ∃ size, after = ⟨start + size, .slice (bytes.drop size)⟩ ∧
      decoder.StandsAlone start bytes result size := by
  obtain ⟨taken, rest, rfl, formed, rfl⟩ := recognised.form_of_slice read
  refine ⟨taken.length, by rw [List.drop_left], by simp, fun others => ?_, fun fewer less => ?_⟩
  · rw [List.take_left]
    exact recognised.run_slice formed start others
  · rw [List.take_append_of_le_length (Nat.le_of_lt less)]
    rcases steady start (taken.take fewer) (taken.drop fewer ++ rest) with short |
      ⟨outcome, place, left, -, readAlso⟩
    · exact short
    · rw [← List.append_assoc, List.take_append_drop, read] at readAlso
      simp only [Prod.mk.injEq, Source.mk.injEq, Feed.slice.injEq] at readAlso
      have sizes := congrArg List.length readAlso.2.2
      simp only [List.length_append, List.length_drop] at sizes
      omega

end Decoder

/-- Values delimit themselves, and so does what is skipped. Whatever is read from a slice is read
from its first bytes, which give the same value in front of any other bytes and are used up to the
last one; with any fewer of them, reading stops for want of input. The same holds for skipping by
any tag.

Proof: readers are steady, by induction on the levels: on a front of the bytes they either do what
they do on all of them or stop for want of input. A reader that used up exactly the bytes it was
given cannot do the former with fewer of them. -/
theorem values_delimit_themselves (limits : Limits) (start : Nat) (bytes : Bytes) :
    (∀ schema type value after,
      (Decoder.value schema limits type).run ⟨start, .slice bytes⟩ = (.ok value, after) →
        ∃ size, after = ⟨start + size, .slice (bytes.drop size)⟩ ∧
          (Decoder.value schema limits type).StandsAlone start bytes value size) ∧
    (∀ tag after, (Decoder.skipValue limits tag).run ⟨start, .slice bytes⟩ = (.ok (), after) →
      ∃ size, after = ⟨start + size, .slice (bytes.drop size)⟩ ∧
        (Decoder.skipValue limits tag).StandsAlone start bytes () size) := by
  constructor
  · intro schema type value after read
    exact (Decoder.recognises_valueWithin schema limits _ type).standsAlone
      (Decoder.steady_valueWithin schema limits _ type) read
  · intro tag after skipped
    exact (Decoder.recognises_skipWithin limits _ tag).standsAlone
      (Decoder.steady_skipWithin limits _ tag) skipped

/-- The wasteful report ends in front of its last byte: nothing but its 44 bytes is needed to read
it or to skip it, and all of them are. -/
theorem wasteful_report_delimits_itself :
    (Decoder.value reportSchema {} (.struct "report.Report")).StandsAlone 0 wastefulReportBytes
        report 44 ∧
      (Decoder.skipValue {} .struct).StandsAlone 0 wastefulReportBytes () 44 := by
  obtain ⟨values, skips⟩ := values_delimit_themselves {} 0 wastefulReportBytes
  constructor
  · obtain ⟨size, stopped, alone⟩ := values reportSchema (.struct "report.Report") report
      ⟨44, .slice [255]⟩ (by rfl)
    obtain rfl : 44 = size := by simpa using congrArg Source.position stopped
    exact alone
  · obtain ⟨size, stopped, alone⟩ := skips .struct ⟨44, .slice [255]⟩ (by rfl)
    obtain rfl : 44 = size := by simpa using congrArg Source.position stopped
    exact alone

end SchemaCodec
