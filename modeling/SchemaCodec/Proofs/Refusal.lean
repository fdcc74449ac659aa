import SchemaCodec.Proofs.Transmission

/-!
# Refusing what is too long

A value may hold a string, binary or container that is longer than a reader accepts. Reading what a
writer gives for it goes well up to the first such length and stops there, with an error about that
length and no other: nothing in front of it is misread, and nothing behind it is looked at.
-/

namespace SchemaCodec

namespace Decoder

/-- On a slice that starts with these bytes, a decoder stops at a length. -/
def Refuses (decoder : Decoder α) (bytes : Bytes) : Prop :=
  ∀ position rest, ∃ length limit offset path after,
    decoder.run ⟨position, .slice (bytes ++ rest)⟩ =
      (.error ⟨.negativeOrExcessiveLength length limit, offset, path⟩, after)

namespace Refuses

variable {α β : Type} {first : Decoder α} {next : α → Decoder β} {bytes : Bytes}

/-- What follows the bytes does not matter. -/
theorem append (refuses : Refuses first bytes) (more : Bytes) : Refuses first (bytes ++ more) := by
  intro position rest
  rw [List.append_assoc]
  exact refuses position (more ++ rest)

/-- A refusal is final. -/
theorem bind (refuses : Refuses first bytes) : Refuses (first >>= next) bytes := by
  intro position rest
  obtain ⟨length, limit, offset, path, after, refused⟩ := refuses position rest
  exact ⟨length, limit, offset, path, after, by rw [run_bind, refused]⟩

/-- What is read before the refusal is read as it is. -/
theorem behind {form : Bytes → α → Prop} {head tail : Bytes} {middle : α}
    (recognised : Recognises first form) (formed : form head middle)
    (refuses : Refuses (next middle) tail) : Refuses (first >>= next) (head ++ tail) := by
  intro position rest
  rw [List.append_assoc]
  obtain ⟨between, read, gives⟩ :=
    recognised.complete (Source.offers_slice position head (tail ++ rest)) formed
  obtain rfl := gives.ofSlice
  obtain ⟨length, limit, offset, path, after, refused⟩ := refuses (position + head.length) rest
  exact ⟨length, limit, offset, path, after, by rw [run_bind, read]; exact refused⟩

/-- The tag that is asked for is read before the refusal. -/
theorem behind_tag {next : Unit → Decoder β} {tag : WireTag} (refuses : Refuses (next ()) bytes) :
    Refuses (expectTag tag >>= next) (tag.code :: bytes) :=
  .behind (recognises_expectTag tag) (show [tag.code] = [tag.code] from rfl) refuses

/-- Asking for the position reads nothing. -/
theorem position_bind {next : Nat → Decoder β} (refuses : ∀ start, Refuses (next start) bytes) :
    Refuses (position >>= next) bytes := by
  intro start rest
  exact refuses start start rest

/-- A successful lookup reads nothing. -/
theorem lookup_bind {outcome : Except ε α} {found : α} (offset : Nat) (reason : ε → String)
    (known : outcome = .ok found) (refuses : Refuses (next found) bytes) :
    Refuses (lookup offset reason outcome >>= next) bytes := by
  subst known
  exact refuses

/-- An error gains a step of its path and stays what it is. -/
theorem within (step : PathStep) (refuses : Refuses first bytes) :
    Refuses (within step first) bytes := by
  intro position rest
  obtain ⟨length, limit, offset, path, after, refused⟩ := refuses position rest
  refine ⟨length, limit, offset, step :: path, after, ?_⟩
  unfold run Decoder.within
  rw [show first _ = _ from refused]
  rfl

end Refuses

/-- The refusal itself. -/
theorem refuses_fail (length : Int) (limit offset : Nat) (bytes : Bytes) :
    Refuses (fail (.negativeOrExcessiveLength length limit) offset : Decoder α) bytes := by
  intro position rest
  exact ⟨length, limit, offset, [], _, rfl⟩

/-- A number that is announced is there to be refused. -/
theorem refuses_announced {next : Int32 → Decoder α} {size : Nat} (small : size < 0x80000000)
    (refuses : ∀ word : Int32, word.toInt.toNat = size → Refuses (next word) []) :
    Refuses (int32 >>= next) (BigEndian.encode 4 size) := by
  obtain ⟨nonneg, same⟩ := toInt_ofNat_toNat small
  have plain : BigEndian.encode 4 size = encodeInt32 (Int32.ofNat size) := by
    rw [(encodeInt32_of_nonneg nonneg).1, same]
  have behind : Refuses (int32 >>= next) (BigEndian.encode 4 size ++ []) :=
    .behind recognises_int32 plain (refuses _ same)
  rwa [List.append_nil] at behind

/-- A length beyond the limit is refused. -/
theorem refuses_length {limits : Limits} {size : Nat} (small : size < 0x80000000)
    (long : limits.stringLength < size) :
    Refuses (length limits) (BigEndian.encode 4 size) := by
  refine .position_bind fun start => refuses_announced small fun word same => ?_
  rw [if_pos (.inr (by omega))]
  exact refuses_fail _ _ _ _

/-- A count beyond the limit is refused. -/
theorem refuses_count {limits : Limits} {size : Nat} (leastSize : Nat) (small : size < 0x80000000)
    (long : limits.containerLength < size) :
    Refuses (count limits leastSize) (BigEndian.encode 4 size) := by
  refine .position_bind fun start => refuses_announced small fun word same => ?_
  rw [if_pos (.inr (by omega))]
  exact refuses_fail _ _ _ _

/-- Of items in a row, those before the first refusal are read. -/
theorem refuses_collect {item : Nat → Decoder α} {form : Bytes → α → Prop} {pieces : List Bytes}
    (recognised : ∀ position, Recognises (item position) form)
    (each : ∀ piece ∈ pieces,
      (∃ result, form piece result) ∨ ∀ position, Refuses (item position) piece)
    (one : ∃ piece ∈ pieces, ∀ position, Refuses (item position) piece) (position : Nat) :
    Refuses (collect item pieces.length position) pieces.flatten := by
  induction pieces generalizing position with
  | nil => simp at one
  | cons piece pieces inductionHypothesis =>
    rw [List.length_cons, List.flatten_cons, collect]
    by_cases here : ∀ position, Refuses (item position) piece
    · exact ((here position).append _).bind
    · obtain ⟨result, formed⟩ := (each piece List.mem_cons_self).resolve_right here
      have oneBehind := ((List.exists_mem_cons_iff ..).mp one).resolve_left here
      refine .behind (recognised position) formed (.bind ?_)
      refine inductionHypothesis ?_ oneBehind (position + 1)
      intro piece there
      exact each piece (List.mem_cons_of_mem _ there)

/-- A count within the limit is accepted on a slice that has the bytes that it calls for.

Proof: the four bytes are those of the number as an integer with a sign, since it is small. It is
neither negative nor above the limit, and what is left on the slice is the body, which is long
enough. -/
theorem count_of_enough {limits : Limits} {leastSize size : Nat} {body : Bytes}
    (small : size < 0x80000000) (within : size ≤ limits.containerLength)
    (enough : size * leastSize ≤ body.length) (position : Nat) :
    (count limits leastSize).run ⟨position, .slice (BigEndian.encode 4 size ++ body)⟩ =
      (.ok size, ⟨position + 4, .slice body⟩) := by
  obtain ⟨nonneg, same⟩ := toInt_ofNat_toNat small
  have plain : BigEndian.encode 4 size = encodeInt32 (Int32.ofNat size) := by
    rw [(encodeInt32_of_nonneg nonneg).1, same]
  obtain ⟨after, read, gives⟩ :=
    recognises_int32.complete (Source.offers_slice position _ body) plain
  obtain rfl := gives.ofSlice
  rw [length_count] at read
  have accepted := (announces_count limits leastSize).complete read nonneg
    (by rwa [same]) (by
      intro left known
      rw [same, remaining_eq_unread known]
      exact enough)
  rw [same] at accepted
  exact accepted

/-- Items behind their count, where the count or one of the items is refused. The check against the
bytes left does not come in between: each item takes at least its least size. -/
theorem refuses_counted {item : Nat → Decoder α} {form : Bytes → α → Prop} {pieces : List Bytes}
    {limits : Limits} {leastSize : Nat} {next : List α → Decoder β}
    (recognised : ∀ position, Recognises (item position) form)
    (small : pieces.length < 0x80000000) (large : ∀ piece ∈ pieces, leastSize ≤ piece.length)
    (each : ∀ piece ∈ pieces,
      (∃ result, form piece result) ∨ ∀ position, Refuses (item position) piece)
    (long : limits.containerLength < pieces.length ∨
      ∃ piece ∈ pieces, ∀ position, Refuses (item position) piece) :
    Refuses (do
      let size ← count limits leastSize
      let items ← collect item size 0
      next items) (BigEndian.encode 4 pieces.length ++ pieces.flatten) := by
  by_cases many : limits.containerLength < pieces.length
  · exact ((refuses_count leastSize small many).append _).bind
  · have refuses := refuses_collect recognised each (long.resolve_left many) 0
    have enough : pieces.length * leastSize ≤ pieces.flatten.length :=
      length_mul_le_flatten (List.forall₂_same.mpr large)
    intro position rest
    obtain ⟨length, limit, offset, path, after, refused⟩ := refuses.bind (position + 4) rest
    refine ⟨length, limit, offset, path, after, ?_⟩
    rw [List.append_assoc, run_bind, count_of_enough small (Nat.le_of_not_lt many)
      (by rw [List.length_append]; omega)]
    exact refused

section Fields

variable {field : FieldHeader → Decoder (Option α)}
  {form : WireTag → Int16 → Bytes → Option α → Prop}

/-- A field, header included, that is read. -/
def PieceRead (form : WireTag → Int16 → Bytes → Option α → Prop) (piece : Bytes) : Prop :=
  ∃ tag id body found, tag ≠ .stop ∧ piece = tag.code :: (encodeInt16 id ++ body) ∧
    form tag id body found

/-- A field, header included, that is refused. -/
def PieceRefused (field : FieldHeader → Decoder (Option α)) (piece : Bytes) : Prop :=
  ∃ tag id body, tag ≠ .stop ∧ piece = tag.code :: (encodeInt16 id ++ body) ∧
    ∀ offset, Refuses (field ⟨tag, id, offset⟩) body

/-- A header is read before what is refused behind it. -/
theorem refuses_behind_header {next : Option FieldHeader → Decoder β} {tag : WireTag} {id : Int16}
    {tail : Bytes} (counted : tag ≠ .stop)
    (refuses : ∀ offset, Refuses (next (some ⟨tag, id, offset⟩)) tail) :
    Refuses (fieldHeader >>= next) (tag.code :: (encodeInt16 id ++ tail)) := by
  rw [fieldHeader, bind_assoc]
  refine .position_bind fun start => ?_
  have headed : HeaderAt start (tag.code :: encodeInt16 id) (some ⟨tag, id, start⟩) :=
    ⟨rfl, counted, rfl⟩
  exact .behind (recognises_headerAt start) headed (refuses start)

/-- Of fields in a row, those before the first refusal are read.

Proof: by induction on the fields. The first one is refused, or it is read and the refusal lies
behind it, where as many attempts are left as there are fields. -/
theorem refuses_fieldsWithin {pieces : List Bytes} {attempts : Nat}
    (recognised : ∀ header, Recognises (field header) (form header.tag header.id))
    (each : ∀ piece ∈ pieces, PieceRead form piece ∨ PieceRefused field piece)
    (one : ∃ piece ∈ pieces, PieceRefused field piece) (enough : pieces.length ≤ attempts) :
    Refuses (fieldsWithin field attempts) pieces.flatten := by
  induction pieces generalizing attempts with
  | nil => simp at one
  | cons piece pieces inductionHypothesis =>
    obtain ⟨attempts, rfl⟩ : ∃ fewer, attempts = fewer + 1 :=
      ⟨attempts - 1, by rw [List.length_cons] at enough; omega⟩
    rw [List.flatten_cons, fieldsWithin]
    by_cases here : PieceRefused field piece
    · obtain ⟨tag, id, body, counted, rfl, refuses⟩ := here
      rw [List.cons_append, List.append_assoc]
      exact refuses_behind_header counted fun offset => ((refuses offset).append _).bind
    · obtain ⟨tag, id, body, found, counted, rfl, formed⟩ :=
        (each piece List.mem_cons_self).resolve_right here
      have oneBehind := ((List.exists_mem_cons_iff ..).mp one).resolve_left here
      have rest := inductionHypothesis
        (fun piece there => each piece (List.mem_cons_of_mem _ there)) oneBehind
        (Nat.le_of_succ_le_succ enough)
      rw [List.cons_append, List.append_assoc]
      exact refuses_behind_header counted fun offset =>
        .behind (recognised ⟨tag, id, offset⟩) formed rest.bind

/-- A field sequence in which a field is refused. -/
theorem refuses_fields {pieces : List Bytes}
    (recognised : ∀ header, Recognises (field header) (form header.tag header.id))
    (each : ∀ piece ∈ pieces, PieceRead form piece ∨ PieceRefused field piece)
    (one : ∃ piece ∈ pieces, PieceRefused field piece) :
    Refuses (fields field) pieces.flatten := by
  intro position rest
  have nonempty : ∀ piece ∈ pieces, 1 ≤ piece.length := by
    intro piece member
    rcases each piece member with ⟨tag, id, body, found, -, rfl, -⟩ | ⟨tag, id, body, -, rfl, -⟩ <;>
      exact Nat.succ_le_succ (Nat.zero_le _)
  have few := length_mul_le_flatten (List.forall₂_same.mpr nonempty)
  have enough : pieces.length ≤ (pieces.flatten ++ rest).length + 1 := by
    rw [List.length_append]
    omega
  exact refuses_fieldsWithin recognised each one enough position rest

end Fields

end Decoder

open Decoder (Refuses Recognises)
open Schema (FieldWritten inOrder)

/-- Where something does not hold throughout a container, it fails at the container or inside. -/
theorem fails_here_or_inside {here : Prop} {holds : α → Prop} {parts : List α}
    (fails : ¬(here ∧ ∀ part ∈ parts, holds part)) : ¬here ∨ ∃ part ∈ parts, ¬holds part := by
  by_cases fine : here
  · refine .inr ?_
    by_contra none
    push Not at none
    exact fails ⟨fine, none⟩
  · exact .inl fine

section Values

variable {schema : Schema} {limits : Limits} {limit levels : Nat}

/-- The items of a list or set, where there are too many of them or one of them is refused. -/
theorem refuses_sequence {element : DataType} {tag : WireTag} {pieces : List Bytes}
    {item : Nat → Decoder Value} {convert : List Value → Value} {form : Bytes → Value → Prop}
    (recognised : ∀ position, Recognises (item position) form)
    (tagged : schema.wireTag element = .ok tag) (small : pieces.length < 0x80000000)
    (large : ∀ piece ∈ pieces, tag.leastSize ≤ piece.length)
    (each : ∀ piece ∈ pieces,
      (∃ result, form piece result) ∨ ∀ position, Refuses (item position) piece)
    (long : limits.containerLength < pieces.length ∨
      ∃ piece ∈ pieces, ∀ position, Refuses (item position) piece) :
    Refuses (do
      let size ← Decoder.sequenceHeader schema limits element
      let items ← Decoder.collect item size 0
      pure (convert items))
      (tag.code :: (BigEndian.encode 4 pieces.length ++ pieces.flatten)) := by
  simp only [Decoder.sequenceHeader, bind_assoc]
  refine .position_bind fun start => .lookup_bind start id tagged ?_
  exact .behind_tag (Decoder.refuses_counted recognised small large each long)

/-- An entry in which the key is refused, or the value behind a key that is read. -/
theorem refuses_entry {first second : Decoder Value} {keyForm : Bytes → Value → Prop}
    {head tail : Bytes} (recognised : Recognises first keyForm)
    (refused : Refuses first head ∨ (∃ key, keyForm head key) ∧ Refuses second tail) :
    Refuses (do
      let key ← first
      let value ← second
      pure (key, value)) (head ++ tail) := by
  rcases refused with refuses | ⟨⟨key, formed⟩, refuses⟩
  · exact (refuses.append tail).bind
  · exact .behind recognised formed refuses.bind

/-- A declared field is refused when its value is. -/
theorem refuses_declaredField {declared : List Field} {id : Int16} {found : Field} {tag : WireTag}
    {body : Bytes} {read : DataType → Decoder Value} {skip : WireTag → Decoder Unit}
    (known : fieldById? declared id = some found) (tagged : schema.wireTag found.type = .ok tag)
    (refuses : Refuses (read found.type) body) (offset : Nat) :
    Refuses (Decoder.declaredField schema declared read skip ⟨tag, id, offset⟩) body := by
  unfold Decoder.declaredField
  simp only [known]
  refine .lookup_bind offset _ tagged ?_
  rw [if_pos rfl]
  exact (refuses.within _).bind

/-- Whether a part is within the limits decides whether it is read or refused. -/
def ReadOrRefused (schema : Schema) (limits : Limits) (levels : Nat) (type : DataType)
    (bytes : Bytes) (part : Value) : Prop :=
  (part.Within limits ∧ ∃ result, Denotes schema limits levels type bytes result) ∨
    (¬part.Within limits ∧ Refuses (Decoder.valueWithin schema limits levels type) bytes)

/-- A part that is not within the limits is refused. -/
theorem ReadOrRefused.refuses {type : DataType} {bytes : Bytes} {part : Value}
    (decided : ReadOrRefused schema limits levels type bytes part)
    (long : ¬part.Within limits) :
    Refuses (Decoder.valueWithin schema limits levels type) bytes := by
  rcases decided with ⟨within, -⟩ | ⟨-, refuses⟩
  · exact absurd within long
  · exact refuses

/-- A part is read or refused. -/
theorem ReadOrRefused.either {type : DataType} {bytes : Bytes} {part : Value}
    (decided : ReadOrRefused schema limits levels type bytes part) :
    (∃ result, Denotes schema limits levels type bytes result) ∨
      Refuses (Decoder.valueWithin schema limits levels type) bytes :=
  decided.imp And.right And.right

/-- What is written for a field is read or refused as the value of the field is. -/
theorem readOrRefused_fieldWritten {declared : List Field} {piece : Bytes}
    {field : Int16 × Value} {skip : WireTag → Decoder Unit}
    (decided : ∀ {type bytes part}, Sent schema (fun _ => True) limit levels type bytes part →
      ReadOrRefused schema limits levels type bytes part)
    (written : FieldWritten schema declared (Sent schema (fun _ => True) limit levels)
      piece field) :
    (field.2.Within limits ∧ Decoder.PieceRead (FieldForm schema declared
        (Denotes schema limits levels) (Skippable limits levels)) piece) ∨
      (¬field.2.Within limits ∧ Decoder.PieceRefused (Decoder.declaredField schema declared
        (Decoder.valueWithin schema limits levels) skip) piece) := by
  obtain ⟨found, tag, body, known, tagged, sent, rfl⟩ := written
  have counted := ne_stop_of_wireTag tagged
  refine (decided sent).imp (And.imp_right ?_) (And.imp_right ?_)
  · rintro ⟨result, denotes⟩
    refine ⟨tag, field.1, body, some result, counted, rfl, ?_⟩
    simp only [FieldForm, known]
    exact ⟨tagged, result, denotes, rfl⟩
  · intro refuses
    exact ⟨tag, field.1, body, counted, rfl, refuses_declaredField known tagged refuses⟩

/-- What is written for fields is refused when the value of one of them is not within the limits. -/
theorem refuses_fieldsWritten {declared : List Field} {pieces : List Bytes}
    {fields : List (Int16 × Value)}
    (decided : ∀ {type bytes part}, Sent schema (fun _ => True) limit levels type bytes part →
      ReadOrRefused schema limits levels type bytes part)
    (each : List.Forall₂
      (FieldWritten schema declared (Sent schema (fun _ => True) limit levels)) pieces fields)
    (long : ∃ field ∈ fields, ¬field.2.Within limits) :
    Refuses (Decoder.declaredFields schema declared (Decoder.valueWithin schema limits levels)
      (Decoder.skipWithin limits levels)) (pieces.flatten ++ [WireTag.stop.code]) := by
  have recognised := @Decoder.recognises_declaredField schema _ _ _ _
    (Decoder.recognises_valueWithin schema limits levels)
    (Decoder.recognises_skipWithin limits levels) declared
  refine (Decoder.refuses_fields recognised ?_ ?_).append _
  · refine Pairing.forall_left each fun written => ?_
    exact (readOrRefused_fieldWritten decided written).imp And.right And.right
  · obtain ⟨field, member, notWithin⟩ := long
    obtain ⟨piece, present, written⟩ := Pairing.exists_of_mem_right each member
    refine ⟨piece, present, ?_⟩
    rcases readOrRefused_fieldWritten decided written with ⟨within, -⟩ | ⟨-, refused⟩
    · exact absurd within notWithin
    · exact refused

/-- What is written for the items of a list or set is refused when there are too many of them or
one of them is not within the limits. -/
theorem refuses_items {element : DataType} {tag : WireTag} {pieces : List Bytes}
    {items : List Value} {convert : List Value → Value}
    (recognised : ∀ type, Recognises (Decoder.valueWithin schema limits levels type)
      (Denotes schema limits levels type))
    (decided : ∀ {type bytes part}, Sent schema (fun _ => True) limit levels type bytes part →
      ReadOrRefused schema limits levels type bytes part)
    (tagged : schema.wireTag element = .ok tag) (small : items.length < 0x80000000)
    (each : List.Forall₂ (Sent schema (fun _ => True) limit levels element) pieces items)
    (long : ¬items.length ≤ limits.containerLength ∨ ∃ item ∈ items, ¬item.Within limits) :
    Refuses (do
      let size ← Decoder.sequenceHeader schema limits element
      let items ← Decoder.collect (fun position =>
        Decoder.within (.index position) (Decoder.valueWithin schema limits levels element)) size 0
      pure (convert items))
      (tag.code :: (BigEndian.encode 4 items.length ++ pieces.flatten)) := by
  rw [← each.length_eq] at small ⊢
  refine refuses_sequence (fun position => (recognised element).within (.index position)) tagged
    small ?_ ?_ ?_
  · exact Pairing.forall_left each fun sent => Schema.leastSize_le_of_written sent.written tagged
  · exact Pairing.forall_left each fun sent =>
      (decided sent).either.imp_right fun refuses position => refuses.within _
  · rcases long with many | ⟨item, member, notWithin⟩
    · exact .inl (by rw [each.length_eq]; exact Nat.lt_of_not_le many)
    · obtain ⟨piece, present, sent⟩ := Pairing.exists_of_mem_right each member
      exact .inr ⟨piece, present, fun position => ((decided sent).refuses notWithin).within _⟩

/-- What is written for the entries of a map is refused when there are too many of them or one of
them has a key or a value that is not within the limits.

Proof: pieces are large enough for the count to pass unless there are too many. Each entry is read
or refused, by its key or else by its value, and one that is not within the limits is refused,
whichever of both it is. -/
theorem refuses_entries {keyType valueType : DataType} {keyTag valueTag : WireTag}
    {pieces : List Bytes} {entries : List (Value × Value)}
    {convert : List (Value × Value) → Value}
    (recognised : ∀ type, Recognises (Decoder.valueWithin schema limits levels type)
      (Denotes schema limits levels type))
    (decided : ∀ {type bytes part}, Sent schema (fun _ => True) limit levels type bytes part →
      ReadOrRefused schema limits levels type bytes part)
    (keyTagged : schema.wireTag keyType = .ok keyTag)
    (valueTagged : schema.wireTag valueType = .ok valueTag) (small : entries.length < 0x80000000)
    (each : List.Forall₂ (fun piece entry =>
      Joined (Sent schema (fun _ => True) limit levels keyType · entry.1)
        (Sent schema (fun _ => True) limit levels valueType · entry.2) piece) pieces entries)
    (long : ¬entries.length ≤ limits.containerLength ∨
      ∃ entry ∈ entries, ¬(entry.1.Within limits ∧ entry.2.Within limits)) :
    Refuses (do
      let size ← Decoder.count limits (keyTag.leastSize + valueTag.leastSize)
      let entries ← Decoder.collect (fun position => do
        let key ← Decoder.within (.key position) (Decoder.valueWithin schema limits levels keyType)
        let value ← Decoder.within (.value position)
          (Decoder.valueWithin schema limits levels valueType)
        pure (key, value)) size 0
      pure (convert entries))
      (BigEndian.encode 4 entries.length ++ pieces.flatten) := by
  have readKey (position : Nat) := (recognised keyType).within (.key position)
  have readValue (position : Nat) := (recognised valueType).within (.value position)
  rw [← each.length_eq] at small ⊢
  refine Decoder.refuses_counted (fun position =>
    Decoder.recognises_entry (readKey position) (readValue position)) small ?large ?either ?long
  case large =>
    refine Pairing.forall_left each fun joined => joined.add_le ?_ ?_
    · exact fun _ sent => Schema.leastSize_le_of_written sent.written keyTagged
    · exact fun _ sent => Schema.leastSize_le_of_written sent.written valueTagged
  case either =>
    refine Pairing.forall_left each fun joined => ?_
    obtain ⟨head, tail, rfl, keySent, valueSent⟩ := joined
    rcases (decided keySent).either with ⟨key, keyDenotes⟩ | keyRefused
    · rcases (decided valueSent).either with ⟨value, valueDenotes⟩ | valueRefused
      · exact .inl ⟨(key, value), head, tail, rfl, keyDenotes, valueDenotes⟩
      · exact .inr fun position => refuses_entry (readKey position)
          (.inr ⟨⟨key, keyDenotes⟩, valueRefused.within _⟩)
    · exact .inr fun position => refuses_entry (readKey position) (.inl (keyRefused.within _))
  case long =>
    rcases long with many | ⟨entry, member, notWithin⟩
    · exact .inl (by rw [each.length_eq]; exact Nat.lt_of_not_le many)
    · obtain ⟨piece, present, head, tail, rfl, keySent, valueSent⟩ :=
        Pairing.exists_of_mem_right each member
      refine .inr ⟨_, present, fun position => refuses_entry (readKey position) ?_⟩
      rcases decided keySent with ⟨keyWithin, keyRead⟩ | ⟨-, keyRefused⟩
      · have valueLong : ¬entry.2.Within limits := fun fine => notWithin ⟨keyWithin, fine⟩
        exact .inr ⟨keyRead, ((decided valueSent).refuses valueLong).within _⟩
      · exact .inl (keyRefused.within _)

/-- What is written for a value that is not within the limits of a reader with the same schema is
refused by that reader. By induction on the levels that it follows, every part of the value is
either within the limits, and then denotes something, or refused in turn. -/
theorem refuses_long (distinct : schema.DistinctIds) {type : DataType} {bytes : Bytes}
    {value : Value} (sent : Sent schema (fun _ => True) limit levels type bytes value)
    (long : ¬value.Within limits) :
    Refuses (Decoder.valueWithin schema limits levels type) bytes := by
  induction levels generalizing type bytes value with
  | zero => exact absurd sent Sent.not_zero
  | succ levels inductionHypothesis =>
    have recognised := Decoder.recognises_valueWithin schema limits levels
    have decided {type : DataType} {bytes : Bytes} {part : Value}
        (sent : Sent schema (fun _ => True) limit levels type bytes part) :
        ReadOrRefused schema limits levels type bytes part := by
      by_cases within : part.Within limits
      · obtain ⟨restored, denotes, -⟩ :=
          distinct.denotes ⟨sent.fits, sent.written, sent.ordered, within⟩
        exact .inl ⟨within, restored, denotes⟩
      · exact .inr ⟨within, inductionHypothesis sent within⟩
    have ascends := sent.ordered.here
    obtain ⟨behind, followed, writes, fits⟩ := sent.layer
    refine .position_bind fun start => .lookup_bind start LookupError.message followed ?_
    cases value with
    | string text =>
      obtain ⟨rfl, small, rfl⟩ := writes
      have tooLong : limits.stringLength < (Utf8.encode text).length := by
        simpa [Value.Within, Value.Throughout, Value.parts, Value.LengthWithin] using long
      exact (((Decoder.refuses_length small tooLong).append _).bind).bind
    | binary held =>
      obtain ⟨rfl, small, rfl⟩ := writes
      have tooLong : limits.stringLength < held.length := by
        simpa [Value.Within, Value.Throughout, Value.parts, Value.LengthWithin] using long
      exact (((Decoder.refuses_length small tooLong).append _).bind).bind
    | list items =>
      obtain ⟨element, tag, body, rfl, tagged, ⟨small, pieces, each, rfl⟩, rfl⟩ := writes
      have tooLong := fails_here_or_inside (mt Value.throughout_list.mpr long)
      exact refuses_items recognised decided tagged small each tooLong
    | set elements =>
      obtain ⟨element, tag, body, rfl, tagged, ⟨small, pieces, each, rfl⟩, rfl⟩ := writes
      have tooLong := fails_here_or_inside (mt Value.throughout_set.mpr long)
      exact refuses_items recognised decided tagged small each tooLong
    | map entries =>
      obtain ⟨keyType, valueType, keyTag, valueTag, body, rfl, keyTagged, valueTagged,
        ⟨small, pieces, each, rfl⟩, rfl⟩ := writes
      have tooLong := fails_here_or_inside (mt Value.throughout_map.mpr long)
      exact .lookup_bind start id keyTagged (.lookup_bind start id valueTagged
        (.behind_tag (.behind_tag
          (refuses_entries recognised decided keyTagged valueTagged small each tooLong))))
    | struct fields =>
      obtain ⟨name, declared, pieces, rfl, named, each, rfl⟩ := writes
      obtain ⟨_, _, same, sameNamed, -, isDeclared⟩ := fits
      obtain rfl := DataType.struct.inj same
      obtain rfl := Except.ok.inj (named.symm.trans sameNamed)
      obtain ⟨field, member, notWithin⟩ :=
        (fails_here_or_inside (mt Value.throughout_struct.mpr long)).resolve_left
          (not_not_intro trivial)
      have present : field ∈ inOrder declared.fields fields := by
        refine (Schema.inOrder_perm (distinct named) (Value.Fields.nodup_of_ascending ascends)
          fun field member => ?_).mem_iff.mpr member
        obtain ⟨found, known, -⟩ := isDeclared field member
        exact ⟨found, known⟩
      refine .lookup_bind start LookupError.message named (.bind ?_)
      exact refuses_fieldsWritten decided each ⟨field, present, notWithin⟩
    | union id held =>
      obtain ⟨name, declared, piece, rfl, named, written, rfl⟩ := writes
      have heldLong : ¬held.Within limits := fun fine =>
        long (Value.throughout_union.mpr ⟨trivial, fine⟩)
      refine .lookup_bind start LookupError.message named (.bind ?_)
      have refused := refuses_fieldsWritten decided (.cons written .nil)
        ⟨(id, held), List.mem_singleton_self _, heldLong⟩
      rwa [List.flatten_singleton] at refused
    | _ =>
      exact absurd (by simp [Value.Within, Value.Throughout, Value.parts, Value.LengthWithin]) long

end Values

end SchemaCodec
