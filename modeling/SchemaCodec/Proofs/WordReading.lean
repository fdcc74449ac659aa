import SchemaCodec.Proofs.ParserSteps
import SchemaCodec.Proofs.WordLayout

/-!
# Reading words

A parser of the grammar reads from the first of some words up to the next one or the gap in front of
it. It refuses words of another kind, which mostly shows at their first character.
-/

namespace SchemaCodec

open SchemaCodec.Parser SchemaCodec.Grammar

variable {α β : Type} {words : List Word} {holds : α → Prop} {after : Cursor → Prop}
  {fault : Option ParseFault} {cursor : Cursor}

/-! ## The first character of a word -/

/-- No word is empty.

Proof: by the kind of the word. Names and scopes are not empty by their own conditions, a number has
at least one digit, and marks and quotes have their own characters. -/
theorem Word.chars_ne_nil (word : Word) : word.chars ≠ [] := by
  cases word with
  | mark punctuation => simp [chars]
  | name text proper =>
    simp only [isNameText, Bool.and_eq_true, Bool.not_eq_true', List.isEmpty_eq_false_iff] at proper
    exact proper.1
  | scope text proper =>
    simp only [isScopeText, Bool.or_eq_true, decide_eq_true_eq, Bool.and_eq_true, Bool.not_eq_true',
      List.isEmpty_eq_false_iff] at proper
    rcases proper with star | ⟨nonempty, -⟩
    · simp [chars, star]
    · exact nonempty
  | number value =>
    rw [chars, toList_toString]
    exact List.append_ne_nil_of_right_ne_nil _ Nat.toDigits_ne_nil
  | quoted quote content => simp [chars]

/-- An integer starts with a digit or a sign. -/
theorem SpellsInt.starts {chars : List Char} {number : Int} (spells : SpellsInt chars number) :
    ∃ first more, chars = first :: more ∧ (first.isDigit = true ∨ first ∈ ['-', '+']) := by
  cases spells with
  | unsigned magnitude =>
    obtain ⟨first, more, rfl, isDigit⟩ := magnitude.exists_digit
    exact ⟨first, more, rfl, .inl isDigit⟩
  | plus magnitude => exact ⟨'+', _, rfl, .inr (by decide)⟩
  | minus magnitude => exact ⟨'-', _, rfl, .inr (by decide)⟩

namespace Word.Spelled

variable {word : Word} {next : Option Word} {spelling : List Char} {own : Option ParseFault}

/-- No spelling of a word is empty. -/
theorem ne_nil (spelled : word.Spelled next spelling own) : spelling ≠ [] := by
  cases spelled with
  | plainly word => exact word.chars_ne_nil
  | integer noKey spells =>
    obtain ⟨first, more, rfl, -⟩ := spells.starts
    exact List.cons_ne_nil _ _
  | misfit noKey spells unfit =>
    obtain ⟨first, more, rfl, -⟩ := spells.starts
    exact List.cons_ne_nil _ _

/-- A word that is no mark and no text in quotes starts with a character of a name, a sign or a
star.

Proof: by how the word is spelled. A mark and a quote start with their own character, a name with
one of a name, an integer with a digit or a sign, and a scope with a star or as a name does. -/
theorem starts (spelled : word.Spelled next spelling own) : ∀ char ∈ spelling.head?,
    (∃ punctuation, word = .mark punctuation ∧ char = punctuation.char) ∨
      (∃ quote content, word = .quoted quote content ∧ char = quote.char) ∨
        Lexer.isNameChar char = true ∨ char ∈ ['-', '+', '*'] := by
  have integer : ∀ {chars number}, SpellsInt chars number → ∀ char ∈ chars.head?,
      Lexer.isNameChar char = true ∨ char ∈ ['-', '+', '*'] := by
    intro chars number spells char isFirst
    obtain ⟨first, more, rfl, digit | sign⟩ := spells.starts
    · cases isFirst
      exact .inl (isNameChar_of_isDigit digit)
    · cases isFirst
      exact .inr (List.mem_append_left ['*'] sign)
  intro char isFirst
  cases spelled with
  | integer noKey spells => exact .inr (.inr (integer spells char isFirst))
  | misfit noKey spells unfit => exact .inr (.inr (integer spells char isFirst))
  | plainly word =>
    have inside : char ∈ word.chars := List.mem_of_mem_head? isFirst
    cases word with
    | mark punctuation =>
      cases isFirst
      exact .inl ⟨punctuation, rfl, rfl⟩
    | name text proper =>
      exact .inr (.inr (.inl (isNameChar_of_isNameText proper char inside)))
    | scope text proper =>
      simp only [isScopeText, Bool.or_eq_true, decide_eq_true_eq, Bool.and_eq_true,
        List.all_eq_true] at proper
      rcases proper with star | ⟨-, classes⟩
      · rw [chars, star] at inside
        obtain rfl := List.mem_singleton.mp inside
        exact .inr (.inr (.inr (by decide)))
      · rcases classes char inside with isName | rfl
        · exact .inr (.inr (.inl isName))
        · exact .inr (.inr (.inr (by decide)))
    | number value => exact .inr (.inr (integer (spellsInt_toString value) char isFirst))
    | quoted quote content =>
      cases isFirst
      exact .inr (.inl ⟨quote, content, rfl, rfl⟩)

/-- No word starts like a gap. -/
theorem not_isGapStart (spelled : word.Spelled next spelling own) :
    ∀ char ∈ spelling.head?, isGapStart char = false := by
  intro char isFirst
  rcases spelled.starts char isFirst with
    ⟨punctuation, rfl, rfl⟩ | ⟨quote, content, rfl, rfl⟩ | isName | special
  · cases punctuation <;> decide
  · cases quote <;> decide
  · exact not_isGapStart_of_isNameChar isName
  · have outside : ['-', '+', '*'].any isGapStart = false := by decide
    exact Bool.eq_false_iff.mpr (List.any_eq_false.mp outside char special)

/-- No other word starts like a mark. -/
theorem starts_other {punctuation : Mark} (spelled : word.Spelled next spelling own)
    (other : word ≠ .mark punctuation) : ∀ char ∈ spelling.head?, char ≠ punctuation.char := by
  intro char isFirst
  rcases spelled.starts char isFirst with
    ⟨second, rfl, rfl⟩ | ⟨quote, content, rfl, rfl⟩ | isName | special
  · exact fun same => other (congrArg Word.mark (Mark.char_injective same))
  · cases quote <;> cases punctuation <;> decide
  · rintro rfl
    revert isName
    cases punctuation <;> decide
  · rintro rfl
    revert special
    cases punctuation <;> decide

/-- No other word starts like a text in quotes. -/
theorem starts_unquoted (spelled : word.Spelled next spelling own)
    (other : ∀ quote content, word ≠ .quoted quote content) :
    ∀ char ∈ spelling.head?, isQuote char = false := by
  intro char isFirst
  rcases spelled.starts char isFirst with
    ⟨punctuation, rfl, rfl⟩ | ⟨quote, content, rfl, -⟩ | isName | special
  · cases punctuation <;> decide
  · exact absurd rfl (other quote content)
  · exact not_isQuote_of_isNameChar isName
  · have outside : ['-', '+', '*'].any isQuote = false := by decide
    exact Bool.eq_false_iff.mpr (List.any_eq_false.mp outside char special)

end Word.Spelled

/-- Where no spelling of the first word starts with a character of a class, none comes next. -/
theorem Facing.stops {lacking : Char → Bool} {word : Word}
    (facing : Facing fault (word :: words) cursor)
    (lacks : ∀ spelling own, word.Spelled words.head? spelling own →
      ∀ char ∈ spelling.head?, lacking char = false) : StopsAt lacking cursor := by
  obtain ⟨spelling, behind, own, same, spelled, -⟩ := facing.exists_spelling
  intro char isFirst
  apply lacks spelling own spelled
  obtain ⟨first, more, rfl⟩ := List.exists_cons_of_ne_nil spelled.ne_nil
  rw [same] at isFirst
  exact isFirst

/-- A word with one spelling starts with its own first character. -/
theorem Facing.stops_plain {lacking : Char → Bool} {word : Word}
    (facing : Facing fault (word :: words) cursor) (plain : word.isNumber = false)
    (lacks : ∀ char ∈ word.chars.head?, lacking char = false) : StopsAt lacking cursor := by
  apply facing.stops
  rintro spelling own (_ | _ | _)
  · exact lacks
  · cases plain
  · cases plain

/-- At the end of a text no character comes next. -/
theorem Facing.stops_nil {lacking : Char → Bool} (facing : Facing fault [] cursor) :
    StopsAt lacking cursor := by
  unfold StopsAt
  rw [facing.rest_eq_nil]
  nofun

/-- No words start like a gap. -/
theorem Facing.stops_isGapStart (facing : Facing fault words cursor) :
    StopsAt isGapStart cursor := by
  cases words with
  | nil => exact facing.stops_nil
  | cons word words => exact facing.stops fun _ _ spelled => spelled.not_isGapStart

/-- What stands at a mark is no name, no number and no text in quotes. -/
theorem Facing.stops_mark {punctuation : Mark} {lacking : Char → Bool}
    (facing : Facing fault (.mark punctuation :: words) cursor)
    (lacks : lacking punctuation.char = false) : StopsAt lacking cursor :=
  facing.stops_plain rfl fun _ isFirst => by
    cases isFirst
    exact lacks

/-- At a name, a class stops that has none of the characters that names start with. -/
theorem Facing.stops_name {text : String} {proper : isNameText text = true}
    {lacking : Char → Bool} (facing : Facing fault (.name text proper :: words) cursor)
    (isName : isIdentifier text = true)
    (lacks : ∀ char, Lexer.isNameStart char = true → lacking char = false) :
    StopsAt lacking cursor := by
  apply facing.stops_plain rfl
  intro char isFirst
  unfold isIdentifier at isName
  rw [Word.chars] at isFirst
  split at isName
  case h_2 => cases isName
  case h_1 first more same =>
    rw [same] at isFirst
    cases isFirst
    rw [Bool.and_eq_true] at isName
    exact lacks char isName.1

/-! ## The number of words -/

/-- Words are not more than their characters. -/
theorem Spread.length_le {chars : List Char} (spread : Spread words fault chars) :
    words.length ≤ chars.length := by
  induction spread with
  | nil => exact Nat.zero_le _
  | cons spelled isGap ends more inductionHypothesis =>
    have nonempty := List.length_pos_iff.mpr spelled.ne_nil
    simp only [List.length_cons, List.length_append]
    omega

/-- From the first of some words on there are at least as many characters as words. -/
theorem Facing.length_le (facing : Facing fault words cursor) :
    words.length ≤ cursor.rest.length := by
  obtain ⟨later, spread, -⟩ := facing
  exact spread.length_le

/-- The gap in front of the words only adds characters. -/
theorem Nearing.length_le (nearing : Nearing fault words cursor) :
    words.length ≤ cursor.rest.length := by
  obtain ⟨later, ⟨gap, rest, same, -, spread⟩, -⟩ := nearing
  have shorter := spread.length_le
  rw [same, List.length_append]
  omega

/-! ## Gaps -/

/-- The gap in front of some words is read up to the first of them, since no word starts like a gap.
-/
theorem reads_spaces :
    spaces.Reads (Nearing fault words) (fun _ => True) (Facing fault words) := by
  have lexes :
      (take Lexer.spaces).Reads (Nearing fault words) (fun _ => True) (Facing fault words) := by
    apply reads_take
    rintro cursor ⟨later, ⟨gap, rest, same, isGap, spread⟩, first⟩
    have facing : Facing fault words (cursor.after gap rest) := ⟨later, spread, first⟩
    have enough : gap.length < (gap ++ rest).length + 1 := by
      rw [List.length_append]
      omega
    have taken := Lexer.spacesWithin_gap isGap facing.stops_isGapStart _ enough
    refine ⟨gap, rest, ?_, trivial, facing⟩
    rw [same]
    exact congrArg some taken
  exact lexes.bind fun _ _ => reads_pure trivial

namespace Parser

variable {parser : Parser α}

/-- What is read at some words is read in front of the gap before them as well. -/
theorem Reads.next (reads : parser.Reads (Facing fault words) holds after) :
    (Grammar.next parser).Reads (Nearing fault words) holds after :=
  reads_spaces.bind fun _ _ => reads

/-- What is refused at some words is refused in front of the gap before them as well. -/
theorem Refuses.next (refuses : parser.Refuses (Facing fault words)) :
    (Grammar.next parser).Refuses (Nearing fault words) :=
  reads_spaces.refuses_bind fun _ _ => refuses

/-- A part that may be missing is read behind a gap where it is there. -/
theorem Reads.nextOptional (reads : parser.Reads (Facing fault words) holds after) :
    (Grammar.nextOptional parser).Reads (Nearing fault words)
      (fun found => ∃ result, found = some result ∧ holds result) after :=
  reads.optional.next

/-- A part that is missing leaves the next word, without the gap in front of it. -/
theorem Refuses.nextOptional (refuses : parser.Refuses (Facing fault words)) :
    (Grammar.nextOptional parser).Reads (Nearing fault words) (· = none) (Nearing fault words) :=
  refuses.optional.next.mono (fun _ => id) fun _ => Facing.nearing

/-- The number of characters that are left bounds the number of words. -/
theorem reads_left {before : Cursor → Prop}
    (enough : ∀ cursor, before cursor → words.length ≤ cursor.rest.length) :
    left.Reads before (words.length ≤ ·) before :=
  fun cursor _ isBefore => ⟨cursor.rest.length, cursor, rfl, enough _ isBefore, isBefore⟩

end Parser

/-! ## Words of one kind -/

/-- A lexer that takes a word with one spelling whatever comes next reads it. -/
theorem reads_take_word {word : Word} {lexer : Lexer}
    (lexes : ∀ rest, word.Ends rest → lexer (word.chars ++ rest) = some (word.chars, rest))
    (plain : word.isNumber = false ∨ words.head? = some (.mark .colon) := by exact .inl rfl) :
    (take lexer).Reads (Facing fault (word :: words)) (· = String.ofList word.chars)
      (Nearing fault words) := by
  apply reads_take
  intro cursor facing
  obtain ⟨behind, same, ends, nearing⟩ := facing.exists_behind plain
  exact ⟨word.chars, behind, same ▸ lexes behind ends, rfl, nearing⟩

/-- A lexer that takes a word with one spelling reads it under a name for what was expected. -/
theorem reads_token {name : Expectation} {word : Word} {lexer : Lexer}
    (lexes : ∀ rest, word.Ends rest → lexer (word.chars ++ rest) = some (word.chars, rest))
    (plain : word.isNumber = false ∨ words.head? = some (.mark .colon) := by exact .inl rfl) :
    (token name lexer).Reads (Facing fault (word :: words)) (· = String.ofList word.chars)
      (Nearing fault words) :=
  (reads_take_word lexes plain).part

/-- A lexer that fails on a word with one spelling whatever comes next refuses it. -/
theorem refuses_token {name : Expectation} {word : Word} {lexer : Lexer}
    (fails : ∀ rest, word.Ends rest → lexer (word.chars ++ rest) = none)
    (plain : word.isNumber = false ∨ words.head? = some (.mark .colon) := by exact .inl rfl) :
    (token name lexer).Refuses (Facing fault (word :: words)) := by
  apply Refuses.part
  apply refuses_take
  intro cursor facing
  obtain ⟨behind, same, ends, -⟩ := facing.exists_behind plain
  exact same ▸ fails behind ends

/-- A mark is read whatever follows it. -/
theorem reads_mark (punctuation : Mark) :
    (mark punctuation.text).Reads (Facing fault (.mark punctuation :: words)) (fun _ => True)
      (Nearing fault words) := by
  have lexes : ∀ rest, (Word.mark punctuation).Ends rest → Lexer.exactly punctuation.text
      ((Word.mark punctuation).chars ++ rest) = some ((Word.mark punctuation).chars, rest) := by
    intro rest _
    rw [Word.chars, ← punctuation.toList_text]
    exact Lexer.exactly_append punctuation.text rest
  exact (reads_take_word lexes).bind fun _ _ => reads_pure trivial

/-- No other word starts with a mark.

Proof: a mark is one character, and no other word starts with it. At the end of a text there is no
character at all. -/
theorem refuses_mark (punctuation : Mark) (other : words.head? ≠ some (.mark punctuation)) :
    (mark punctuation.text).Refuses (Facing fault words) := by
  apply Refuses.bind
  apply refuses_take
  intro cursor facing
  apply Lexer.exactly_eq_none
  rw [punctuation.toList_text]
  have stops : StopsAt (fun char => char = punctuation.char) cursor := by
    cases words with
    | nil => exact facing.stops_nil
    | cons word words =>
      have different : word ≠ .mark punctuation := fun same => other (congrArg some same)
      apply facing.stops
      exact fun spelling own spelled char isFirst =>
        decide_eq_false (spelled.starts_other different char isFirst)
  rintro ⟨behind, same⟩
  have outside := stops punctuation.char (by simp [← same])
  simp at outside

/-- A keyword is read where it stands as a word of its own. -/
theorem reads_keyword {name : Expectation} {text : String} (proper : isNameText text = true) :
    (keyword name text).Reads (Facing fault (.name text proper :: words)) (fun _ => True)
      (Nearing fault words) := by
  have lexes : ∀ rest, (Word.name text proper).Ends rest →
      Lexer.keyword text ((Word.name text proper).chars ++ rest) =
        some ((Word.name text proper).chars, rest) := fun _ => Lexer.keyword_append
  exact (reads_token lexes).bind fun _ _ => reads_pure trivial

/-- A keyword is not found in another name. -/
theorem refuses_keyword_name {name : Expectation} {text other : String}
    {proper : isNameText other = true} (isText : isNameText text = true)
    (different : other ≠ text) :
    (keyword name text).Refuses (Facing fault (.name other proper :: words)) := by
  apply Refuses.bind
  refine refuses_token fun rest ends => ?_
  exact Lexer.keyword_eq_none isText (isNameChar_of_isNameText proper) ends
    fun same => different (String.toList_injective same)

/-- A name that may refer to something is read as it stands. -/
theorem reads_identifier {text : String} (proper : isNameText text = true)
    (isName : isIdentifier text = true) :
    identifier.Reads (Facing fault (.name text proper :: words)) (· = text)
      (Nearing fault words) := by
  have lexes : ∀ rest, (Word.name text proper).Ends rest →
      Lexer.identifier ((Word.name text proper).chars ++ rest) =
        some ((Word.name text proper).chars, rest) := fun _ => Lexer.identifier_append isName
  apply (reads_token lexes).weaken
  rintro found rfl
  exact String.ofList_toList

/-- A name that may be declared is read as it stands. -/
theorem reads_declaredName {text : String} (proper : isNameText text = true)
    (isName : isDeclaredName text = true) :
    declaredName.Reads (Facing fault (.name text proper :: words)) (· = text)
      (Nearing fault words) := by
  have lexes : ∀ rest, (Word.name text proper).Ends rest →
      Lexer.declaredName ((Word.name text proper).chars ++ rest) =
        some ((Word.name text proper).chars, rest) := fun _ => Lexer.declaredName_append isName
  apply (reads_token lexes).weaken
  rintro found rfl
  exact String.ofList_toList

/-- The scope of a namespace is read as it stands. -/
theorem reads_namespaceScope {name : Expectation} {text : String}
    (proper : isScopeText text = true) :
    (token name Lexer.namespaceScope).Reads (Facing fault (.scope text proper :: words)) (· = text)
      (Nearing fault words) := by
  have lexes : ∀ rest, (Word.scope text proper).Ends rest →
      Lexer.namespaceScope ((Word.scope text proper).chars ++ rest) =
        some ((Word.scope text proper).chars, rest) := fun _ => Lexer.namespaceScope_append proper
  apply (reads_token lexes).weaken
  rintro found rfl
  exact String.ofList_toList

/-- A text in quotes is read as its content, whichever quotes it stands in. -/
theorem reads_textLiteral (quote : Quote) (content : String) :
    textLiteral.Reads (Facing fault (.quoted quote content :: words)) (· = content)
      (Nearing fault words) := by
  apply (reads_token fun _ _ => Lexer.textLiteral_quoted).bind_eq
  exact reads_pure (contentOfLiteral_quoted quote content)

/-! ## Integers -/

/-- An integer is spelled, whether the number fits that is meant or not. -/
theorem Word.Spelled.exists_number {value : Int} {next : Option Word} {spelling : List Char}
    {own : Option ParseFault} (spelled : (Word.number value).Spelled next spelling own) :
    ∃ number, SpellsInt spelling number ∧ ((number = value ∧ own = none) ∨
      ¬ FitsLiteral number ∧ value = 0 ∧ own = some .integerOutOfRange) := by
  cases spelled with
  | plainly => exact ⟨value, spellsInt_toString value, .inl ⟨rfl, rfl⟩⟩
  | integer noKey spells => exact ⟨value, spells, .inl ⟨rfl, rfl⟩⟩
  | misfit noKey spells unfit => exact ⟨_, spells, .inr ⟨unfit, rfl, rfl⟩⟩

/-- An integer is read, and what does not fit is noted.

Proof: the characters that spell the integer are taken up to where they end. If what they spell
fits, it is read; otherwise it is noted at its place, unless something was noted before, and zero
stands for it. -/
theorem reads_intLiteral {number : Int} (fits : FitsLiteral number) :
    intLiteral.Reads (Facing fault (.number number :: words)) (· = number)
      (Nearing fault words) := by
  intro cursor attempts facing
  obtain ⟨spelling, behind, own, same, spelled, ends, onwards⟩ := facing.exists_spelling
  obtain ⟨meant, spells, reading⟩ := spelled.exists_number
  have reads : intLiteral.Reads (· = cursor) (· = number) (Nearing fault words) := by
    apply reads_here.bind
    intro span _
    have lexes : (token .intLiteral Lexer.intLiteral).Reads (· = cursor)
        (· = String.ofList spelling) (· = cursor.after spelling behind) := by
      apply Reads.part
      apply reads_take
      rintro _ rfl
      exact ⟨spelling, behind, same ▸ Lexer.intLiteral_spelled spells ends, rfl, rfl⟩
    apply lexes.bind_eq
    rw [spells.intOfLiteral?_eq]
    rcases reading with ⟨rfl, rfl⟩ | ⟨unfit, rfl, rfl⟩
    · rw [if_pos fits]
      rintro reached attempts rfl
      exact ⟨meant, _, rfl, rfl, onwards _ rfl (Option.or_none).symm⟩
    · rw [if_neg unfit]
      have notes : (note span .integerOutOfRange).Reads (· = cursor.after spelling behind)
          (fun _ => True) (Nearing fault words) := by
        apply reads_note
        rintro _ rfl
        apply onwards _ rfl
        simp only [Cursor.note, Cursor.after]
        cases cursor.misfit <;> rfl
      exact notes.bind fun _ _ => reads_pure rfl
  exact reads cursor attempts rfl

/-- An integer is not a number with a point or an exponent. -/
theorem refuses_doubleLiteral_number (number : Int) :
    doubleLiteral.Refuses (Facing fault (.number number :: words)) := by
  apply Refuses.bind
  apply Refuses.part
  apply refuses_take
  intro cursor facing
  obtain ⟨spelling, behind, own, same, spelled, ends, -⟩ := facing.exists_spelling
  obtain ⟨meant, spells, -⟩ := spelled.exists_number
  exact same ▸ Lexer.doubleLiteral_spelled spells ends

/-- The id of a field is read, together with the colon behind it. -/
theorem reads_fieldId (id : Int16) :
    fieldId.Reads (Facing fault (.number id.toInt :: .mark .colon :: words)) (· = id)
      (Nearing fault words) := by
  have lexes : ∀ rest, (Word.number id.toInt).Ends rest →
      Lexer.fieldId ((Word.number id.toInt).chars ++ rest) =
        some ((Word.number id.toInt).chars, rest) := fun _ => Lexer.fieldId_toString
  apply reads_here.bind
  intro span _
  apply (reads_token lexes (.inr rfl)).bind_eq
  apply (reads_mark .colon).next.bind
  intro _ _
  rw [Word.chars, String.ofList_toList, fieldIdOfLiteral?_toString]
  exact reads_pure rfl

/-! ## Words of other kinds -/

/-- A lexer that fails where a class stops refuses such places. -/
theorem refuses_token_stops {name : Expectation} {lexer : Lexer} {lacking : Char → Bool}
    (fails : ∀ {chars}, Stops lacking chars → lexer chars = none) :
    (token name lexer).Refuses (StopsAt lacking) :=
  (refuses_take fun _ stops => fails stops).part

/-- Where no character of names comes next, no keyword is read. -/
theorem refuses_keyword {name : Expectation} {text : String} (isText : isNameText text = true) :
    (keyword name text).Refuses (StopsAt Lexer.isNameChar) :=
  (refuses_token_stops (Lexer.keyword_stops isText)).bind

/-- Where no name starts, none is read that refers to something. -/
theorem refuses_identifier : identifier.Refuses (StopsAt Lexer.isNameStart) :=
  refuses_token_stops Lexer.identifier_stops

/-- Where no name starts, none is read that is declared. -/
theorem refuses_declaredName : declaredName.Refuses (StopsAt Lexer.isNameStart) :=
  refuses_token_stops Lexer.declaredName_stops

/-- Where no quote comes next, no text is read. -/
theorem refuses_textLiteral : textLiteral.Refuses (StopsAt isQuote) :=
  (refuses_token_stops Lexer.textLiteral_stops).bind

/-- Where no number starts, none with a point or an exponent is read. -/
theorem refuses_doubleLiteral : doubleLiteral.Refuses (StopsAt isNumberStart) :=
  (refuses_token_stops Lexer.doubleLiteral_stops).bind

/-- Where no number starts, no integer is read. -/
theorem refuses_intLiteral : intLiteral.Refuses (StopsAt isNumberStart) :=
  reads_here.refuses_bind fun _ _ => (refuses_token_stops Lexer.intLiteral_stops).bind

/-- Where no number starts, no id of a field is read. -/
theorem refuses_fieldId : fieldId.Refuses (StopsAt isNumberStart) :=
  reads_here.refuses_bind fun _ _ => (refuses_token_stops Lexer.fieldId_stops).bind

end SchemaCodec
