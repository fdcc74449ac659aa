import SchemaCodec.Document.Grammar
import SchemaCodec.Proofs.SpelledIntegers

/-!
# Texts of some words

The words of a document can be laid out in more ways than with a gap between any two of them. A gap
may be missing wherever the words do not run together, and an integer may stand in any spelling. An
integer that does not fit is read as zero and remembered, so its spelling stands for zero here, with
that fault; the first fault of a text is the one that is reported.
-/

namespace SchemaCodec

/-- A word is an integer. -/
def Word.isNumber : Word → Bool
  | number _ => true
  | _ => false

/-- What a word may stand as in front of another word, and the fault that comes with it. In front of
a colon an integer may be the id of a field, which has one spelling only. -/
inductive Word.Spelled (next : Option Word) : Word → List Char → Option ParseFault → Prop
  | plainly (word : Word) : Spelled next word word.chars none
  | integer {chars : List Char} {number : Int} (noKey : next ≠ some (.mark .colon))
      (spells : SpellsInt chars number) : Spelled next (.number number) chars none
  | misfit {chars : List Char} {number : Int} (noKey : next ≠ some (.mark .colon))
      (spells : SpellsInt chars number) (unfit : ¬ FitsLiteral number) :
      Spelled next (.number 0) chars (some .integerOutOfRange)

/-- A word does not run into what stands behind it. Marks and texts in quotes never do. -/
def Word.Ends : Word → List Char → Prop
  | mark _, _ => True
  | quoted _ _, _ => True
  | _, behind => EndsWord behind

/-- A text of some words that starts with the first of them, and the first fault in it. -/
inductive Spread : List Word → Option ParseFault → List Char → Prop
  | nil : Spread [] none []
  | cons {word : Word} {words : List Word} {spelling gap rest : List Char}
      {own later : Option ParseFault} (spelled : word.Spelled words.head? spelling own)
      (isGap : Gap gap) (ends : word.Ends (gap ++ rest)) (more : Spread words later rest) :
      Spread (word :: words) (own.or later) (spelling ++ (gap ++ rest))

/-- A text of some words, perhaps behind a gap, and the first fault in it. Without a fault the text
is a layout of the words. -/
def TextOf (words : List Word) (fault : Option ParseFault) (chars : List Char) : Prop :=
  ∃ gap rest, chars = gap ++ rest ∧ Gap gap ∧ Spread words fault rest

/-- A word of any kind ends where names and numbers do. -/
theorem Word.Ends.of_endsWord {word : Word} {behind : List Char} (ends : EndsWord behind) :
    word.Ends behind := by
  cases word with
  | mark punctuation => trivial
  | quoted quote content => trivial
  | name text proper => exact ends
  | scope text proper => exact ends
  | number value => exact ends

/-- Words with a gap between any two of them are laid out. -/
theorem Behind.textOf {words : List Word} {chars : List Char} (behind : Behind words chars) :
    TextOf words none chars := by
  induction words generalizing chars with
  | nil => exact ⟨chars, [], (List.append_nil chars).symm, behind, .nil⟩
  | cons word words inductionHypothesis =>
    obtain ⟨gap, rest, rfl, -, isGap, behind⟩ := behind
    have ends := behind.endsWord
    obtain ⟨between, more, rfl, isBetween, spread⟩ := inductionHypothesis behind
    exact ⟨gap, _, rfl, isGap, .cons (.plainly word) isBetween (.of_endsWord ends) spread⟩

/-- A text with a gap between any two words is a text of the words, without a fault. -/
theorem LaidOut.textOf {words : List Word} {chars : List Char} (laidOut : LaidOut words chars) :
    TextOf words none chars := by
  obtain ⟨gap, rest, rfl, isGap, at_words⟩ := laidOut
  cases words with
  | nil =>
    subst at_words
    exact ⟨gap, [], rfl, isGap, .nil⟩
  | cons word words =>
    obtain ⟨behind, rfl, isBehind⟩ := at_words
    obtain ⟨between, more, rfl, isBetween, spread⟩ := isBehind.textOf
    have ends : word.Ends (between ++ more) := .of_endsWord isBehind.endsWord
    exact ⟨gap, _, rfl, isGap, .cons (.plainly word) isBetween ends spread⟩

section Spreads

variable {words : List Word} {fault : Option ParseFault}

/-- A word may stand with a space behind it. -/
theorem Spread.spaced {rest : List Char} (word : Word) (spread : Spread words fault rest) :
    Spread (word :: words) fault (word.chars ++ ([' '] ++ rest)) := by
  have ends : EndsWord (' ' :: rest) := by
    rintro _ ⟨⟩
    decide
  exact .cons (.plainly word) (.space (by decide) .nil) (.of_endsWord ends) spread

/-- A word may stand right in front of a mark. -/
theorem Spread.atMark {rest : List Char} {punctuation : Mark} (word : Word)
    (spread : Spread (.mark punctuation :: words) fault rest) :
    Spread (word :: .mark punctuation :: words) fault (word.chars ++ ([] ++ rest)) := by
  have ends : EndsWord rest := by
    cases spread with
    | cons spelled isGap ends more =>
      cases spelled
      rintro _ ⟨⟩
      cases punctuation <;> decide
  exact .cons (.plainly word) .nil (.of_endsWord ends) spread

/-- Anything may stand right behind a mark. -/
theorem Spread.marked {rest : List Char} (punctuation : Mark) (spread : Spread words fault rest) :
    Spread (.mark punctuation :: words) fault ([punctuation.char] ++ ([] ++ rest)) :=
  .cons (.plainly (.mark punctuation)) .nil trivial spread

/-- Only a colon behind an integer restricts how it may be spelled. -/
theorem Word.Spelled.next {word : Word} {next other : Option Word} {spelling : List Char}
    {own : Option ParseFault} (spelled : word.Spelled next spelling own)
    (noKey : other ≠ some (.mark .colon)) : word.Spelled other spelling own := by
  cases spelled with
  | plainly word => exact .plainly word
  | integer _ spells => exact .integer noKey spells
  | misfit _ spells unfit => exact .misfit noKey spells unfit

/-- An integer that does not fit is a fault, and zero is read.

Proof: by induction on the words in front. Where the integer comes first, the characters that
spelled it are a misfit, which is read as zero. Words in front of it are spelled as before; only the
word right in front has another neighbour, which is still an integer. -/
theorem Spread.unfit {front back : List Word} {number : Int} {chars : List Char}
    (spread : Spread (front ++ .number number :: back) fault chars) (faultless : fault = none)
    (unfit : ¬ FitsLiteral number) (noKey : back.head? ≠ some (.mark .colon)) :
    Spread (front ++ .number 0 :: back) (some .integerOutOfRange) chars := by
  induction front generalizing fault chars with
  | nil =>
    cases spread with
    | @cons _ _ spelling gap rest own later spelled isGap ends more =>
      obtain ⟨rfl, rfl⟩ := Option.or_eq_none_iff.mp faultless
      have misfit : (Word.number 0).Spelled back.head? spelling (some .integerOutOfRange) := by
        cases spelled with
        | plainly => exact .misfit noKey (spellsInt_toString number) unfit
        | integer _ spells => exact .misfit noKey spells unfit
      exact .cons misfit isGap ends more
  | cons word front inductionHypothesis =>
    cases spread with
    | @cons _ _ spelling gap rest own later spelled isGap ends more =>
      obtain ⟨rfl, rfl⟩ := Option.or_eq_none_iff.mp faultless
      have respelled : word.Spelled (front ++ .number 0 :: back).head? spelling none := by
        cases front with
        | nil => exact spelled.next (by simp)
        | cons second front => exact spelled
      exact .cons respelled isGap ends (inductionHypothesis more rfl)

end Spreads

/-! ## Places in a text -/

section Places

variable {fault : Option ParseFault} {words : List Word} {cursor : Cursor}

/-- The cursor stands at the first of some words, and the first fault of all is a given one. -/
def Facing (fault : Option ParseFault) (words : List Word) (cursor : Cursor) : Prop :=
  ∃ later, Spread words later cursor.rest ∧ (cursor.misfit.map (·.2)).or later = fault

/-- The cursor stands at the first of some words or in front of the gap before it. -/
def Nearing (fault : Option ParseFault) (words : List Word) (cursor : Cursor) : Prop :=
  ∃ later, TextOf words later cursor.rest ∧ (cursor.misfit.map (·.2)).or later = fault

/-- The cursor stands where no character of a class comes next. -/
def StopsAt (holds : Char → Bool) (cursor : Cursor) : Prop := Stops holds cursor.rest

/-- At the first word the gap in front of it is empty. -/
theorem Facing.nearing (facing : Facing fault words cursor) : Nearing fault words cursor := by
  obtain ⟨later, spread, first⟩ := facing
  exact ⟨later, ⟨[], cursor.rest, rfl, .nil, spread⟩, first⟩

/-- At the end of a text nothing is left. -/
theorem Facing.rest_eq_nil (facing : Facing fault [] cursor) : cursor.rest = [] := by
  obtain ⟨later, spread, -⟩ := facing
  generalize cursor.rest = chars at spread
  cases spread
  rfl

/-- At the end of a text its first fault has been noted. -/
theorem Facing.misfit_eq (facing : Facing fault [] cursor) :
    cursor.misfit.map (·.2) = fault := by
  obtain ⟨later, spread, first⟩ := facing
  generalize cursor.rest = chars at spread
  cases spread
  rwa [Option.or_none] at first

/-- A word is behind the cursor once its spelling has been taken and its fault has been noted. -/
theorem Facing.exists_spelling {word : Word} (facing : Facing fault (word :: words) cursor) :
    ∃ spelling behind own, cursor.rest = spelling ++ behind ∧
      word.Spelled words.head? spelling own ∧ word.Ends behind ∧
        ∀ reached : Cursor, reached.rest = behind →
          reached.misfit.map (·.2) = (cursor.misfit.map (·.2)).or own →
            Nearing fault words reached := by
  obtain ⟨later, spread, first⟩ := facing
  obtain ⟨text, same⟩ : ∃ text, cursor.rest = text := ⟨_, rfl⟩
  rw [same] at spread
  cases spread with
  | @cons _ _ spelling gap rest own later spelled isGap ends more =>
    refine ⟨spelling, gap ++ rest, own, same, spelled, ends, ?_⟩
    intro reached isBehind isNoted
    refine ⟨later, ⟨gap, rest, isBehind, isGap, more⟩, ?_⟩
    rw [isNoted, Option.or_assoc, first]

/-- A word with one spelling only is behind the cursor once it has been taken. -/
theorem Facing.exists_behind {word : Word} (facing : Facing fault (word :: words) cursor)
    (plain : word.isNumber = false ∨ words.head? = some (.mark .colon)) :
    ∃ behind, cursor.rest = word.chars ++ behind ∧ word.Ends behind ∧
      Nearing fault words { cursor with rest := behind } := by
  obtain ⟨spelling, behind, own, same, spelled, ends, onwards⟩ := facing.exists_spelling
  have plainly : spelling = word.chars ∧ own = none := by
    cases spelled with
    | plainly word => exact ⟨rfl, rfl⟩
    | integer noKey spells => exact (plain.elim nofun noKey).elim
    | misfit noKey spells unfit => exact (plain.elim nofun noKey).elim
  obtain ⟨rfl, rfl⟩ := plainly
  exact ⟨behind, same, ends, onwards _ rfl (Option.or_none).symm⟩

end Places

end SchemaCodec
