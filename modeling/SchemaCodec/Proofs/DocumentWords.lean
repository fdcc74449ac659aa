import SchemaCodec.Document.Lexer

/-!
# The words of a document and the gaps between them

A plain text of a document is a list of words with a gap between any two of them. A gap is a run of
spaces and comments; a comment to the end of its line is closed by a line end. A text starts and
ends with a gap too, which may be empty there. A place in front of a gap is told apart from one
behind it, since a parser that is tried in vain leaves its gap behind.
-/

namespace SchemaCodec

/-- A punctuation mark. -/
inductive Mark where
  | comma | semicolon | colon | equals
  | openBrace | closeBrace | openParen | closeParen
  | openBracket | closeBracket | openAngle | closeAngle
deriving DecidableEq

namespace Mark

/-- The character of a mark. -/
def char : Mark → Char
  | comma => ','
  | semicolon => ';'
  | colon => ':'
  | equals => '='
  | openBrace => '\x7b'
  | closeBrace => '\x7d'
  | openParen => '('
  | closeParen => ')'
  | openBracket => '['
  | closeBracket => ']'
  | openAngle => '<'
  | closeAngle => '>'

/-- The text of a mark. -/
def text : Mark → String
  | comma => ","
  | semicolon => ";"
  | colon => ":"
  | equals => "="
  | openBrace => "\x7b"
  | closeBrace => "\x7d"
  | openParen => "("
  | closeParen => ")"
  | openBracket => "["
  | closeBracket => "]"
  | openAngle => "<"
  | closeAngle => ">"

/-- The text of a mark is its one character. -/
theorem toList_text (mark : Mark) : mark.text.toList = [mark.char] := by
  cases mark <;> rfl

/-- No two marks have the same character. -/
theorem char_injective {first second : Mark} (same : first.char = second.char) :
    first = second := by
  revert same
  cases first <;> cases second <;> decide

end Mark

/-- The quote around a text. -/
inductive Quote where
  | double | single
deriving DecidableEq

/-- The character of a quote. -/
def Quote.char : Quote → Char
  | double => '\x22'
  | single => '\x27'

/-- A text between quotes, a backslash in front of every such quote and of every backslash. -/
def escaped (quote : Char) : List Char → List Char
  | [] => []
  | char :: rest =>
    if char = quote ∨ char = '\\' then '\\' :: char :: escaped quote rest
    else char :: escaped quote rest

/-- A text consists of the characters of names. -/
def isNameText (text : String) : Bool :=
  !text.toList.isEmpty && text.toList.all Lexer.isNameChar

/-- A text is the scope of a namespace. -/
def isScopeText (text : String) : Bool :=
  text.toList = ['*'] ||
    !text.toList.isEmpty && text.toList.all fun char => Lexer.isNameChar char || char = '-'

/-- A word of a document. Words are what gaps may stand between; each knows that it is one, so no
list of words has to be checked again. -/
inductive Word where
  | mark (mark : Mark)
  /-- A keyword or a name. -/
  | name (text : String) (proper : isNameText text = true := by decide)
  | scope (text : String) (proper : isScopeText text = true := by decide)
  /-- An integer in decimal digits. -/
  | number (number : Int)
  | quoted (quote : Quote) (content : String)

namespace Word

/-- The characters of a word. -/
def chars : Word → List Char
  | mark punctuation => [punctuation.char]
  | name text _ => text.toList
  | scope text _ => text.toList
  | number value => (toString value).toList
  | quoted quote content => quote.char :: (escaped quote.char content.toList ++ [quote.char])

end Word

/-- A run of spaces and closed comments. -/
inductive Gap : List Char → Prop
  | nil : Gap []
  | space {char : Char} {rest : List Char} (space : Lexer.isSpace char = true) (more : Gap rest) :
      Gap (char :: rest)
  | block {remark rest : List Char} (inside : ¬ ['*', '/'] <:+: remark) (more : Gap rest) :
      Gap ('/' :: '*' :: (remark ++ '*' :: '/' :: rest))
  | line {marker remark rest : List Char} {lineEnd : Char}
      (starts : marker = ['/', '/'] ∨ marker = ['#'])
      (inside : ∀ char ∈ remark, char ≠ '\n' ∧ char ≠ '\r')
      (closes : lineEnd = '\n' ∨ lineEnd = '\r') (more : Gap rest) :
      Gap (marker ++ (remark ++ lineEnd :: rest))

/-- What stands right behind a word: a gap in front of every further word, and one at the end. -/
def Behind : List Word → List Char → Prop
  | [], chars => Gap chars
  | word :: words, chars =>
    ∃ gap rest, chars = gap ++ (word.chars ++ rest) ∧ gap ≠ [] ∧ Gap gap ∧ Behind words rest

/-- What starts with the first of some words, or is empty where no words are left. -/
def At : List Word → List Char → Prop
  | [], chars => chars = []
  | word :: words, chars => ∃ rest, chars = word.chars ++ rest ∧ Behind words rest

/-- The text of some words, perhaps behind a gap. Between two words there is a gap that is not
empty; in front of the first word and behind the last one it may be empty. -/
def LaidOut (words : List Word) (chars : List Char) : Prop :=
  ∃ gap rest, chars = gap ++ rest ∧ Gap gap ∧ At words rest

/-- What stands behind a word is a text of the words that follow, with the gap between them in
front. -/
theorem Behind.laidOut {words : List Word} {chars : List Char} (behind : Behind words chars) :
    LaidOut words chars := by
  cases words with
  | nil => exact ⟨chars, [], by simp, behind, rfl⟩
  | cons word words =>
    obtain ⟨gap, rest, rfl, -, isGap, behind⟩ := behind
    exact ⟨gap, word.chars ++ rest, rfl, isGap, rest, rfl, behind⟩

/-- Words with a gap in front of each of them, and one at the end. -/
def layOut : List (List Char × Word) → List Char → List Char
  | [], last => last
  | (gap, word) :: pieces, last => gap ++ (word.chars ++ layOut pieces last)

/-- Words that are laid out with a gap of their own in front of each of them, none of them empty,
may stand behind another word. -/
theorem behind_layOut {last : List Char} (isLast : Gap last) :
    ∀ {pieces : List (List Char × Word)}, (∀ piece ∈ pieces, Gap piece.1) →
      (∀ piece ∈ pieces, piece.1 ≠ []) → Behind (pieces.map (·.2)) (layOut pieces last)
  | [], _, _ => isLast
  | (gap, word) :: pieces, gaps, nonempty => by
    rw [List.forall_mem_cons] at gaps nonempty
    exact ⟨gap, layOut pieces last, rfl, nonempty.1, gaps.1, behind_layOut isLast gaps.2 nonempty.2⟩

/-- Only the gaps between words must not be empty. -/
theorem laidOut_layOut {last : List Char} (isLast : Gap last) {pieces : List (List Char × Word)}
    (gaps : ∀ piece ∈ pieces, Gap piece.1) (nonempty : ∀ piece ∈ pieces.tail, piece.1 ≠ []) :
    LaidOut (pieces.map (·.2)) (layOut pieces last) := by
  cases pieces with
  | nil => exact Behind.laidOut isLast
  | cons piece pieces =>
    rw [List.forall_mem_cons] at gaps
    exact ⟨piece.1, piece.2.chars ++ layOut pieces last, rfl, gaps.1, layOut pieces last, rfl,
      behind_layOut isLast gaps.2 nonempty⟩

/-- A character that starts a gap. -/
def isGapStart (char : Char) : Bool := Lexer.isSpace char || char = '/' || char = '#'

/-- No character of a class comes next. -/
def Stops (holds : Char → Bool) (chars : List Char) : Prop :=
  ∀ char ∈ chars.head?, holds char = false

/-- The characters that start a gap, one by one. -/
theorem isGapStart_cases {char : Char} (start : isGapStart char = true) :
    char ∈ [' ', '\t', '\r', '\n', '/', '#'] := by
  simp only [isGapStart, Lexer.isSpace, Bool.or_eq_true, decide_eq_true_eq] at start
  simp only [List.mem_cons, List.not_mem_nil, or_false]
  simpa only [or_assoc] using start

/-- The characters that no name or number goes on with: those that start a gap, the marks and the
quotes. -/
def wordEnds : List Char :=
  [' ', '\t', '\r', '\n', '/', '#', ',', ';', ':', '=', '\x7b', '\x7d', '(', ')', '[', ']', '<',
    '>', '\x22', '\x27']

/-- Nothing comes next but what ends a name or a number. -/
def EndsWord (chars : List Char) : Prop := ∀ char ∈ chars.head?, char ∈ wordEnds

/-- What starts a gap ends a word. -/
theorem mem_wordEnds_of_isGapStart {char : Char} (start : isGapStart char = true) :
    char ∈ wordEnds := by
  have listed : [' ', '\t', '\r', '\n', '/', '#'] ⊆ wordEnds := by decide
  exact listed (isGapStart_cases start)

/-- A gap starts with a character that no name or number goes on with, or it is empty and nothing
follows. -/
theorem Gap.endsWord {gap : List Char} (isGap : Gap gap) : EndsWord gap := by
  intro char isFirst
  apply mem_wordEnds_of_isGapStart
  cases isGap with
  | nil => cases isFirst
  | space space more =>
    cases isFirst
    simp [isGapStart, space]
  | block inside more => cases isFirst; decide
  | line starts inside closes more =>
    rcases starts with rfl | rfl <;> cases isFirst <;> decide

/-- What stands behind a word never runs into it, since the gap between two words is not empty. -/
theorem Behind.endsWord {words : List Word} {chars : List Char} (behind : Behind words chars) :
    EndsWord chars := by
  cases words with
  | nil => exact Gap.endsWord behind
  | cons word words =>
    obtain ⟨gap, rest, rfl, nonempty, isGap, -⟩ := behind
    intro char isFirst
    cases gap with
    | nil => exact absurd rfl nonempty
    | cons first gap => exact isGap.endsWord char isFirst

/-- A class that lacks what ends a word ends with the word. -/
theorem EndsWord.stops {holds : Char → Bool} {chars : List Char} (ends : EndsWord chars)
    (lacks : wordEnds.any holds = false) : Stops holds chars :=
  fun char isFirst => Bool.eq_false_iff.mpr (List.any_eq_false.mp lacks char (ends char isFirst))

namespace Lexer

/-- A run of a class takes the characters of the class up to where it stops. -/
theorem run_append {holds : Char → Bool} {taken rest : List Char}
    (inside : ∀ char ∈ taken, holds char = true) (stops : Stops holds rest) :
    run holds (taken ++ rest) = (taken, rest) := by
  have kept : rest.takeWhile holds = [] ∧ rest.dropWhile holds = rest := by
    cases rest with
    | nil => exact ⟨rfl, rfl⟩
    | cons char rest => simp [stops char rfl]
  simp only [run, List.takeWhile_append_of_pos inside, List.dropWhile_append_of_pos inside, kept,
    List.append_nil]

/-- A remark is taken up to the first end of a comment behind it.

Proof: induction on the remark. A star may be its last character, but then no slash follows inside,
so the end is not found one character too early. -/
theorem untilCommentEnd_closed {remark rest : List Char} (inside : ¬ ['*', '/'] <:+: remark) :
    untilCommentEnd (remark ++ '*' :: '/' :: rest) = some (remark ++ ['*', '/'], rest) := by
  induction remark with
  | nil => rfl
  | cons char remark inductionHypothesis =>
    have insideRest : ¬ ['*', '/'] <:+: remark :=
      fun infix_rest => inside (infix_rest.trans (List.suffix_cons char remark).isInfix)
    have unclosed : ∀ behind, char = '*' →
        remark ++ '*' :: '/' :: rest = '/' :: behind → False := by
      rintro behind rfl same
      cases remark with
      | nil => exact absurd (List.cons.inj same).1 (by decide)
      | cons second remark =>
        obtain rfl := (List.cons.inj same).1
        exact inside (List.prefix_append ['*', '/'] remark).isInfix
    rw [List.cons_append, untilCommentEnd, inductionHypothesis insideRest]
    · rfl
    · exact unclosed

/-- A remark is taken up to the end of its line. -/
theorem untilLineEnd_closed {remark : List Char} (rest : List Char) {lineEnd : Char}
    (inside : ∀ char ∈ remark, char ≠ '\n' ∧ char ≠ '\r')
    (closes : lineEnd = '\n' ∨ lineEnd = '\r') :
    untilLineEnd (remark ++ lineEnd :: rest) = (remark, lineEnd :: rest) := by
  apply run_append
  · simpa using inside
  · intro char isFirst
    cases isFirst
    rcases closes with rfl | rfl <;> decide

/-- Spaces and comments end where neither comes next. -/
theorem spacesWithin_stops {bound : Nat} {chars : List Char} (stops : Stops isGapStart chars) :
    spacesWithin bound chars = ([], chars) := by
  cases bound with
  | zero => rfl
  | succ bound =>
    cases chars with
    | nil => rfl
    | cons char rest =>
      have noStart := stops char rfl
      simp only [isGapStart, Bool.or_eq_false_iff, decide_eq_false_iff_not] at noStart
      have noComment : comment (char :: rest) = none := by
        unfold comment
        split <;> simp_all
      simp [spacesWithin, run, noStart.1.1, noComment]

/-- A space in front is taken along. -/
theorem spacesWithin_space {bound : Nat} {char : Char} {rest : List Char}
    (space : isSpace char = true) :
    spacesWithin (bound + 1) (char :: rest) =
      (char :: (spacesWithin (bound + 1) rest).1, (spacesWithin (bound + 1) rest).2) := by
  simp only [spacesWithin, run, List.takeWhile_cons, List.dropWhile_cons, space, if_true]
  split <;> rfl

/-- A comment in front is taken along. -/
theorem spacesWithin_comment {bound : Nat} {first : Char} {remark rest behind : List Char}
    (noSpace : isSpace first = false)
    (isComment : comment (first :: rest) = some (remark, behind)) :
    spacesWithin (bound + 1) (first :: rest) =
      (remark ++ (spacesWithin bound behind).1, (spacesWithin bound behind).2) := by
  simp [spacesWithin, run, noSpace, isComment]

/-- A gap is taken whole and nothing else, given a bound above its length.

Proof: by induction on the gap, which is made of spaces and comments of two kinds. Each of them is
taken in one step, which lowers the bound where a comment is taken, and what stands behind a comment
is shorter than the whole. A line comment ends in front of its line end, which is taken as a space.
-/
theorem spacesWithin_gap {gap rest : List Char} (isGap : Gap gap) (stops : Stops isGapStart rest) :
    ∀ bound, gap.length < bound → spacesWithin bound (gap ++ rest) = (gap, rest) := by
  induction isGap with
  | nil => exact fun bound _ => spacesWithin_stops stops
  | space space more inductionHypothesis =>
    intro bound enough
    obtain ⟨bound, rfl⟩ := Nat.exists_eq_add_one_of_ne_zero (Nat.ne_zero_of_lt enough)
    rw [List.cons_append, spacesWithin_space space,
      inductionHypothesis (bound + 1) (Nat.lt_of_succ_lt enough)]
  | @block remark more inside isGap inductionHypothesis =>
    intro bound enough
    obtain ⟨bound, rfl⟩ := Nat.exists_eq_add_one_of_ne_zero (Nat.ne_zero_of_lt enough)
    have isComment : comment ('/' :: '*' :: (remark ++ '*' :: '/' :: (more ++ rest))) =
        some ('/' :: '*' :: (remark ++ ['*', '/']), more ++ rest) := by
      simp [comment, untilCommentEnd_closed inside]
    have shorter : more.length < bound := by
      simp only [List.length_cons, List.length_append] at enough
      omega
    simp only [List.cons_append, List.append_assoc]
    rw [spacesWithin_comment (by decide) isComment, inductionHypothesis bound shorter]
    simp
  | @line marker remark more lineEnd starts inside closes isGap inductionHypothesis =>
    intro bound enough
    obtain ⟨bound, rfl⟩ := Nat.exists_eq_add_one_of_ne_zero (Nat.ne_zero_of_lt enough)
    have shorter : (lineEnd :: more).length < bound := by
      rcases starts with rfl | rfl <;>
        simp only [List.length_cons, List.length_append, List.length_nil] at enough ⊢ <;> omega
    obtain ⟨bound, rfl⟩ := Nat.exists_eq_add_one_of_ne_zero (Nat.ne_zero_of_lt shorter)
    have isSpace_lineEnd : isSpace lineEnd = true := by
      rcases closes with rfl | rfl <;> decide
    have afterRemark : spacesWithin (bound + 1) (lineEnd :: (more ++ rest)) =
        (lineEnd :: more, rest) := by
      rw [spacesWithin_space isSpace_lineEnd,
        inductionHypothesis (bound + 1) (Nat.lt_of_succ_lt shorter)]
    have line_closed := untilLineEnd_closed (more ++ rest) inside closes
    rcases starts with rfl | rfl
    · have isComment : comment ('/' :: '/' :: (remark ++ lineEnd :: (more ++ rest))) =
          some ('/' :: '/' :: remark, lineEnd :: (more ++ rest)) := by
        simp [comment, line_closed]
      simp only [List.cons_append, List.nil_append, List.append_assoc]
      rw [spacesWithin_comment (by decide) isComment, afterRemark]
      simp
    · have isComment : comment ('#' :: (remark ++ lineEnd :: (more ++ rest))) =
          some ('#' :: remark, lineEnd :: (more ++ rest)) := by
        simp [comment, line_closed]
      simp only [List.cons_append, List.nil_append, List.append_assoc]
      rw [spacesWithin_comment (by decide) isComment, afterRemark]
      simp

end Lexer

end SchemaCodec
