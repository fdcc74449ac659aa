import SchemaCodec.Proofs.DocumentWords
import Mathlib.Tactic.Common

/-!
# Lexing one word

The lexer of a word takes all of the word and nothing behind it, since a gap or the end of the text
comes next. A keyword is not found at the start of a longer name.
-/

namespace SchemaCodec

open Lexer

/-- A text is a name that may refer to something. -/
def isIdentifier (text : String) : Bool :=
  match text.toList with
  | first :: rest => isNameStart first && rest.all isNameChar
  | [] => false

/-- A text is a name that may be declared. -/
def isDeclaredName (text : String) : Bool :=
  match text.toList with
  | first :: rest => isNameStart first && rest.all isPlainNameChar
  | [] => false

/-- A character that is a quote. -/
def isQuote (char : Char) : Bool := char = '\x22' || char = '\x27'

/-- A character that starts a number. -/
def isNumberStart (char : Char) : Bool :=
  char.isDigit || char = '+' || char = '-' || char = '.'

/-- Each character of such a text may stand in a name. -/
theorem isNameChar_of_isNameText {text : String} (proper : isNameText text = true) :
    ∀ char ∈ text.toList, isNameChar char = true := by
  simp only [isNameText, Bool.and_eq_true, List.all_eq_true] at proper
  exact proper.2

/-- The letters stand behind the digits. -/
theorem isDigit_of_isAlpha {char : Char} (letter : char.isAlpha = true) : char.isDigit = false := by
  have above : 'A'.val ≤ char.val := by
    rcases (Bool.or_eq_true ..).mp letter with upper | lower
    · exact (of_decide_eq_true upper).1
    · have isLower : 'a'.val ≤ char.val := of_decide_eq_true ((Bool.and_eq_true ..).mp lower).1
      exact UInt32.le_trans (by decide) isLower
  by_contra digit
  rw [Bool.not_eq_false] at digit
  have below : char.val ≤ '9'.val := of_decide_eq_true ((Bool.and_eq_true ..).mp digit).2
  exact absurd (UInt32.le_trans above below) (by decide)

/-- No name starts with a digit. -/
theorem isDigit_of_isNameStart {char : Char} (start : isNameStart char = true) :
    char.isDigit = false := by
  simp only [isNameStart, Bool.or_eq_true, decide_eq_true_eq] at start
  rcases start with letter | rfl
  · exact isDigit_of_isAlpha letter
  · decide

/-- No name starts like a number. -/
theorem isNumberStart_of_isNameStart {char : Char} (start : isNameStart char = true) :
    isNumberStart char = false := by
  simp only [isNumberStart, Bool.or_eq_false_iff, decide_eq_false_iff_not]
  refine ⟨⟨⟨isDigit_of_isNameStart start, ?_⟩, ?_⟩, ?_⟩ <;>
    (rintro rfl; exact absurd start (by decide))

/-- A name may go on with digits. -/
theorem isNameChar_of_isDigit {char : Char} (digit : char.isDigit = true) :
    isNameChar char = true := by
  simp [isNameChar, isPlainNameChar, Char.isAlphanum, digit]

/-- A name may go on with whatever it may start with. -/
theorem isNameChar_of_isNameStart {char : Char} (start : isNameStart char = true) :
    isNameChar char = true := by
  simp only [isNameStart, Bool.or_eq_true, decide_eq_true_eq] at start
  rcases start with letter | rfl
  · simp [isNameChar, isPlainNameChar, Char.isAlphanum, letter]
  · decide

/-- A character of a name does not start a gap. -/
theorem not_isGapStart_of_isNameChar {char : Char} (inside : isNameChar char = true) :
    isGapStart char = false := by
  have outside : [' ', '\t', '\r', '\n', '/', '#'].any isNameChar = false := by decide
  by_contra start
  rw [Bool.not_eq_false] at start
  exact List.any_eq_false.mp outside char (isGapStart_cases start) inside

/-- No quote stands in a name. -/
theorem not_isQuote_of_isNameChar {char : Char} (inside : isNameChar char = true) :
    isQuote char = false := by
  simp only [isQuote, Bool.or_eq_false_iff, decide_eq_false_iff_not]
  constructor <;> (rintro rfl; exact absurd inside (by decide))

/-- The end of a word is no place for a character of a name. -/
theorem EndsWord.stops_isNameChar {rest : List Char} (ends : EndsWord rest) :
    Stops isNameChar rest :=
  ends.stops (by decide)

namespace Lexer

/-- A fixed text is taken where it stands, and nothing behind it. -/
theorem exactly_append (text : String) (rest : List Char) :
    exactly text (text.toList ++ rest) = some (text.toList, rest) := by
  simp [exactly, List.isPrefixOf_iff_prefix]

/-- A fixed text is not taken where it does not stand. -/
theorem exactly_eq_none {text : String} {chars : List Char} (missing : ¬ text.toList <+: chars) :
    exactly text chars = none := by
  simp [exactly, List.isPrefixOf_iff_prefix, missing]

/-- What is taken for a fixed text is that text, in front of what is left. -/
theorem exactly_eq_some_iff {text : String} {chars taken behind : List Char} :
    exactly text chars = some (taken, behind) ↔ taken = text.toList ∧ chars = taken ++ behind := by
  constructor
  · intro found
    by_cases isPrefix : text.toList <+: chars
    · obtain ⟨rest, rfl⟩ := isPrefix
      rw [exactly_append] at found
      cases found
      exact ⟨rfl, rfl⟩
    · rw [exactly_eq_none isPrefix] at found
      cases found
  · rintro ⟨rfl, rfl⟩
    exact exactly_append text behind

/-- A lexer may take what is not followed by a character of the class. -/
theorem endingBefore_eq_some {holds : Char → Bool} {lexer : Lexer} {chars taken rest : List Char}
    (lexes : lexer chars = some (taken, rest)) (stops : Stops holds rest) :
    endingBefore holds lexer chars = some (taken, rest) := by
  cases rest with
  | nil => simp [endingBefore, lexes]
  | cons char rest => simp [endingBefore, lexes, stops char rfl]

/-- A lexer fails if whatever it takes is followed by a character of the class. -/
theorem endingBefore_eq_none {holds : Char → Bool} {lexer : Lexer} {chars : List Char}
    (runsOn : ∀ taken rest, lexer chars = some (taken, rest) →
      ∃ char more, rest = char :: more ∧ holds char = true) :
    endingBefore holds lexer chars = none := by
  cases lexed : lexer chars with
  | none => simp [endingBefore, lexed]
  | some found =>
    obtain ⟨taken, rest⟩ := found
    obtain ⟨char, more, rfl, inside⟩ := runsOn taken rest lexed
    simp [endingBefore, lexed, inside]

/-- A run of at least one character is taken up to where its class stops. -/
theorem run1_append {holds : Char → Bool} {taken rest : List Char} (nonempty : taken ≠ [])
    (inside : ∀ char ∈ taken, holds char = true) (stops : Stops holds rest) :
    run1 holds (taken ++ rest) = some (taken, rest) := by
  obtain ⟨first, more, rfl⟩ := List.exists_cons_of_ne_nil nonempty
  simp only [run1, run_append inside stops]

/-- Two lexers take their parts one behind the other. -/
theorem followedBy_eq_some {first second : Lexer} {chars front between back rest : List Char}
    (takes : first chars = some (front, between)) (takesThen : second between = some (back, rest)) :
    followedBy first second chars = some (front ++ back, rest) := by
  simp [followedBy, takes, takesThen]

/-- What consists of the characters of names and starts a text is the start of the text's first
word. -/
theorem prefix_of_prefix_append {front word rest : List Char}
    (inside : ∀ char ∈ front, isNameChar char = true) (ends : EndsWord rest)
    (isPrefix : front <+: word ++ rest) : front <+: word := by
  rcases List.prefix_or_prefix_of_prefix isPrefix (List.prefix_append word rest) with
    shorter | longer
  · exact shorter
  · obtain ⟨more, rfl⟩ := longer
    obtain ⟨behind, same⟩ := isPrefix
    rw [List.append_assoc, List.append_cancel_left_eq] at same
    cases more with
    | nil => simp
    | cons char more =>
      have isName : isNameChar char = true := inside char (by simp)
      have stops := ends.stops_isNameChar char (by simp [← same])
      rw [isName] at stops
      cases stops

/-- A fixed text at the start of another name is followed by a character of a name. -/
theorem exactly_runs_on {text : String} {word rest taken behind : List Char}
    (isText : isNameText text = true) (inside : ∀ char ∈ word, isNameChar char = true)
    (ends : EndsWord rest) (other : word ≠ text.toList)
    (found : exactly text (word ++ rest) = some (taken, behind)) :
    ∃ char more, behind = char :: more ∧ isNameChar char = true := by
  obtain ⟨rfl, same⟩ := exactly_eq_some_iff.mp found
  obtain ⟨more, rfl⟩ :=
    prefix_of_prefix_append (isNameChar_of_isNameText isText) ends ⟨behind, same.symm⟩
  rw [List.append_assoc, List.append_cancel_left_eq] at same
  cases more with
  | nil => exact absurd (List.append_nil _) other
  | cons char more => exact ⟨char, more ++ rest, same.symm, inside char (by simp)⟩

/-- A keyword is taken where it stands as a word of its own. -/
theorem keyword_append {text : String} {rest : List Char} (ends : EndsWord rest) :
    keyword text (text.toList ++ rest) = some (text.toList, rest) :=
  endingBefore_eq_some (exactly_append text rest) ends.stops_isNameChar

/-- A keyword is not taken at another name, even at one that starts with it.

The name would go on behind the keyword, which the lexer of keywords looks for. -/
theorem keyword_eq_none {text : String} {word rest : List Char} (isText : isNameText text = true)
    (inside : ∀ char ∈ word, isNameChar char = true) (ends : EndsWord rest)
    (other : word ≠ text.toList) : keyword text (word ++ rest) = none :=
  endingBefore_eq_none fun _ _ found => exactly_runs_on isText inside ends other found

/-- Of some fixed texts, none of which starts another one, the one that stands there is found.

Proof: by induction on the texts. A text other than the one that stands there is not found, since it
would have to be a start of it; so the search goes on until it comes to the one that is. -/
theorem oneOf_append {texts : List String} {text : String} {rest : List Char}
    (isText : ∀ other ∈ texts, isNameText other = true) (listed : text ∈ texts)
    (apart : ∀ other ∈ texts, other.toList <+: text.toList → other = text)
    (ends : EndsWord rest) : oneOf texts (text.toList ++ rest) = some (text.toList, rest) := by
  induction texts with
  | nil => cases listed
  | cons other texts inductionHypothesis =>
    rw [List.forall_mem_cons] at isText apart
    by_cases same : other = text
    · subst same
      simp [oneOf, exactly_append]
    · have missing : exactly other (text.toList ++ rest) = none := by
        apply exactly_eq_none
        intro isPrefix
        have isName := isNameChar_of_isNameText isText.1
        exact same (apart.1 (prefix_of_prefix_append isName ends isPrefix))
      have later : text ∈ texts := (List.mem_cons.mp listed).resolve_left fun eq => same eq.symm
      have found := inductionHypothesis isText.2 later apart.2
      simp only [oneOf] at found ⊢
      rw [List.findSome?_cons, missing]
      exact found

/-- The one of some keywords that stands there as a word of its own is taken, provided that no other
one of them starts it. -/
theorem keywordOf_append {texts : List String} {text : String} {rest : List Char}
    (isText : ∀ other ∈ texts, isNameText other = true) (listed : text ∈ texts)
    (apart : ∀ other ∈ texts, other.toList <+: text.toList → other = text)
    (ends : EndsWord rest) : keywordOf texts (text.toList ++ rest) = some (text.toList, rest) :=
  endingBefore_eq_some (oneOf_append isText listed apart ends) ends.stops_isNameChar

/-- None of some keywords is taken at a name that is not among them. -/
theorem keywordOf_eq_none {texts : List String} {word rest : List Char}
    (isText : ∀ other ∈ texts, isNameText other = true)
    (inside : ∀ char ∈ word, isNameChar char = true) (ends : EndsWord rest)
    (other : ∀ text ∈ texts, word ≠ text.toList) : keywordOf texts (word ++ rest) = none := by
  apply endingBefore_eq_none
  intro taken behind found
  obtain ⟨text, listed, isFound⟩ := List.exists_of_findSome?_eq_some found
  exact exactly_runs_on (isText text listed) inside ends (other text listed) isFound

/-- A name that may refer to something is taken whole. -/
theorem identifier_append {text : String} {rest : List Char} (isName : isIdentifier text = true)
    (ends : EndsWord rest) : identifier (text.toList ++ rest) = some (text.toList, rest) := by
  unfold isIdentifier at isName
  split at isName
  case h_2 => cases isName
  case h_1 first more same =>
    simp only [Bool.and_eq_true, List.all_eq_true] at isName
    rw [same]
    simp [identifier, followedBy, oneChar, isName.1,
      run_append isName.2 ends.stops_isNameChar]

/-- A name that may be declared is taken whole; what comes behind it is neither a further character
of names nor a dot. -/
theorem declaredName_append {text : String} {rest : List Char}
    (isName : isDeclaredName text = true) (ends : EndsWord rest) :
    declaredName (text.toList ++ rest) = some (text.toList, rest) := by
  unfold isDeclaredName at isName
  split at isName
  case h_2 => cases isName
  case h_1 first more same =>
    simp only [Bool.and_eq_true, List.all_eq_true] at isName
    apply endingBefore_eq_some
    · rw [same]
      simp [followedBy, oneChar, isName.1, run_append isName.2 (ends.stops (by decide))]
    · exact ends.stops (by decide)

/-- The scope of a namespace is taken whole, be it the star or a name with hyphens.

A scope of names does not start with a star, so the first alternative fails on it. -/
theorem namespaceScope_append {text : String} {rest : List Char}
    (isScope : isScopeText text = true) (ends : EndsWord rest) :
    namespaceScope (text.toList ++ rest) = some (text.toList, rest) := by
  simp only [isScopeText, Bool.or_eq_true, decide_eq_true_eq, Bool.and_eq_true,
    Bool.not_eq_true', List.isEmpty_eq_false_iff] at isScope
  rcases isScope with star | ⟨nonempty, inside⟩
  · simp [namespaceScope, either, exactly, star]
  · have noStar : exactly "*" (text.toList ++ rest) = none := by
      apply exactly_eq_none
      rintro ⟨behind, same⟩
      cases chars : text.toList with
      | nil => exact nonempty chars
      | cons first more =>
        rw [chars] at same
        have isStar : first = '*' := (List.cons.inj same).1.symm
        rw [chars, List.all_cons, isStar] at inside
        simp [isNameChar, isPlainNameChar] at inside
    have stops : Stops (fun char => isNameChar char || char = '-') rest := ends.stops (by decide)
    have taken := run_append (List.all_eq_true.mp inside) stops
    simp only [namespaceScope, either, noStar, Option.orElse, run1, taken]
    cases chars : text.toList with
    | nil => exact absurd chars nonempty
    | cons first more => rfl

end Lexer

/-! ## Integers -/

/-- An integer is written as the digits of its magnitude, behind a minus if it is negative. -/
theorem toList_toString (number : Int) :
    (toString number).toList =
      (if number < 0 then ['-'] else []) ++ Nat.toDigits 10 number.natAbs := by
  rw [Int.toString_eq_repr, Int.repr_eq_if]
  by_cases negative : number < 0
  · rw [if_neg (by omega), if_pos negative, Nat.repr_eq_ofList_toDigits]
    have same : (-number).toNat = number.natAbs := by omega
    simp [same]
  · rw [if_pos (by omega), if_neg negative, Nat.repr_eq_ofList_toDigits]
    have same : number.toNat = number.natAbs := by omega
    simp [same]

/-- The decimal digits of a number are digits. -/
theorem isDigit_of_mem_digits (number : Nat) {char : Char}
    (inside : char ∈ Nat.toDigits 10 number) : char.isDigit = true :=
  Nat.isDigit_of_mem_toDigits (by decide) (by decide) inside

/-- The digits of a number start with a digit. -/
theorem exists_digits (number : Nat) :
    ∃ first more, Nat.toDigits 10 number = first :: more ∧ first.isDigit = true := by
  cases digits : Nat.toDigits 10 number with
  | nil => exact absurd digits Nat.toDigits_ne_nil
  | cons first more => exact ⟨first, more, rfl, isDigit_of_mem_digits number (by simp [digits])⟩

/-- A digit is no character that is not one. -/
theorem ne_of_isDigit {char : Char} (digit : char.isDigit = true) (other : Char)
    (outside : other.isDigit = false) : char ≠ other := by
  rintro rfl
  rw [digit] at outside
  cases outside

/-- Decimal digits spell the number they are written for. -/
theorem numberOfDigits_toDigits (number : Nat) :
    numberOfDigits 10 (Nat.toDigits 10 number) = number := by
  have same : ∀ (digits : List Char) (start : Nat), (∀ char ∈ digits, char.isDigit = true) →
      digits.foldl (fun number digit => number * 10 + digitValue digit) start =
        Nat.ofDigitChars 10 digits start := by
    intro digits
    induction digits with
    | nil => exact fun start _ => rfl
    | cons digit digits inductionHypothesis =>
      intro start isDigits
      rw [List.forall_mem_cons] at isDigits
      rw [List.foldl_cons, inductionHypothesis _ isDigits.2, Nat.ofDigitChars_cons]
      simp [digitValue, isDigits.1, Nat.mul_comm]
  rw [numberOfDigits, same _ 0 fun _ => isDigit_of_mem_digits number,
    Nat.ofDigitChars_toDigits (by decide) (by decide)]

/-- The sign of an integer is split off. -/
theorem splitSign_toString (number : Int) :
    splitSign (toString number).toList = (decide (number < 0), Nat.toDigits 10 number.natAbs) := by
  rw [toList_toString]
  by_cases negative : number < 0
  · simp [negative, splitSign]
  · obtain ⟨first, more, digits, isDigit⟩ := exists_digits number.natAbs
    have noMinus := ne_of_isDigit isDigit '-' (by decide)
    have noPlus := ne_of_isDigit isDigit '+' (by decide)
    simp [negative, splitSign, digits, noMinus, noPlus]

/-- The id of a field is read as it was written. Its digits stay in the range of ids, so it is not
refused. -/
theorem fieldIdOfLiteral?_toString (id : Int16) :
    fieldIdOfLiteral? (toString id.toInt) = some id := by
  have above := id.le_toInt
  have below := id.toInt_lt
  have value : (if id.toInt < 0 then -(id.toInt.natAbs : Int) else id.toInt.natAbs) = id.toInt := by
    split <;> omega
  simp only [fieldIdOfLiteral?, splitSign_toString, numberOfDigits_toDigits, decide_eq_true_eq,
    value]
  rw [if_pos (by omega), Int16.ofInt_toInt]

namespace Lexer

/-- The sign of an integer is taken, and its digits are left. -/
theorem sign_toString (number : Int) (rest : List Char) :
    sign ((toString number).toList ++ rest) =
      some (if number < 0 then ['-'] else [], Nat.toDigits 10 number.natAbs ++ rest) := by
  rw [toList_toString]
  by_cases negative : number < 0
  · simp [negative, sign, optionally, oneChar]
  · obtain ⟨first, more, digits, isDigit⟩ := exists_digits number.natAbs
    have noMinus := ne_of_isDigit isDigit '-' (by decide)
    have noPlus := ne_of_isDigit isDigit '+' (by decide)
    simp [negative, sign, optionally, oneChar, digits, noMinus, noPlus]

/-- The decimal digits of a number are taken up to where digits stop. -/
theorem digits_toDigits {number : Nat} {rest : List Char} (stops : Stops Char.isDigit rest) :
    digits (Nat.toDigits 10 number ++ rest) = some (Nat.toDigits 10 number, rest) :=
  run1_append Nat.toDigits_ne_nil (fun _ => isDigit_of_mem_digits number) stops

/-- The text of an id is taken whole, with its sign. -/
theorem fieldId_toString {number : Int} {rest : List Char} (ends : EndsWord rest) :
    fieldId ((toString number).toList ++ rest) = some ((toString number).toList, rest) := by
  have stops : Stops Char.isDigit rest := ends.stops (by decide)
  simp only [fieldId, followedBy, sign_toString, digits_toDigits stops, bind, Option.bind]
  rw [toList_toString]

/-! ## Texts in quotes -/

/-- A text is read up to its closing quote, the escaped ones left out. -/
theorem untilQuote_escaped (quote : Char) (noBackslash : quote ≠ '\\')
    (content rest : List Char) :
    untilQuote quote (escaped quote content ++ quote :: rest) =
      some (escaped quote content ++ [quote], rest) := by
  induction content with
  | nil => simp [escaped, untilQuote, noBackslash]
  | cons char content inductionHypothesis =>
    by_cases special : char = quote ∨ char = '\\'
    · simp [escaped, special, untilQuote, inductionHypothesis]
    · rw [not_or] at special
      simp [escaped, special, untilQuote, inductionHypothesis]

/-- A text in quotes is taken with both of its quotes, whichever they are and whatever follows. -/
theorem textLiteral_quoted {quote : Quote} {content : String} {rest : List Char} :
    textLiteral ((Word.quoted quote content).chars ++ rest) =
      some ((Word.quoted quote content).chars, rest) := by
  cases quote
  · simp [Word.chars, Quote.char, textLiteral, untilQuote_escaped '\x22' (by decide)]
  · simp [Word.chars, Quote.char, textLiteral, untilQuote_escaped '\x27' (by decide)]

/-! ## Failing at the first character -/

/-- A fixed text of characters of names is not taken where no such character comes next. -/
theorem exactly_stops {text : String} {chars : List Char} (isText : isNameText text = true)
    (stops : Stops isNameChar chars) : exactly text chars = none := by
  simp only [isNameText, Bool.and_eq_true, Bool.not_eq_true', List.isEmpty_eq_false_iff,
    List.all_eq_true] at isText
  apply exactly_eq_none
  rintro ⟨behind, rfl⟩
  cases same : text.toList with
  | nil => exact isText.1 same
  | cons first more =>
    have inside := isText.2 first (by simp [same])
    rw [stops first (by simp [same])] at inside
    cases inside

/-- No keyword is taken where no character of names comes next. -/
theorem keyword_stops {text : String} {chars : List Char} (isText : isNameText text = true)
    (stops : Stops isNameChar chars) : keyword text chars = none := by
  simp [keyword, endingBefore, exactly_stops isText stops]

/-- None of some keywords is taken where no character of names comes next. -/
theorem keywordOf_stops {texts : List String} {chars : List Char}
    (isText : ∀ text ∈ texts, isNameText text = true) (stops : Stops isNameChar chars) :
    keywordOf texts chars = none := by
  have missing : oneOf texts chars = none :=
    List.findSome?_eq_none_iff.mpr fun text listed => exactly_stops (isText text listed) stops
  simp [keywordOf, endingBefore, missing]

/-- No character of a class is taken where none comes next. -/
theorem oneChar_stops {holds : Char → Bool} {chars : List Char} (stops : Stops holds chars) :
    oneChar holds chars = none := by
  cases chars with
  | nil => rfl
  | cons char rest => simp [oneChar, stops char rfl]

/-- No name is taken where none starts. -/
theorem identifier_stops {chars : List Char} (stops : Stops isNameStart chars) :
    identifier chars = none := by
  simp [identifier, followedBy, oneChar_stops stops]

/-- No name to be declared is taken where none starts. -/
theorem declaredName_stops {chars : List Char} (stops : Stops isNameStart chars) :
    declaredName chars = none := by
  simp [declaredName, endingBefore, followedBy, oneChar_stops stops]

/-- Where no number starts there are neither a sign, digits nor a point. -/
theorem number_stops {chars : List Char} (stops : Stops isNumberStart chars) :
    sign chars = some ([], chars) ∧ digits chars = none ∧ exactly "." chars = none := by
  cases chars with
  | nil => exact ⟨rfl, rfl, rfl⟩
  | cons char rest =>
    have outside := stops char rfl
    simp only [isNumberStart, Bool.or_eq_false_iff, decide_eq_false_iff_not] at outside
    obtain ⟨⟨⟨noDigit, noPlus⟩, noMinus⟩, noPoint⟩ := outside
    refine ⟨?_, ?_, ?_⟩
    · simp [sign, optionally, oneChar, noPlus, noMinus]
    · simp [digits, run1, run, noDigit]
    · apply exactly_eq_none
      rintro ⟨behind, same⟩
      exact noPoint (List.cons.inj same).1.symm

/-- No number with a point or an exponent is taken where no number starts. -/
theorem doubleLiteral_stops {chars : List Char} (stops : Stops isNumberStart chars) :
    doubleLiteral chars = none := by
  obtain ⟨noSign, noDigits, noPoint⟩ := number_stops stops
  simp [doubleLiteral, followedBy, either, noSign, noDigits, noPoint]

/-- No integer is taken where no number starts. A hexadecimal one would start with a digit as well.
-/
theorem intLiteral_stops {chars : List Char} (stops : Stops isNumberStart chars) :
    intLiteral chars = none := by
  obtain ⟨noSign, noDigits, -⟩ := number_stops stops
  have noHexadecimal : exactly "0x" chars = none := by
    apply exactly_eq_none
    rintro ⟨behind, rfl⟩
    exact absurd (stops '0' rfl) (by decide)
  simp [intLiteral, endingBefore, followedBy, either, noSign, noDigits, noHexadecimal]

/-- No id of a field is taken where no number starts. -/
theorem fieldId_stops {chars : List Char} (stops : Stops isNumberStart chars) :
    fieldId chars = none := by
  obtain ⟨noSign, noDigits, -⟩ := number_stops stops
  simp [fieldId, followedBy, noSign, noDigits]

/-- No text is taken where no quote comes next. -/
theorem textLiteral_stops {chars : List Char} (stops : Stops isQuote chars) :
    textLiteral chars = none := by
  unfold textLiteral
  split
  · exact absurd (stops '\x22' rfl) (by decide)
  · exact absurd (stops '\x27' rfl) (by decide)
  · rfl

end Lexer

/-- Escaping is undone. The escapes of control characters are not in use. -/
theorem unescape_escaped (quote : Char) (itself : unescapedChar quote = quote)
    (content : List Char) : unescape (escaped quote content) = content := by
  induction content with
  | nil => rfl
  | cons char content inductionHypothesis =>
    by_cases special : char = quote ∨ char = '\\'
    · have char_itself : unescapedChar char = char := by
        rcases special with rfl | rfl
        · exact itself
        · rfl
      simp [escaped, special, unescape, inductionHypothesis, char_itself]
    · rw [not_or] at special
      simp [escaped, special, unescape, inductionHypothesis]

/-- The content of a text in quotes is read back from its characters: the quotes are dropped and
what was escaped is itself again. -/
theorem contentOfLiteral_quoted (quote : Quote) (content : String) :
    contentOfLiteral (String.ofList (Word.quoted quote content).chars) = content := by
  have undone := unescape_escaped quote.char (by cases quote <;> decide) content.toList
  simp [contentOfLiteral, Word.chars, undone]

end SchemaCodec
