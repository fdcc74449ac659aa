import SchemaCodec.Document.Parser
import SchemaCodec.Number.Rounding

/-!
# The words of a document

A lexer takes the longest word of its class and nothing else. Letters and digits are those of ASCII;
only texts in quotes and comments hold other characters.
-/

namespace SchemaCodec.Lexer

/-- A character that starts a name. -/
def isNameStart (char : Char) : Bool := char.isAlpha || char = '_'

/-- A character inside a name that is declared. -/
def isPlainNameChar (char : Char) : Bool := char.isAlphanum || char = '_'

/-- A character inside a name that refers to something, possibly in another module. -/
def isNameChar (char : Char) : Bool := isPlainNameChar char || char = '.'

/-- A hexadecimal digit of either case. -/
def isHexDigit (char : Char) : Bool :=
  char.isDigit || ('a' ≤ char && char ≤ 'f') || ('A' ≤ char && char ≤ 'F')

/-- The longest run of characters of a class. -/
def run (holds : Char → Bool) (chars : List Char) : List Char × List Char :=
  (chars.takeWhile holds, chars.dropWhile holds)

/-- The longest run of characters of a class, one at least. -/
def run1 (holds : Char → Bool) : Lexer := fun chars =>
  match run holds chars with
  | ([], _) => none
  | found => some found

/-- One lexer behind another. Where the second one fails, nothing is taken. -/
def followedBy (first second : Lexer) : Lexer := fun chars => do
  let (front, rest) ← first chars
  let (back, rest) ← second rest
  some (front ++ back, rest)

/-- A lexer, or nothing where it fails. It never fails itself. -/
def optionally (lexer : Lexer) : Lexer := fun chars =>
  (lexer chars).orElse fun _ => some ([], chars)

/-- One lexer, or another where it fails. What the first one takes is final. -/
def either (first second : Lexer) : Lexer := fun chars => (first chars).orElse fun _ => second chars

/-- A lexer whose word must not run into a character of a class. -/
def endingBefore (holds : Char → Bool) (lexer : Lexer) : Lexer := fun chars => do
  let (taken, rest) ← lexer chars
  match rest with
  | char :: _ => if holds char then none else some (taken, rest)
  | [] => some (taken, rest)

/-- A fixed text, whatever follows it. Whether a word ends there is asked elsewhere. -/
def exactly (text : String) : Lexer := fun chars =>
  if text.toList.isPrefixOf chars then some (text.toList, chars.drop text.toList.length) else none

/-- The first of some fixed texts that stands there. -/
def oneOf (texts : List String) : Lexer := fun chars =>
  texts.findSome? fun text => exactly text chars

/-- One character of a class. -/
def oneChar (holds : Char → Bool) : Lexer
  | char :: rest => if holds char then some ([char], rest) else none
  | [] => none

/-- A fixed word that must not run into a name. -/
def keyword (text : String) : Lexer := endingBefore isNameChar (exactly text)

/-- One of some fixed words, which must not run into a name. -/
def keywordOf (texts : List String) : Lexer := endingBefore isNameChar (oneOf texts)

/-- A name that refers to something. -/
def identifier : Lexer := followedBy (oneChar isNameStart) fun chars => some (run isNameChar chars)

/-- A name that is declared. It has no dots and is not the start of a name that has one. -/
def declaredName : Lexer :=
  endingBefore (· = '.')
    (followedBy (oneChar isNameStart) fun chars => some (run isPlainNameChar chars))

/-- The scope of a namespace: a star, or a run of letters, digits and joining marks. -/
def namespaceScope : Lexer :=
  either (exactly "*") (run1 fun char => isNameChar char || char = '-')

/-- A sign, or nothing. -/
def sign : Lexer := optionally (oneChar fun char => char = '+' || char = '-')

/-- Decimal digits, one at least. -/
def digits : Lexer := run1 Char.isDigit

/-- A power of ten. -/
def exponent : Lexer :=
  followedBy (oneChar fun char => char = 'e' || char = 'E') (followedBy sign digits)

/-- A number with a point, an exponent or both. -/
def doubleLiteral : Lexer :=
  followedBy sign
    (either
      (followedBy digits (followedBy (exactly ".") (followedBy digits (optionally exponent))))
      (either (followedBy digits exponent)
        (followedBy (exactly ".") (followedBy digits (optionally exponent)))))

/-- An integer in decimal or hexadecimal digits. No character of a name may follow, and whether the
number fits is not asked here. -/
def intLiteral : Lexer :=
  endingBefore isNameChar
    (followedBy sign (either (followedBy (exactly "0x") (run1 isHexDigit)) digits))

/-- The id of a field. -/
def fieldId : Lexer := followedBy sign digits

/-- The rest of a text in quotes, its closing quote included. A backslash takes the next character
along. -/
def untilQuote (quote : Char) : Lexer
  | [] => none
  | '\\' :: char :: rest =>
    (untilQuote quote rest).map fun (taken, rest) => ('\\' :: char :: taken, rest)
  | char :: rest =>
    if char = quote then some ([char], rest)
    else (untilQuote quote rest).map fun (taken, rest) => (char :: taken, rest)

/-- A text in double or single quotes, both of them included. A quote of the other kind does not end
it. -/
def textLiteral : Lexer
  | '\x22' :: rest => (untilQuote '\x22' rest).map fun (taken, rest) => ('\x22' :: taken, rest)
  | '\x27' :: rest => (untilQuote '\x27' rest).map fun (taken, rest) => ('\x27' :: taken, rest)
  | _ => none

/-- A character that separates words. -/
def isSpace (char : Char) : Bool := char = ' ' || char = '\t' || char = '\r' || char = '\n'

/-- The rest of a comment between delimiters, the closing one included. -/
def untilCommentEnd : Lexer
  | [] => none
  | '*' :: '/' :: rest => some (['*', '/'], rest)
  | char :: rest => (untilCommentEnd rest).map fun (taken, rest) => (char :: taken, rest)

/-- The rest of a line, its end excluded. -/
def untilLineEnd (chars : List Char) : List Char × List Char :=
  run (fun char => char ≠ '\n' && char ≠ '\r') chars

/-- A comment. One between delimiters that is never closed is no comment. -/
def comment : Lexer
  | '/' :: '*' :: rest =>
    (untilCommentEnd rest).map fun (taken, rest) => ('/' :: '*' :: taken, rest)
  | '/' :: '/' :: rest => some ('/' :: '/' :: (untilLineEnd rest).1, (untilLineEnd rest).2)
  | '#' :: rest => some ('#' :: (untilLineEnd rest).1, (untilLineEnd rest).2)
  | _ => none

/-- Spaces and comments in any order, that many runs of them at most. -/
def spacesWithin : Nat → List Char → List Char × List Char
  | 0, chars => ([], chars)
  | bound + 1, chars =>
    let (spaces, rest) := run isSpace chars
    match comment rest with
    | none => (spaces, rest)
    | some (remark, rest) =>
      let (more, rest) := spacesWithin bound rest
      (spaces ++ remark ++ more, rest)

/-- All spaces and comments that stand there. A comment takes a character at least. -/
def spaces : Lexer := fun chars => some (spacesWithin (chars.length + 1) chars)

end SchemaCodec.Lexer

namespace SchemaCodec

/-- The value of a digit, decimal or hexadecimal. -/
def digitValue (char : Char) : Nat :=
  if char.isDigit then char.toNat - '0'.toNat
  else if 'a' ≤ char then char.toNat - 'a'.toNat + 10
  else char.toNat - 'A'.toNat + 10

/-- The number spelled by some digits in a base. -/
def numberOfDigits (base : Nat) (digits : List Char) : Nat :=
  digits.foldl (fun number digit => number * base + digitValue digit) 0

/-- A leading sign, and what stands behind it. -/
def splitSign : List Char → Bool × List Char
  | '-' :: rest => (true, rest)
  | '+' :: rest => (false, rest)
  | chars => (false, chars)

/-- The magnitude of an integer literal without its sign. -/
def magnitudeOfLiteral : List Char → Nat
  | '0' :: 'x' :: digits => numberOfDigits 16 digits
  | digits => numberOfDigits 10 digits

/-- The integer that a literal spells. The magnitude must fit into 63 bits whatever the sign. -/
def intOfLiteral? (text : String) : Option Int :=
  let (negative, chars) := splitSign text.toList
  let magnitude := magnitudeOfLiteral chars
  if magnitude < 0x8000000000000000 then some (if negative then -magnitude else magnitude) else none

/-- The field id that a literal spells, if sixteen bits hold it. -/
def fieldIdOfLiteral? (text : String) : Option Int16 :=
  let (negative, chars) := splitSign text.toList
  let magnitude := numberOfDigits 10 chars
  let number : Int := if negative then -magnitude else magnitude
  if -0x8000 ≤ number ∧ number < 0x8000 then some (Int16.ofInt number) else none

/-- The power of ten behind the letter of an exponent, or zero without one. -/
def exponentOfLiteral : List Char → Int
  | [] => 0
  | _ :: rest =>
    let (negative, chars) := splitSign rest
    let magnitude := numberOfDigits 10 chars
    if negative then -magnitude else magnitude

/-- The decimal number that a literal with a point or an exponent spells. -/
def decimalOfLiteral (text : String) : Decimal :=
  let (negative, chars) := splitSign text.toList
  let (whole, rest) := Lexer.run Char.isDigit chars
  let (fraction, rest) :=
    match rest with
    | '.' :: rest => Lexer.run Char.isDigit rest
    | _ => ([], rest)
  { negative
    coefficient := numberOfDigits 10 (whole ++ fraction)
    exponent := exponentOfLiteral rest - fraction.length }

/-- The character that a backslash and a letter stand for. Any other character stands for itself. -/
def unescapedChar : Char → Char
  | 'n' => '\n'
  | 't' => '\t'
  | 'r' => '\r'
  | '0' => '\x00'
  | char => char

/-- Characters with their escapes resolved. A backslash at the end stands for itself. -/
def unescape : List Char → List Char
  | [] => []
  | '\\' :: char :: rest => unescapedChar char :: unescape rest
  | char :: rest => char :: unescape rest

/-- The content of a text in quotes, without these and with its escapes resolved. -/
def contentOfLiteral (text : String) : String :=
  String.ofList (unescape (text.toList.drop 1).dropLast)

end SchemaCodec
