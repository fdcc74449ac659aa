/-!
# Blank characters and lines

A blank is a character of the Unicode property `White_Space`. Trimming drops blanks from the ends of
a text and never from its middle.
-/

namespace SchemaCodec

/-- The code points of the property `White_Space`, in ascending order. -/
def blankCodePoints : List Nat := [
  0x09, 0x0A, 0x0B, 0x0C, 0x0D, 0x20, 0x85, 0xA0, 0x1680, 0x2000, 0x2001, 0x2002, 0x2003, 0x2004,
  0x2005, 0x2006, 0x2007, 0x2008, 0x2009, 0x200A, 0x2028, 0x2029, 0x202F, 0x205F, 0x3000]

/-- A character that trimming may drop. -/
def isBlank (char : Char) : Bool := blankCodePoints.contains char.toNat

/-- A text without its leading blanks. -/
def trimStart (text : String) : String := String.ofList (text.toList.dropWhile isBlank)

/-- A text without its leading and trailing blanks. -/
def trim (text : String) : String :=
  String.ofList ((text.toList.dropWhile isBlank).reverse.dropWhile isBlank).reverse

/-- The first line of a text. A carriage return before the line feed belongs to the line's end. -/
def firstLine (text : String) : String :=
  let chars := text.toList
  let line := chars.takeWhile (· ≠ '\n')
  let ended := line.length < chars.length
  if ended && line.getLast? = some '\r' then String.ofList line.dropLast else String.ofList line

end SchemaCodec
