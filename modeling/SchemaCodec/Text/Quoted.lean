import SchemaCodec.Text.Unprintable

/-!
# Text in double quotes, for display

A quoted text stays on one line and shows every character: the few with a customary escape by that
escape, an unprintable one by its code point in braces, and any other one as it is.
-/

namespace SchemaCodec

/-- The lowercase hexadecimal digits of a number, without leading zeros. -/
def hexadecimal (number : Nat) : String := String.ofList (Nat.toDigits 16 number)

/-- One character inside double quotes. The apostrophe needs no escape there. -/
def quotedChar (char : Char) : String :=
  if char = '\x00' then "\\0"
  else if char = '\t' then "\\t"
  else if char = '\r' then "\\r"
  else if char = '\n' then "\\n"
  else if char = '\\' then "\\\\"
  else if char = '\x22' then "\\\""
  else if isUnprintable char then "\\u\x7b" ++ hexadecimal char.toNat ++ "\x7d"
  else char.toString

/-- A text in double quotes, its characters escaped one by one. -/
def quoted (text : String) : String :=
  "\"" ++ String.join (text.toList.map quotedChar) ++ "\""

/-- A text that may be absent, as display writes it. -/
def quotedOption : Option String → String
  | none => "None"
  | some text => "Some(" ++ quoted text ++ ")"

end SchemaCodec
