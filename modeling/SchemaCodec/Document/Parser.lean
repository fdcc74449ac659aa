import SchemaCodec.Document.Expectation

/-!
# Parsers over a document's text

A parser reads from a cursor and either gives a result and a later cursor, or fails and leaves the
cursor behind. It also keeps account of what was expected at the furthest place reached; this
account only grows, whether the parser succeeds or fails. A number that does not fit is noted on the
cursor, so it is forgotten when the reading that met it is given up.
-/

namespace SchemaCodec

/-- A place in a text with all that stands behind it. -/
structure Cursor where
  rest : List Char
  /-- The number of characters before the place. -/
  offset : Nat := 0
  span : Span := ⟨1, 1⟩
  /-- The first number so far that does not fit, with its place. -/
  misfit : Option (Span × ParseFault) := none

namespace Cursor

/-- The place behind one character. A line ends behind a line feed. -/
def advance (span : Span) (char : Char) : Span :=
  if char = '\n' then ⟨span.line + 1, 1⟩ else ⟨span.line, span.column + 1⟩

/-- The cursor behind some characters, with what stands behind them. -/
def after (cursor : Cursor) (taken rest : List Char) : Cursor :=
  { cursor with
    rest
    offset := cursor.offset + taken.length
    span := taken.foldl advance cursor.span }

/-- Note a number that does not fit, unless one is noted already. -/
def note (cursor : Cursor) (span : Span) (fault : ParseFault) : Cursor :=
  { cursor with misfit := cursor.misfit.or (some (span, fault)) }

end Cursor

/-- What was expected at the furthest place reached. -/
structure Attempts where
  offset : Nat := 0
  span : Span := ⟨1, 1⟩
  expected : List Expectation := []

namespace Attempts

/-- The number of parts expected at a place. -/
def countAt (attempts : Attempts) (offset : Nat) : Nat :=
  if offset = attempts.offset then attempts.expected.length else 0

/-- Note that a part was expected at a place and not found, given the number of parts that were
expected there before it was tried. The part stands for all that was tried inside it at its own
place, except for a single one, which says more than the part. A further place makes the others
unimportant. -/
def record (attempts : Attempts) (cursor : Cursor) (part : Expectation) (before : Nat) : Attempts :=
  if attempts.countAt cursor.offset = before + 1 then attempts
  else if cursor.offset = attempts.offset then
    { attempts with expected := attempts.expected.take before ++ [part] }
  else if attempts.offset < cursor.offset then
    { offset := cursor.offset, span := cursor.span, expected := [part] }
  else attempts

end Attempts

/-- A parser of some result. It keeps a record of the parts that it tried and where, also along ways
that fail, since the error message is made of them. -/
def Parser (α : Type) : Type := Cursor → Attempts → Option (α × Cursor) × Attempts

/-- A recogniser of characters: those that it takes, and what stands behind them. -/
abbrev Lexer := List Char → Option (List Char × List Char)

namespace Parser

/-- Give a result without reading. -/
def give (result : α) : Parser α := fun cursor attempts => (some (result, cursor), attempts)

/-- Read on with the result of a parser, unless it failed. -/
def andThen (first : Parser α) (next : α → Parser β) : Parser β := fun cursor attempts =>
  match first cursor attempts with
  | (some (result, cursor), attempts) => next result cursor attempts
  | (none, attempts) => (none, attempts)

/-- Parsers are run one behind another, each from where the one in front of it has ended. -/
instance : Monad Parser where
  pure := give
  bind := andThen

/-- The order in which sequences of parsers are bracketed does not matter. -/
instance : LawfulMonad Parser :=
  LawfulMonad.mk' Parser
    (fun parser => funext fun cursor => funext fun attempts => by
      simp only [Functor.map, andThen]
      rcases parser cursor attempts with ⟨_ | ⟨_, _⟩, _⟩ <;> rfl)
    (fun _ _ => rfl)
    (fun parser _ _ => funext fun cursor => funext fun attempts => by
      simp only [bind, andThen]
      rcases parser cursor attempts with ⟨_ | ⟨_, _⟩, _⟩ <;> rfl)

/-- Fail without reading. -/
def fail : Parser α := fun _ attempts => (none, attempts)

/-- Try one parser and, if it fails, another one from the same place. -/
def orElse (first : Parser α) (second : Parser α) : Parser α := fun cursor attempts =>
  match first cursor attempts with
  | (some result, attempts) => (some result, attempts)
  | (none, attempts) => second cursor attempts

/-- The second parser is tried where the first one fails, with what that one has noted. -/
instance : OrElse (Parser α) where
  orElse first second := first.orElse (second ())

/-- Try a parser, and stay in place if it fails. -/
def optional (parser : Parser α) : Parser (Option α) := fun cursor attempts =>
  match parser cursor attempts with
  | (some (result, cursor), attempts) => (some (some result, cursor), attempts)
  | (none, attempts) => (some (none, cursor), attempts)

/-- The place at which the next part starts. -/
def here : Parser Span := fun cursor attempts => (some (cursor.span, cursor), attempts)

/-- The number of characters left, which bounds every repetition and every nesting. -/
def left : Parser Nat := fun cursor attempts => (some (cursor.rest.length, cursor), attempts)

/-- Note that a number at a place does not fit. -/
def note (span : Span) (fault : ParseFault) : Parser Unit := fun cursor attempts =>
  (some ((), cursor.note span fault), attempts)

/-- Take the characters that a lexer recognises. Where it recognises none, the cursor stays. -/
def take (lexer : Lexer) : Parser String := fun cursor attempts =>
  match lexer cursor.rest with
  | some (taken, rest) => (some (String.ofList taken, cursor.after taken rest), attempts)
  | none => (none, attempts)

/-- A part that error messages name. Where it fails, it is recorded at its start, in place of the
parts that were tried there inside it, unless there was only one. -/
def part (name : Expectation) (parser : Parser α) : Parser α := fun cursor attempts =>
  match parser cursor attempts with
  | (some result, after) => (some result, after)
  | (none, after) => (none, after.record cursor name (attempts.countAt cursor.offset))

/-- A part that consists of the characters of one lexer. -/
def token (name : Expectation) (lexer : Lexer) : Parser String := part name (take lexer)

/-- Repeat a parser at most that many times, each time behind what separates the repetitions. The
separator before a repetition that fails is given back. -/
def repeatAfter (separator : Parser Unit) (parser : Parser α) : Nat → Parser (List α)
  | 0 => give []
  | bound + 1 => do
    match ← optional (separator.andThen fun _ => parser) with
    | none => give []
    | some head =>
      let rest ← repeatAfter separator parser bound
      give (head :: rest)

/-- Repeat a parser as often as it succeeds. Every repetition takes a character at least, and the
last one is tried even where no character is left. -/
def many (separator : Parser Unit) (parser : Parser α) : Parser (List α) := do
  match ← optional parser with
  | none => give []
  | some head =>
    let bound ← left
    let rest ← repeatAfter separator parser (bound + 1)
    give (head :: rest)

end Parser

end SchemaCodec
