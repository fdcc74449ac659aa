import SchemaCodec.Document.Parser

/-!
# What a parser reads, and what it refuses

A property of the cursor decides whether a parser succeeds there, whatever was expected before. A
parser reads from such places if it always succeeds, with a result and a place behind it of further
properties. It refuses them if it always fails. Both are carried from the parts of a parser to the
whole.
-/

namespace SchemaCodec.Parser

variable {α β : Type} {before between after : Cursor → Prop}

/-- From every place of a property, the parser reads a result with a property, up to a place of
another property. -/
def Reads (parser : Parser α) (before : Cursor → Prop) (holds : α → Prop)
    (after : Cursor → Prop) : Prop :=
  ∀ (cursor : Cursor) (attempts : Attempts), before cursor →
    ∃ (found : α) (reached : Cursor), (parser cursor attempts).1 = some (found, reached) ∧
      holds found ∧ after reached

/-- From every place of a property, the parser fails. -/
def Refuses (parser : Parser α) (before : Cursor → Prop) : Prop :=
  ∀ (cursor : Cursor) (attempts : Attempts), before cursor → (parser cursor attempts).1 = none

/-- What a parser gives beside what was expected on the way. -/
theorem outcome_eq {parser : Parser α} {cursor : Cursor} {attempts : Attempts}
    {result : Option (α × Cursor)} (same : (parser cursor attempts).1 = result) :
    parser cursor attempts = (result, (parser cursor attempts).2) :=
  Prod.ext same rfl

namespace Reads

variable {parser : Parser α} {holds : α → Prop}

/-- What is read with more properties than are wanted, up to fewer places than are admitted, is
read. -/
theorem mono {wanted : α → Prop} {behind : Cursor → Prop}
    (reads : parser.Reads before holds after) (enough : ∀ found, holds found → wanted found)
    (wider : ∀ cursor, after cursor → behind cursor) : parser.Reads before wanted behind := by
  intro cursor attempts isBefore
  obtain ⟨found, reached, succeeds, isHeld, isAfter⟩ := reads cursor attempts isBefore
  exact ⟨found, reached, succeeds, enough found isHeld, wider _ isAfter⟩

/-- Fewer properties of the result may be asked for. -/
theorem weaken {wanted : α → Prop} (reads : parser.Reads before holds after)
    (enough : ∀ found, holds found → wanted found) : parser.Reads before wanted after :=
  reads.mono enough fun _ isAfter => isAfter

/-- Reading goes on with any result of the property. -/
theorem bind {next : α → Parser β} {wanted : β → Prop} (reads : parser.Reads before holds between)
    (rest : ∀ found, holds found → (next found).Reads between wanted after) :
    (parser >>= next).Reads before wanted after := by
  intro cursor attempts isBefore
  obtain ⟨found, reached, succeeds, isHeld, isBetween⟩ := reads cursor attempts isBefore
  obtain ⟨result, last, succeedsThen, isWanted, isAfter⟩ :=
    rest found isHeld reached (parser cursor attempts).2 isBetween
  refine ⟨result, last, ?_, isWanted, isAfter⟩
  change (parser.andThen next cursor attempts).1 = _
  rw [andThen, outcome_eq succeeds]
  exact succeedsThen

/-- A known result goes on as it is. -/
theorem bind_eq {next : α → Parser β} {wanted : β → Prop} {result : α}
    (reads : parser.Reads before (· = result) between)
    (rest : (next result).Reads between wanted after) :
    (parser >>= next).Reads before wanted after :=
  reads.bind fun _ same => same ▸ rest

/-- A result may be changed once it is read. -/
theorem map {change : α → β} {wanted : β → Prop} (reads : parser.Reads before holds after)
    (enough : ∀ found, holds found → wanted (change found)) :
    (change <$> parser).Reads before wanted after := by
  rw [map_eq_pure_bind]
  apply reads.bind
  intro found isHeld cursor _ isAfter
  exact ⟨change found, cursor, rfl, enough found isHeld, isAfter⟩

/-- A name for a part matters only where it fails. -/
theorem part {name : Expectation} (reads : parser.Reads before holds after) :
    (Parser.part name parser).Reads before holds after := by
  intro cursor attempts isBefore
  obtain ⟨found, reached, succeeds, rest⟩ := reads cursor attempts isBefore
  refine ⟨found, reached, ?_, rest⟩
  rw [Parser.part, outcome_eq succeeds]

/-- A part that may be missing is read where it is there. -/
theorem optional (reads : parser.Reads before holds after) :
    (Parser.optional parser).Reads before
      (fun found => ∃ result, found = some result ∧ holds result) after := by
  intro cursor attempts isBefore
  obtain ⟨found, reached, succeeds, isHeld, rest⟩ := reads cursor attempts isBefore
  refine ⟨some found, reached, ?_, ⟨found, rfl, isHeld⟩, rest⟩
  rw [Parser.optional, outcome_eq succeeds]

/-- What the first of two parsers reads is read, and the second one is not tried. -/
theorem orElse {second : Parser α} (reads : parser.Reads before holds after) :
    (parser <|> second).Reads before holds after := by
  intro cursor attempts isBefore
  obtain ⟨found, reached, succeeds, rest⟩ := reads cursor attempts isBefore
  refine ⟨found, reached, ?_, rest⟩
  change (parser.orElse second cursor attempts).1 = _
  rw [Parser.orElse, outcome_eq succeeds]

end Reads

/-- A result that is given is read without moving the cursor. -/
theorem reads_pure {holds : α → Prop} {result : α} (isHeld : holds result) :
    (pure result : Parser α).Reads before holds before :=
  fun cursor _ isBefore => ⟨result, cursor, rfl, isHeld, isBefore⟩

/-- The place of the cursor is read without moving it. -/
theorem reads_here : here.Reads before (fun _ => True) before :=
  fun cursor _ isBefore => ⟨cursor.span, cursor, rfl, trivial, isBefore⟩

/-- A note changes nothing but the number that does not fit. -/
theorem reads_note {span : Span} {fault : ParseFault}
    (noted : ∀ cursor, before cursor → after (cursor.note span fault)) :
    (note span fault).Reads before (fun _ => True) after :=
  fun cursor _ isBefore => ⟨(), cursor.note span fault, rfl, trivial, noted cursor isBefore⟩

/-- A word is read if the lexer takes it, up to a cursor behind it. -/
theorem reads_take {lexer : Lexer} {holds : String → Prop}
    (lexes : ∀ cursor, before cursor →
      ∃ taken rest, lexer cursor.rest = some (taken, rest) ∧ holds (String.ofList taken) ∧
        after (cursor.after taken rest)) :
    (take lexer).Reads before holds after := by
  intro cursor attempts isBefore
  obtain ⟨taken, rest, isLexed, isHeld, isAfter⟩ := lexes cursor isBefore
  refine ⟨String.ofList taken, cursor.after taken rest, ?_, isHeld, isAfter⟩
  simp [take, isLexed]

namespace Refuses

variable {parser : Parser α}

/-- What is refused in many places is refused in fewer. -/
theorem from_narrower {narrower : Cursor → Prop} (refuses : parser.Refuses before)
    (inside : ∀ cursor, narrower cursor → before cursor) : parser.Refuses narrower :=
  fun cursor attempts isNarrower => refuses cursor attempts (inside _ isNarrower)

/-- What is refused is refused with anything behind it. -/
theorem bind {next : α → Parser β} (refuses : parser.Refuses before) :
    (parser >>= next).Refuses before := by
  intro cursor attempts isBefore
  change (parser.andThen next cursor attempts).1 = _
  rw [andThen, outcome_eq (refuses cursor attempts isBefore)]

/-- What is refused is refused whatever is made of its result. -/
theorem map {change : α → β} (refuses : parser.Refuses before) :
    (change <$> parser).Refuses before := by
  rw [map_eq_pure_bind]
  exact refuses.bind

/-- What is refused is refused under any name for what was expected. -/
theorem part {name : Expectation} (refuses : parser.Refuses before) :
    (Parser.part name parser).Refuses before := by
  intro cursor attempts isBefore
  rw [Parser.part, outcome_eq (refuses cursor attempts isBefore)]

/-- A part that is missing is left out. -/
theorem optional (refuses : parser.Refuses before) :
    (Parser.optional parser).Reads before (· = none) before := by
  intro cursor attempts isBefore
  refine ⟨none, cursor, ?_, rfl, isBefore⟩
  rw [Parser.optional, outcome_eq (refuses cursor attempts isBefore)]

/-- What the first of two parsers refuses is read if the second one reads it. The second one starts
at the same place, whatever the first one has noted as expected. -/
theorem orElse {second : Parser α} {holds : α → Prop} (refuses : parser.Refuses before)
    (reads : second.Reads before holds after) : (parser <|> second).Reads before holds after := by
  intro cursor attempts isBefore
  obtain ⟨found, reached, succeeds, rest⟩ := reads cursor (parser cursor attempts).2 isBefore
  refine ⟨found, reached, ?_, rest⟩
  change (parser.orElse second cursor attempts).1 = _
  rw [Parser.orElse, outcome_eq (refuses cursor attempts isBefore)]
  exact succeeds

/-- What both of two parsers refuse is refused. -/
theorem either {second : Parser α} (refuses : parser.Refuses before)
    (also : second.Refuses before) : (parser <|> second).Refuses before := by
  intro cursor attempts isBefore
  change (parser.orElse second cursor attempts).1 = _
  rw [Parser.orElse, outcome_eq (refuses cursor attempts isBefore)]
  exact also cursor (parser cursor attempts).2 isBefore

end Refuses

/-- What reads a first part and refuses what comes then refuses the whole. -/
theorem Reads.refuses_bind {parser : Parser α} {holds : α → Prop} {next : α → Parser β}
    (reads : parser.Reads before holds between)
    (refuses : ∀ found, holds found → (next found).Refuses between) :
    (parser >>= next).Refuses before := by
  intro cursor attempts isBefore
  obtain ⟨found, reached, succeeds, isHeld, isBetween⟩ := reads cursor attempts isBefore
  change (parser.andThen next cursor attempts).1 = _
  rw [andThen, outcome_eq succeeds]
  exact refuses found isHeld reached (parser cursor attempts).2 isBetween

/-- A word is refused where the lexer fails. -/
theorem refuses_take {lexer : Lexer} (fails : ∀ cursor, before cursor → lexer cursor.rest = none) :
    (take lexer).Refuses before := by
  intro cursor attempts isBefore
  simp [take, fails cursor isBefore]

/-- The parser that always fails refuses every place. -/
theorem refuses_fail : (fail : Parser α).Refuses before := fun _ _ _ => rfl

end SchemaCodec.Parser
