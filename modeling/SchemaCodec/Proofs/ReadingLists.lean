import SchemaCodec.Proofs.PlainForm
import SchemaCodec.Proofs.WordReading

/-!
# Reading lists of parts

A repetition reads items one behind another until its parser refuses what comes next. The bound on
the number of repetitions is never met, since every item has a word of its own. From the items the
parts between two marks are read, and from those the annotations of a declaration.
-/

namespace SchemaCodec

open SchemaCodec.Parser SchemaCodec.Grammar

variable {α β : Type} {written : α → List Word → Prop} {holds : α → β → Prop} {parser : Parser β}
  {fault : Option ParseFault}

/-- Items one behind another, each in words of its own. Nothing stands between the words of two
items, so separators are words of the items. -/
inductive Sequence (written : α → List Word → Prop) : List α → List Word → Prop
  | nil : Sequence written [] []
  | cons {item : α} {items : List α} {front rest : List Word} (first : written item front)
      (more : Sequence written items rest) : Sequence written (item :: items) (front ++ rest)

/-- The words of an item with a separator behind it. -/
def WithSeparator (written : α → List Word → Prop) (item : α) (words : List Word) : Prop :=
  ∃ front separator, words = front ++ [.mark separator] ∧ separator.IsSeparator ∧ written item front

/-- The words of an item, perhaps with a separator behind it. -/
def WithEnd (written : α → List Word → Prop) (item : α) (words : List Word) : Prop :=
  ∃ front endWords, words = front ++ endWords ∧ WrittenEnd endWords ∧ written item front

/-- A separator behind an item is one that may stand there. -/
theorem WithSeparator.withEnd {item : α} {words : List Word}
    (separated : WithSeparator written item words) : WithEnd written item words := by
  obtain ⟨front, separator, rfl, separates, body⟩ := separated
  exact ⟨front, [.mark separator], rfl, .present separates, body⟩

/-- Items in words of a kind are items in words of a wider kind. -/
theorem Sequence.mono {wider : α → List Word → Prop} {items : List α} {words : List Word}
    (sequence : Sequence written items words)
    (widens : ∀ item front, written item front → wider item front) :
    Sequence wider items words := by
  induction sequence with
  | nil => exact .nil
  | cons first _ inductionHypothesis => exact .cons (widens _ _ first) inductionHypothesis

/-- Items with separators behind them stand one behind another. -/
theorem Listed.sequence {items : List α} {words : List Word} (listed : Listed written items words) :
    Sequence (WithSeparator written) items words := by
  induction listed with
  | nil => exact .nil
  | @cons item items front rest separator first separates more inductionHypothesis =>
    have split : front ++ .mark separator :: rest = (front ++ [.mark separator]) ++ rest := by simp
    rw [split]
    exact .cons ⟨front, separator, rfl, separates, first⟩ inductionHypothesis

/-- Further items may follow some items. -/
theorem Sequence.append {items others : List α} {front back : List Word}
    (first : Sequence written items front) (second : Sequence written others back) :
    Sequence written (items ++ others) (front ++ back) := by
  induction first with
  | nil => exact second
  | cons item _ inductionHypothesis =>
    rw [List.append_assoc]
    exact .cons item inductionHypothesis

/-- A list has no more items than words, if every item has one. -/
theorem Sequence.length_le {items : List α} {words : List Word}
    (sequence : Sequence written items words)
    (nonempty : ∀ item front, written item front → front ≠ []) : items.length ≤ words.length := by
  induction sequence with
  | nil => exact Nat.le_refl 0
  | cons first more inductionHypothesis =>
    have positive := List.length_pos_iff.mpr (nonempty _ _ first)
    simp only [List.length_cons, List.length_append]
    omega

/-- What is admissible behind an item, a further item or the end, stands behind every item. -/
theorem Sequence.follows {follows : List Word → Prop} {items : List α} {words more : List Word}
    (sequence : Sequence written items words)
    (extend : ∀ item front behind, written item front → follows (front ++ behind))
    (admissible : follows more) : follows (words ++ more) := by
  cases sequence with
  | nil => exact admissible
  | cons first _ =>
    rw [List.append_assoc]
    exact extend _ _ _ first

/-! ## Repetitions -/

/-- Every item of a list is read where it stands, whatever admissible words follow it. -/
def ReadsItems (fault : Option ParseFault) (parser : Parser β) (written : α → List Word → Prop)
    (holds : α → β → Prop) (follows : List Word → Prop) (items : List α) : Prop :=
  ∀ item ∈ items, ∀ front behind, written item front → follows behind →
    parser.Reads (Facing fault (front ++ behind)) (holds item) (Nearing fault behind)

/-- Items are read one behind another, each behind a gap, if the bound is no less than their number
and the parser refuses what comes behind them.

Proof: induction on the sequence. Each item is followed by a further one or by what ends the list,
which is admissible behind it. -/
theorem reads_repeatAfter {follows : List Word → Prop} {items : List α} {words more : List Word}
    (sequence : Sequence written items words)
    (reads : ReadsItems fault parser written holds follows items)
    (extend : ∀ item front behind, written item front → follows (front ++ behind))
    (admissible : follows more) (ends : parser.Refuses (Facing fault more)) :
    ∀ bound, items.length ≤ bound → (repeatAfter spaces parser bound).Reads
      (Nearing fault (words ++ more)) (List.Forall₂ holds items) (Nearing fault more) := by
  induction sequence with
  | nil =>
    intro bound _
    cases bound with
    | zero => exact reads_pure .nil
    | succ bound => exact ends.next.optional.bind_eq (reads_pure .nil)
  | @cons item items front rest first sequence inductionHypothesis =>
    intro bound enough
    obtain ⟨bound, rfl⟩ := Nat.exists_eq_add_one_of_ne_zero (Nat.ne_zero_of_lt enough)
    have readsFirst := reads item (by simp) front (rest ++ more) first
      (sequence.follows extend admissible)
    have readsRest := inductionHypothesis
      (fun item isItem => reads item (List.mem_cons_of_mem _ isItem)) bound
      (Nat.le_of_succ_le_succ enough)
    rw [List.append_assoc]
    apply readsFirst.next.optional.bind
    rintro _ ⟨head, rfl, isHead⟩
    apply readsRest.bind
    intro found isFound
    exact reads_pure (.cons isHead isFound)

/-- A repetition reads all items of a list up to what its parser refuses.

Proof: the first item stands at the cursor and the others behind gaps. The bound is the number of
characters that are left, and each item has a character of its own, so the bound is not met. -/
theorem reads_repeated {follows : List Word → Prop} {items : List α} {words more : List Word}
    (sequence : Sequence written items words)
    (reads : ReadsItems fault parser written holds follows items)
    (nonempty : ∀ item front, written item front → front ≠ [])
    (extend : ∀ item front behind, written item front → follows (front ++ behind))
    (admissible : follows more) (ends : parser.Refuses (Facing fault more)) :
    (repeated parser).Reads (Facing fault (words ++ more)) (List.Forall₂ holds items)
      (Nearing fault more) := by
  cases sequence with
  | nil =>
    exact (ends.optional.mono (fun _ => id) fun _ => Facing.nearing).bind_eq (reads_pure .nil)
  | @cons item items front rest first sequence =>
    have readsFirst := reads item (by simp) front (rest ++ more) first
      (sequence.follows extend admissible)
    rw [List.append_assoc]
    apply readsFirst.optional.bind
    rintro _ ⟨head, rfl, isHead⟩
    apply (reads_left fun _ => Nearing.length_le).bind
    intro bound enough
    have fits : items.length ≤ bound + 1 := by
      have shorter := sequence.length_le nonempty
      rw [List.length_append] at enough
      omega
    have readsRest := reads_repeatAfter sequence
      (fun item isItem => reads item (List.mem_cons_of_mem _ isItem)) extend admissible ends
      (bound + 1) fits
    apply readsRest.bind
    intro found isFound
    exact reads_pure (.cons isHead isFound)

/-- A list of separated items is read up to what the parser of its items refuses. -/
theorem reads_listed {items : List α} {words more : List Word} (listed : Listed written items words)
    (reads : ReadsItems fault parser (WithSeparator written) holds (fun _ => True) items)
    (ends : parser.Refuses (Facing fault more)) :
    (repeated parser).Reads (Facing fault (words ++ more)) (List.Forall₂ holds items)
      (Nearing fault more) := by
  apply reads_repeated listed.sequence reads _ (fun _ _ _ _ => trivial) trivial ends
  rintro item _ ⟨front, separator, rfl, -⟩
  simp

/-- Items between two marks are read with the marks around them. -/
theorem reads_enclosed (opening closing : Mark) {items : List α} {words more : List Word}
    (reads : (repeated parser).Reads (Facing fault (words ++ .mark closing :: more))
      (List.Forall₂ holds items) (Nearing fault (.mark closing :: more))) :
    (enclosed opening.text closing.text parser).Reads
      (Facing fault (.mark opening :: (words ++ .mark closing :: more))) (List.Forall₂ holds items)
      (Nearing fault more) := by
  apply (reads_mark opening).bind
  intro _ _
  apply reads.next.bind
  intro found isFound
  exact (reads_mark closing).next.bind fun _ _ => reads_pure isFound

/-! ## Separators -/

/-- A comma or a semicolon is read as a separator. -/
theorem reads_separator {punctuation : Mark} {words : List Word}
    (separates : punctuation.IsSeparator) :
    separator.Reads (Facing fault (.mark punctuation :: words)) (fun _ => True)
      (Nearing fault words) := by
  have reads : (mark "," <|> mark ";").Reads (Facing fault (.mark punctuation :: words))
      (fun _ => True) (Nearing fault words) := by
    rcases separates with rfl | rfl
    · exact (reads_mark .comma).orElse
    · have noComma : (mark ",").Refuses (Facing fault (.mark .semicolon :: words)) :=
        refuses_mark .comma (by simp)
      exact noComma.orElse (reads_mark .semicolon)
  exact reads.optional.bind fun _ _ => reads_pure trivial

/-- Where neither a comma nor a semicolon comes next, no separator is read. -/
theorem separator_missing {words : List Word} (noComma : words.head? ≠ some (.mark .comma))
    (noSemicolon : words.head? ≠ some (.mark .semicolon)) :
    separator.Reads (Facing fault words) (fun _ => True) (Facing fault words) := by
  have refuses : (mark "," <|> mark ";").Refuses (Facing fault words) :=
    (refuses_mark .comma noComma).either (refuses_mark .semicolon noSemicolon)
  exact refuses.optional.bind fun _ _ => reads_pure trivial

/-- A separator that may follow is read where it stands. -/
theorem reads_end {endWords more : List Word} (ends : WrittenEnd endWords)
    (noComma : more.head? ≠ some (.mark .comma))
    (noSemicolon : more.head? ≠ some (.mark .semicolon)) :
    (next separator).Reads (Nearing fault (endWords ++ more)) (fun _ => True)
      (Nearing fault more) := by
  cases ends with
  | absent =>
    have skips : separator.Reads (Facing fault more) (fun _ => True) (Facing fault more) :=
      separator_missing noComma noSemicolon
    exact (skips.mono (fun _ => id) fun _ => Facing.nearing).next
  | present separates => exact (reads_separator separates).next

/-- Behind a separator that may stand or not, a mark other than a separator comes only if it comes
anyway. -/
theorem WrittenEnd.head_ne {endWords more : List Word} (ends : WrittenEnd endWords)
    {other : Mark} (noComma : other ≠ .comma) (noSemicolon : other ≠ .semicolon)
    (apart : more.head? ≠ some (.mark other)) :
    (endWords ++ more).head? ≠ some (.mark other) := by
  cases ends with
  | absent => exact apart
  | present separates =>
    rcases separates with rfl | rfl
    · simpa using noComma.symm
    · simpa using noSemicolon.symm

/-- An item and the separator behind it are read one after the other. -/
theorem reads_withSeparator {item : Parser β} {holds : β → Prop} {separator : Mark}
    {words behind : List Word} (separates : separator.IsSeparator)
    (reads : item.Reads (Facing fault (words ++ .mark separator :: behind)) holds
      (Nearing fault (.mark separator :: behind))) :
    (do let found ← item; next Grammar.separator; pure found).Reads
      (Facing fault ((words ++ [Word.mark separator]) ++ behind)) holds (Nearing fault behind) := by
  rw [List.append_assoc]
  apply reads.bind
  intro found isFound
  exact (reads_separator separates).next.bind fun _ _ => reads_pure isFound

/-! ## Assignments and annotations -/

/-- What is assigned is read behind its equals sign, and nothing is read where there is no such
sign. -/
theorem reads_assigned {value : Option α} {words more : List Word}
    (assigned : Assigned written value words) (noEquals : more.head? ≠ some (.mark .equals))
    (reads : ∀ held ∈ value, ∀ body, written held body →
      parser.Reads (Facing fault (body ++ more)) (holds held) (Nearing fault more)) :
    (Grammar.assigned parser).Reads (Facing fault (words ++ more)) (Option.Rel holds value)
      (Nearing fault more) := by
  cases assigned with
  | absent =>
    have refuses : (mark "=").Refuses (Facing fault more) := refuses_mark .equals noEquals
    exact refuses.bind.optional.mono (fun _ same => same ▸ .none) fun _ => Facing.nearing
  | present body =>
    apply ((reads_mark .equals).bind fun _ _ => (reads _ rfl _ body).next).optional.weaken
    rintro _ ⟨found, rfl, isFound⟩
    exact .some isFound

/-- The words of an assignment are none or start with an equals sign. -/
theorem Assigned.head_cases {value : Option α} {words : List Word}
    (assigned : Assigned written value words) :
    words = [] ∨ ∃ rest, words = .mark .equals :: rest := by
  cases assigned with
  | absent => exact .inl rfl
  | present body => exact .inr ⟨_, rfl⟩

/-- The words of annotations are none or start with a parenthesis. -/
theorem WrittenAnnotations.head_cases {annotations : List Annotation} {words : List Word}
    (written : WrittenAnnotations annotations words) :
    words = [] ∨ ∃ rest, words = .mark .openParen :: rest := by
  cases written with
  | absent => exact .inl rfl
  | present items => exact .inr ⟨_, rfl⟩

/-- A text is read as its content. -/
theorem reads_writtenText {content : String} {words more : List Word}
    (written : WrittenText content words) :
    textLiteral.Reads (Facing fault (words ++ more)) (· = content) (Nearing fault more) := by
  obtain ⟨quote, content⟩ := written
  exact reads_textLiteral quote content

/-- A value that may be missing is the same if it is the same where it is not. -/
theorem eq_of_rel {value found : Option α}
    (same : Option.Rel (fun held other => other = held) value found) : found = value := by
  cases same with
  | none => rfl
  | some same => exact congrArg some same

/-- Items that are the same one by one are the same together. -/
theorem eq_of_forall₂ {items found : List α}
    (same : List.Forall₂ (fun held other => other = held) items found) : found = items := by
  induction same with
  | nil => rfl
  | cons same _ inductionHypothesis => rw [same, inductionHypothesis]

/-- An annotation is read with its text, if it has one. -/
theorem reads_annotationItem {note : Annotation} {words more : List Word}
    (written : note.Written words) (isName : isIdentifier note.name = true)
    (noEquals : more.head? ≠ some (.mark .equals)) :
    annotationItem.Reads (Facing fault (words ++ more)) (· = note) (Nearing fault more) := by
  obtain ⟨proper, value⟩ := written
  have readsValue : (assigned textLiteral).Reads (Facing fault (_ ++ more))
      (Option.Rel (fun held other => other = held) note.value) (Nearing fault more) :=
    reads_assigned value noEquals fun held _ body written => reads_writtenText written
  apply Reads.part
  apply (reads_identifier proper isName).bind_eq
  apply readsValue.next.bind
  intro found same
  apply reads_pure
  rw [eq_of_rel same]

/-- No annotation starts with a mark. -/
theorem refuses_annotationItem {punctuation : Mark} {words : List Word} :
    annotationItem.Refuses (Facing fault (.mark punctuation :: words)) := by
  apply Refuses.part
  apply Refuses.bind
  apply refuses_identifier.from_narrower
  exact fun _ at_mark => at_mark.stops_mark (by cases punctuation <;> decide)

/-- A separator is no other mark. -/
theorem Mark.IsSeparator.ne {punctuation : Mark} (separates : punctuation.IsSeparator)
    {other : Mark} (noComma : other ≠ .comma) (noSemicolon : other ≠ .semicolon)
    {words : List Word} : (Word.mark punctuation :: words).head? ≠ some (.mark other) := by
  rcases separates with rfl | rfl
  · simpa using noComma.symm
  · simpa using noSemicolon.symm

/-- Annotations in parentheses, and annotations left out where no parenthesis comes next.

Proof: by whether annotations are written. Without them the opening parenthesis is refused and
nothing is read; with them the items are read up to the closing one, each with its separator. -/
theorem reads_nextAnnotations {annotations : List Annotation} {words more : List Word}
    (written : WrittenAnnotations annotations words) (writable : WritableAnnotations annotations)
    (noParen : more.head? ≠ some (.mark .openParen)) :
    nextAnnotations.Reads (Nearing fault (words ++ more)) (· = annotations)
      (Nearing fault more) := by
  cases written with
  | absent =>
    have refuses : Grammar.annotations.Refuses (Facing fault more) :=
      (refuses_mark .openParen noParen).bind.part
    exact refuses.nextOptional.bind_eq (reads_pure rfl)
  | @present annotations inner items =>
    have readsItems : ReadsItems fault (do let found ← annotationItem; next separator; pure found)
        (WithSeparator Annotation.Written) (fun held other => other = held) (fun _ => True)
        annotations := by
      rintro item isItem _ behind ⟨front, mark, rfl, separates, body⟩ -
      exact reads_withSeparator separates (reads_annotationItem body (writable item isItem)
        (separates.ne (by decide) (by decide)))
    have readsAll : Grammar.annotations.Reads
        (Facing fault (.mark .openParen :: (inner ++ .mark .closeParen :: more)))
        (List.Forall₂ (fun held other => other = held) annotations) (Nearing fault more) :=
      (reads_enclosed .openParen .closeParen
        (reads_listed items readsItems refuses_annotationItem.bind)).part
    have split : .mark .openParen :: (inner ++ [.mark .closeParen]) ++ more =
        .mark .openParen :: (inner ++ .mark .closeParen :: more) := by simp
    rw [split]
    apply readsAll.nextOptional.bind
    rintro _ ⟨found, rfl, same⟩
    exact reads_pure (eq_of_forall₂ same)

end SchemaCodec
