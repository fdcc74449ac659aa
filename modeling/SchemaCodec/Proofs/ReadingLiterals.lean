import SchemaCodec.Proofs.ReadingLists

/-!
# Reading literals

The first character of a literal tells its kind, except that a number with a point or an exponent is
tried before an integer. A literal nests no deeper than it has words, which bounds the recursion.
-/

namespace SchemaCodec

open SchemaCodec.Parser SchemaCodec.Grammar

variable {α : Type} {written : α → List Word → Prop} {words : List Word}
  {fault : Option ParseFault}

/-- Every item of a list has fewer words than the list. -/
theorem Listed.within {items : List α} (listed : Listed written items words) :
    ∀ {bound : Nat}, words.length ≤ bound →
      Listed (fun item front => written item front ∧ front.length < bound) items words := by
  induction listed with
  | nil => exact fun _ => .nil
  | cons first separates more inductionHypothesis =>
    intro bound enough
    rw [List.length_append, List.length_cons] at enough
    exact .cons ⟨first, by omega⟩ separates (inductionHypothesis (by omega))

/-- The kinds of literals in the order in which they are tried. -/
def literalKinds (inner : Parser Literal) : Parser Literal :=
  (do let number ← doubleLiteral; pure (.double number)) <|>
    (do let number ← intLiteral; pure (.int number)) <|>
    (do let text ← textLiteral; pure (.text text)) <|>
    listLiteral inner <|> mapLiteral inner <|>
    (do let name ← identifier; pure (.identifier name))

/-- Where neither a number nor a text in quotes starts, the kinds of literals behind them are
tried. -/
theorem reads_literalKinds {before after : Cursor → Prop} {holds : Literal → Prop}
    {inner : Parser Literal} (noNumber : ∀ cursor, before cursor → StopsAt isNumberStart cursor)
    (noQuote : ∀ cursor, before cursor → StopsAt isQuote cursor)
    (reads : (listLiteral inner <|> mapLiteral inner <|>
      (do let name ← identifier; pure (.identifier name))).Reads before holds after) :
    (literalKinds inner).Reads before holds after := by
  apply (refuses_doubleLiteral.from_narrower noNumber).bind.orElse
  apply (refuses_intLiteral.from_narrower noNumber).bind.orElse
  exact (refuses_textLiteral.from_narrower noQuote).bind.orElse reads

/-- No literal starts with a mark other than an opening bracket or brace.

Proof: the alternatives start with a digit or sign, with a quote, with one of the two brackets, or
with a letter. Other marks are none of these, so each alternative refuses in its turn. -/
theorem refuses_literalWithin {bound : Nat} {punctuation : Mark}
    (noBracket : punctuation ≠ .openBracket) (noBrace : punctuation ≠ .openBrace) :
    (literalWithin bound).Refuses (Facing fault (.mark punctuation :: words)) := by
  cases bound with
  | zero => exact refuses_fail
  | succ depth =>
    have noNumber : ∀ cursor, Facing fault (.mark punctuation :: words) cursor →
        StopsAt isNumberStart cursor :=
      fun _ at_mark => at_mark.stops_mark (by cases punctuation <;> decide)
    have noQuote : ∀ cursor, Facing fault (.mark punctuation :: words) cursor →
        StopsAt isQuote cursor :=
      fun _ at_mark => at_mark.stops_mark (by cases punctuation <;> decide)
    have noName : ∀ cursor, Facing fault (.mark punctuation :: words) cursor →
        StopsAt Lexer.isNameStart cursor :=
      fun _ at_mark => at_mark.stops_mark (by cases punctuation <;> decide)
    have noList : (mark "[").Refuses (Facing fault (.mark punctuation :: words)) :=
      refuses_mark .openBracket (by simpa using noBracket)
    have noMap : (mark "\x7b").Refuses (Facing fault (.mark punctuation :: words)) :=
      refuses_mark .openBrace (by simpa using noBrace)
    apply Refuses.part
    apply (refuses_doubleLiteral.from_narrower noNumber).bind.either
    apply (refuses_intLiteral.from_narrower noNumber).bind.either
    apply (refuses_textLiteral.from_narrower noQuote).bind.either
    apply noList.bind.part.bind.either
    apply noMap.bind.part.bind.either
    exact (refuses_identifier.from_narrower noName).bind

section Containers

variable {inner : Parser Literal} {more : List Word}

/-- The items of a list are read by a parser that reads every one of them. -/
theorem reads_listLiteral {items : List Literal} {written : Literal → List Word → Prop}
    (listed : Listed written items words)
    (reads : ∀ item ∈ items, ∀ front behind, written item front →
      inner.Reads (Facing fault (front ++ behind)) (· = item) (Nearing fault behind))
    (ends : inner.Refuses (Facing fault (.mark .closeBracket :: more))) :
    (listLiteral inner).Reads
      (Facing fault (.mark .openBracket :: (words ++ .mark .closeBracket :: more)))
      (· = .list items) (Nearing fault more) := by
  have readsItems : ReadsItems fault (do let item ← inner; next separator; pure item)
      (WithSeparator written) (fun held other => other = held) (fun _ => True) items := by
    rintro item isItem _ behind ⟨front, mark, rfl, separates, body⟩ -
    exact reads_withSeparator separates (reads item isItem front _ body)
  have readsAll := reads_enclosed .openBracket .closeBracket
    (reads_listed listed readsItems ends.bind)
  apply readsAll.part.bind
  intro found same
  exact reads_pure (congrArg Literal.list (eq_of_forall₂ same))

/-- An entry is read if its key is read up to the colon and its value behind it. -/
theorem reads_mapEntry {key value : Literal} {keyWords valueWords behind : List Word}
    (readsKey : inner.Reads (Facing fault (keyWords ++ .mark .colon :: (valueWords ++ behind)))
      (· = key) (Nearing fault (.mark .colon :: (valueWords ++ behind))))
    (readsValue : inner.Reads (Facing fault (valueWords ++ behind)) (· = value)
      (Nearing fault behind)) :
    (mapEntry inner).Reads (Facing fault (keyWords ++ .mark .colon :: (valueWords ++ behind)))
      (· = (key, value)) (Nearing fault behind) := by
  apply Reads.part
  apply readsKey.bind_eq
  apply (reads_mark .colon).next.bind
  intro _ _
  exact readsValue.next.bind_eq (reads_pure rfl)

/-- The entries of a map are read by a parser that reads every key and every value. -/
theorem reads_mapLiteral {entries : List (Literal × Literal)}
    {written : Literal × Literal → List Word → Prop} (listed : Listed written entries words)
    (reads : ∀ entry ∈ entries, ∀ front behind, written entry front →
      (mapEntry inner).Reads (Facing fault (front ++ behind)) (· = entry) (Nearing fault behind))
    (ends : inner.Refuses (Facing fault (.mark .closeBrace :: more))) :
    (mapLiteral inner).Reads
      (Facing fault (.mark .openBrace :: (words ++ .mark .closeBrace :: more)))
      (· = .map entries) (Nearing fault more) := by
  have readsItems : ReadsItems fault (do let entry ← mapEntry inner; next separator; pure entry)
      (WithSeparator written) (fun held other => other = held) (fun _ => True) entries := by
    rintro entry isEntry _ behind ⟨front, mark, rfl, separates, body⟩ -
    exact reads_withSeparator separates (reads entry isEntry front _ body)
  have readsAll := reads_enclosed .openBrace .closeBrace
    (reads_listed listed readsItems ends.bind.part.bind)
  apply readsAll.part.bind
  intro found same
  exact reads_pure (congrArg Literal.map (eq_of_forall₂ same))

end Containers

section Kinds

variable {inner : Parser Literal} {more : List Word}

/-- An integer is read as one, behind the vain trial of a number with a point. -/
theorem literalKinds_reads_int {number : Int} (fits : FitsLiteral number) :
    (literalKinds inner).Reads (Facing fault (.number number :: more)) (· = .int number)
      (Nearing fault more) := by
  apply (refuses_doubleLiteral_number number).bind.orElse
  apply Reads.orElse
  exact (reads_intLiteral fits).bind_eq (reads_pure rfl)

/-- A text in quotes is read as one, since no number starts with a quote. -/
theorem literalKinds_reads_text (quote : Quote) (content : String) :
    (literalKinds inner).Reads (Facing fault (.quoted quote content :: more)) (· = .text content)
      (Nearing fault more) := by
  have noNumber : ∀ cursor, Facing fault (.quoted quote content :: more) cursor →
      StopsAt isNumberStart cursor :=
    fun _ at_quoted => at_quoted.stops_plain rfl (by rintro _ ⟨⟩; cases quote <;> decide)
  apply (refuses_doubleLiteral.from_narrower noNumber).bind.orElse
  apply (refuses_intLiteral.from_narrower noNumber).bind.orElse
  apply Reads.orElse
  exact (reads_textLiteral quote content).bind_eq (reads_pure rfl)

/-- A name is read as an identifier, since all other kinds start differently. -/
theorem literalKinds_reads_identifier {name : String} (proper : isNameText name = true)
    (isName : isIdentifier name = true) :
    (literalKinds inner).Reads (Facing fault (.name name proper :: more)) (· = .identifier name)
      (Nearing fault more) := by
  have noList : (mark "[").Refuses (Facing fault (.name name proper :: more)) :=
    refuses_mark .openBracket (by simp)
  have noMap : (mark "\x7b").Refuses (Facing fault (.name name proper :: more)) :=
    refuses_mark .openBrace (by simp)
  apply reads_literalKinds
  · exact fun _ at_name => at_name.stops_name isName fun _ => isNumberStart_of_isNameStart
  · exact fun _ at_name => at_name.stops_name isName fun _ start =>
      not_isQuote_of_isNameChar (isNameChar_of_isNameStart start)
  apply noList.bind.part.bind.orElse
  apply noMap.bind.part.bind.orElse
  exact (reads_identifier proper isName).bind_eq (reads_pure rfl)

/-- What starts with a bracket is read as a list. -/
theorem literalKinds_reads_list {literal : Literal}
    (reads : (listLiteral inner).Reads (Facing fault (.mark .openBracket :: words)) (· = literal)
      (Nearing fault more)) :
    (literalKinds inner).Reads (Facing fault (.mark .openBracket :: words)) (· = literal)
      (Nearing fault more) := by
  apply reads_literalKinds
  · exact fun _ at_mark => at_mark.stops_mark (by decide)
  · exact fun _ at_mark => at_mark.stops_mark (by decide)
  exact reads.orElse

/-- What starts with a brace is read as a map. -/
theorem literalKinds_reads_map {literal : Literal}
    (reads : (mapLiteral inner).Reads (Facing fault (.mark .openBrace :: words)) (· = literal)
      (Nearing fault more)) :
    (literalKinds inner).Reads (Facing fault (.mark .openBrace :: words)) (· = literal)
      (Nearing fault more) := by
  have noList : (mark "[").Refuses (Facing fault (.mark .openBrace :: words)) :=
    refuses_mark .openBracket (by simp)
  apply reads_literalKinds
  · exact fun _ at_mark => at_mark.stops_mark (by decide)
  · exact fun _ at_mark => at_mark.stops_mark (by decide)
  exact noList.bind.part.bind.orElse reads.orElse

end Kinds

/-- Every literal has a word. -/
theorem Literal.Written.length_pos {literal : Literal} {words : List Word}
    (written : literal.Written words) : 0 < words.length := by
  cases written with
  | int body => cases body; exact Nat.zero_lt_succ _
  | text body => cases body; exact Nat.zero_lt_succ _
  | identifier | list | map => exact Nat.zero_lt_succ _

/-- A literal that can be written is read by a parser that may nest as deep as it has words.

Proof: induction on the bound. The items of a list and the keys and values of a map have fewer words
than the list or map, which has its brackets or braces besides. -/
theorem reads_literalWithin {bound : Nat} : ∀ {literal : Literal} {words more : List Word},
    literal.Written words → literal.Writable → words.length ≤ bound →
      (literalWithin bound).Reads (Facing fault (words ++ more)) (· = literal)
        (Nearing fault more) := by
  induction bound with
  | zero =>
    intro literal words more written _ enough
    exact absurd written.length_pos (Nat.not_lt.mpr enough)
  | succ depth inductionHypothesis =>
    intro literal words more written writable enough
    apply Reads.part
    change (literalKinds (literalWithin depth)).Reads _ _ _
    have ends {punctuation : Mark} {rest : List Word} (noBracket : punctuation ≠ .openBracket)
        (noBrace : punctuation ≠ .openBrace) :
        (literalWithin depth).Refuses (Facing fault (.mark punctuation :: rest)) :=
      refuses_literalWithin noBracket noBrace
    cases written with
    | int body =>
      cases body
      cases writable with
      | int fits => exact literalKinds_reads_int fits
    | @text content _ body =>
      obtain ⟨quote, content⟩ := body
      exact literalKinds_reads_text quote content
    | identifier proper =>
      cases writable with
      | identifier isName => exact literalKinds_reads_identifier proper isName
    | @list items words listed =>
      cases writable with
      | list all =>
        simp only [List.length_cons, List.length_append, List.length_nil] at enough
        have fits : words.length ≤ depth := by omega
        simp only [List.cons_append, List.append_assoc, List.nil_append]
        apply literalKinds_reads_list
        refine reads_listLiteral (listed.within fits) ?_
          (ends (by decide) (by decide))
        rintro item isItem front behind ⟨body, shorter⟩
        exact inductionHypothesis body (all item isItem) (Nat.le_of_lt shorter)
    | @map entries words listed =>
      cases writable with
      | map keys values =>
        simp only [List.length_cons, List.length_append, List.length_nil] at enough
        have fits : words.length ≤ depth := by omega
        simp only [List.cons_append, List.append_assoc, List.nil_append]
        apply literalKinds_reads_map
        refine reads_mapLiteral (listed.within fits) ?_
          (ends (by decide) (by decide))
        rintro entry isEntry _ behind ⟨⟨first, second⟩, shorter⟩
        rw [List.length_append, List.length_cons] at shorter
        rw [List.append_assoc, List.cons_append]
        apply reads_mapEntry
        · exact inductionHypothesis first (keys _ isEntry) (by omega)
        · exact inductionHypothesis second (values _ isEntry) (by omega)

/-- A literal that can be written is read from its words. -/
theorem reads_literal {literal : Literal} {words more : List Word}
    (written : literal.Written words) (writable : literal.Writable) :
    Grammar.literal.Reads (Facing fault (words ++ more)) (· = literal) (Nearing fault more) := by
  apply (reads_left fun _ => Facing.length_le).bind
  intro bound enough
  rw [List.length_append] at enough
  exact reads_literalWithin written writable (by omega)

end SchemaCodec
