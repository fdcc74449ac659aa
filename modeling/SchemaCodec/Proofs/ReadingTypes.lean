import SchemaCodec.Proofs.ReadingLists

/-!
# Reading types

A type is read to its last word. The name of a declared type may start like one of the containers,
or be that word itself; then the angle bracket is missing, perhaps behind the start of a remark on
the container class. A parser that is given up there may have stopped inside the name.
-/

namespace SchemaCodec

open SchemaCodec.Parser SchemaCodec.Grammar

variable {α : Type} {words : List Word} {fault : Option ParseFault}

/-! ## Inside a name -/

/-- What is left of a name, with further words behind it. -/
def Inside (fault : Option ParseFault) (words : List Word) (cursor : Cursor) : Prop :=
  ∃ suffix rest, cursor.rest = suffix ++ rest ∧ suffix ≠ [] ∧
    (∀ char ∈ suffix, Lexer.isNameChar char = true) ∧ EndsWord rest ∧
      Nearing fault words { cursor with rest }

/-- A place behind a name or inside it. -/
def InsideOrBehind (fault : Option ParseFault) (words : List Word) (cursor : Cursor) : Prop :=
  Nearing fault words cursor ∨ Inside fault words cursor

/-- At a name, all of it is left. -/
theorem inside_of_at {text : String} {proper : isNameText text = true} {cursor : Cursor}
    (at_name : Facing fault (.name text proper :: words) cursor) : Inside fault words cursor := by
  obtain ⟨rest, same, ends, behind⟩ := at_name.exists_behind (.inl rfl)
  exact ⟨text.toList, rest, same, Word.chars_ne_nil (.name text proper),
    isNameChar_of_isNameText proper, ends, behind⟩

/-- The next character inside a name is one of names. -/
theorem Inside.stops {lacking : Char → Bool} {cursor : Cursor} (inside : Inside fault words cursor)
    (lacks : ∀ char, Lexer.isNameChar char = true → lacking char = false) :
    StopsAt lacking cursor := by
  obtain ⟨suffix, rest, same, nonempty, isName, -⟩ := inside
  obtain ⟨first, more, rfl⟩ := List.exists_cons_of_ne_nil nonempty
  intro char isFirst
  rw [same] at isFirst
  cases isFirst
  exact lacks _ (isName _ (by simp))

/-- Behind a name or inside it, spaces are read up to the next word or not at all.

Inside the name no gap starts, so the cursor stays there. -/
theorem reads_spaces_inside : spaces.Reads (InsideOrBehind fault words) (fun _ => True)
    (fun cursor => Facing fault words cursor ∨ Inside fault words cursor) := by
  rintro cursor attempts (near | inside)
  · obtain ⟨found, reached, succeeds, isHeld, isAfter⟩ := reads_spaces cursor attempts near
    exact ⟨found, reached, succeeds, isHeld, .inl isAfter⟩
  · have stays : spaces.Reads (Inside fault words) (fun _ => True) (Inside fault words) := by
      have lexes : (take Lexer.spaces).Reads (Inside fault words) (fun _ => True)
          (Inside fault words) := by
        apply reads_take
        intro cursor inside
        have stops : StopsAt isGapStart cursor := inside.stops fun _ => not_isGapStart_of_isNameChar
        exact ⟨[], cursor.rest, congrArg some (Lexer.spacesWithin_stops stops), trivial, inside⟩
      exact lexes.bind fun _ _ => reads_pure trivial
    obtain ⟨found, reached, succeeds, isHeld, isAfter⟩ := stays cursor attempts inside
    exact ⟨found, reached, succeeds, isHeld, .inr isAfter⟩

namespace Parser

variable {parser : Parser α}

/-- What is refused in either of two kinds of places is refused in both. -/
theorem Refuses.or {first second : Cursor → Prop} (refuses : parser.Refuses first)
    (also : parser.Refuses second) :
    parser.Refuses (fun cursor => first cursor ∨ second cursor) := by
  rintro cursor attempts (isFirst | isSecond)
  · exact refuses cursor attempts isFirst
  · exact also cursor attempts isSecond

/-- What is refused at some words and inside the name in front of them is refused behind the gap,
wherever the name was given up. -/
theorem Refuses.next_inside (refuses : parser.Refuses (Facing fault words))
    (also : parser.Refuses (Inside fault words)) :
    (Grammar.next parser).Refuses (InsideOrBehind fault words) :=
  reads_spaces_inside.refuses_bind fun _ _ => refuses.or also

/-- A part that is missing at some words and inside the name in front of them leaves the cursor
there. -/
theorem Refuses.nextOptional_inside (refuses : parser.Refuses (Facing fault words))
    (also : parser.Refuses (Inside fault words)) :
    (Grammar.nextOptional parser).Reads (InsideOrBehind fault words) (· = none)
      (InsideOrBehind fault words) := by
  apply reads_spaces_inside.bind
  intro _ _
  apply (refuses.or also).optional.mono (fun _ => id)
  rintro cursor (at_words | inside)
  · exact .inl at_words.nearing
  · exact .inr inside

/-- A fixed word that is taken from inside a name leaves off inside the name or behind it.

Proof: by whether what is left of the name starts with the word. If it does not, the word is
refused. If it does, the cursor is behind the word, and there either more of the name is left or the
name has ended. -/
theorem refuses_mark_bind {fixed : String} {next : Unit → Parser α}
    (isText : isNameText fixed = true) (refuses : (next ()).Refuses (InsideOrBehind fault words)) :
    (mark fixed >>= next).Refuses (Inside fault words) := by
  rintro cursor attempts ⟨suffix, rest, same, -, inside, ends, behind⟩
  have refusesThen : ∀ before : Cursor → Prop, (mark fixed).Refuses before ∨
      (mark fixed).Reads before (fun _ => True) (InsideOrBehind fault words) →
        (mark fixed >>= next).Refuses before := by
    rintro before (refusesMark | readsMark)
    · exact refusesMark.bind
    · exact readsMark.refuses_bind fun _ _ => refuses
  apply refusesThen (· = cursor) _ cursor attempts rfl
  by_cases isPrefix : fixed.toList <+: suffix
  · right
    have lexes : (take (Lexer.exactly fixed)).Reads (· = cursor) (fun _ => True)
        (InsideOrBehind fault words) := by
      apply reads_take
      rintro _ rfl
      obtain ⟨more, rfl⟩ := isPrefix
      refine ⟨fixed.toList, more ++ rest, ?_, trivial, ?_⟩
      · rw [same, List.append_assoc]
        exact Lexer.exactly_append fixed (more ++ rest)
      · by_cases ended : more = []
        · subst ended
          exact .inl behind
        · exact .inr ⟨more, rest, rfl, ended, fun char isIn =>
            inside char (List.mem_append_right _ isIn), ends, behind⟩
    exact lexes.bind fun _ _ => reads_pure trivial
  · left
    apply Refuses.bind
    apply refuses_take
    rintro _ rfl
    rw [same]
    apply Lexer.exactly_eq_none
    exact fun found => isPrefix
      (Lexer.prefix_of_prefix_append (isNameChar_of_isNameText isText) ends found)

end Parser

/-! ## Fixed words -/

/-- A fixed word is read at a name that is just that word. -/
theorem reads_mark_name {fixed : String} {proper : isNameText fixed = true} :
    (mark fixed).Reads (Facing fault (.name fixed proper :: words)) (fun _ => True)
      (Nearing fault words) := by
  have lexes : ∀ rest, (Word.name fixed proper).Ends rest →
      Lexer.exactly fixed ((Word.name fixed proper).chars ++ rest) =
        some ((Word.name fixed proper).chars, rest) := fun rest _ => Lexer.exactly_append fixed rest
  exact (reads_take_word lexes).bind fun _ _ => reads_pure trivial

/-- A fixed word is refused at a name that does not start with it. -/
theorem refuses_mark_name {fixed text : String} {proper : isNameText text = true}
    (isText : isNameText fixed = true) (missing : ¬ fixed.toList <+: text.toList) :
    (mark fixed).Refuses (Facing fault (.name text proper :: words)) := by
  apply Refuses.bind
  apply refuses_take
  intro cursor at_name
  obtain ⟨rest, same, ends, -⟩ := at_name.exists_behind (.inl rfl)
  rw [same]
  apply Lexer.exactly_eq_none
  exact fun found => missing
    (Lexer.prefix_of_prefix_append (isNameChar_of_isNameText isText) ends found)

/-- A fixed word of characters of names is refused at a mark. -/
theorem refuses_fixed_mark {fixed : String} {punctuation : Mark}
    (isText : isNameText fixed = true) :
    (mark fixed).Refuses (Facing fault (.mark punctuation :: words)) := by
  apply Refuses.bind
  apply refuses_take
  intro chars at_mark
  exact Lexer.exactly_stops isText (at_mark.stops_mark (by cases punctuation <;> decide))

/-! ## The remark on a container class -/

/-- The next word is a text in quotes. -/
def StartsQuoted (words : List Word) : Prop :=
  ∃ quote content, words.head? = some (.quoted quote content)

/-- What may stand behind a type: the end of an element, or a declared name, which no text in quotes
follows. -/
def AfterType : List Word → Prop
  | .mark punctuation :: _ => punctuation = .comma ∨ punctuation = .closeAngle
  | .name _ _ :: rest => ¬ StartsQuoted rest
  | _ => False

/-- No text is read at a word that is not in quotes. -/
theorem refuses_textLiteral_word (other : ¬ StartsQuoted words) :
    textLiteral.Refuses (Facing fault words) := by
  apply refuses_textLiteral.from_narrower
  intro chars at_words
  cases words with
  | nil => exact at_words.stops_nil
  | cons word words =>
    apply at_words.stops
    intro spelling own spelled
    apply spelled.starts_unquoted
    rintro quote content rfl
    exact other ⟨quote, content, rfl⟩

/-- No remark on a container class is read inside a name that no text in quotes follows. -/
theorem refuses_containerClass_inside (other : ¬ StartsQuoted words) :
    containerClass.Refuses (Inside fault words) := by
  have refuses : (next textLiteral).Refuses (InsideOrBehind fault words) := by
    apply (refuses_textLiteral_word other).next_inside
    apply refuses_textLiteral.from_narrower
    exact fun _ inside => inside.stops fun _ => not_isQuote_of_isNameChar
  exact refuses_mark_bind (by decide) refuses.bind

/-- No remark comes behind a type, even if the declared name starts like one. -/
theorem refuses_containerClass (after : AfterType words) :
    containerClass.Refuses (Facing fault words) := by
  match words with
  | .mark punctuation :: _ => exact (refuses_fixed_mark (by decide)).bind
  | .name text proper :: rest =>
    exact (refuses_containerClass_inside after).from_narrower fun _ => inside_of_at

/-- Behind a type comes no mark but a comma or a closing angle bracket. -/
theorem AfterType.head_ne {punctuation : Mark} (after : AfterType words)
    (noComma : punctuation ≠ .comma) (noAngle : punctuation ≠ .closeAngle) :
    words.head? ≠ some (.mark punctuation) := by
  match words with
  | .mark other :: _ =>
    rcases after with rfl | rfl
    · simpa using noComma.symm
    · simpa using noAngle.symm
  | .name text proper :: rest => simp

/-- Behind a type comes no text in quotes. -/
theorem AfterType.unquoted (after : AfterType words) : ¬ StartsQuoted words := by
  rintro ⟨quote, content, first⟩
  match words with
  | .mark punctuation :: _ => cases first
  | .name text proper :: rest => cases first

/-! ## The kinds of types -/

/-- What the parser of each base type looks for. -/
theorem mem_baseTypes_iff (word : String) (type : BaseType) :
    (word, type) ∈ baseTypes ↔ word ∈ type.words := by
  cases type <;> simp [baseTypes, BaseType.words]

/-- The words for base types consist of characters of names. -/
theorem isNameText_baseTypes : ∀ word ∈ baseTypes.map (·.1), isNameText word = true := by
  decide

/-- A base type is read from any of its words.

None of the words starts another one, and each stands for one base type only. -/
theorem reads_baseType {type : BaseType} {word : String} {proper : isNameText word = true}
    (listed : word ∈ type.words) :
    baseType.Reads (Facing fault (.name word proper :: words)) (· = .base type)
      (Nearing fault words) := by
  have apart : ∀ word ∈ baseTypes.map (·.1), ∀ other ∈ baseTypes.map (·.1),
      other.toList <+: word.toList → other = word := by
    decide
  have single : ∀ entry ∈ baseTypes, baseTypes.find? (·.1 = entry.1) = some entry := by
    decide
  have isEntry := (mem_baseTypes_iff word type).mpr listed
  have isWord : word ∈ baseTypes.map (·.1) := List.mem_map_of_mem isEntry
  have lexes : ∀ rest, (Word.name word proper).Ends rest → Lexer.keywordOf (baseTypes.map (·.1))
      ((Word.name word proper).chars ++ rest) = some ((Word.name word proper).chars, rest) :=
    fun _ => Lexer.keywordOf_append isNameText_baseTypes isWord (apart word isWord)
  apply (reads_token lexes).bind_eq
  rw [Word.chars, String.ofList_toList, single _ isEntry]
  exact reads_pure rfl

/-- A name that is no word for a base type is not read as one. -/
theorem refuses_baseType {name : String} {proper : isNameText name = true}
    (other : name ∉ baseTypes.map (·.1)) :
    baseType.Refuses (Facing fault (.name name proper :: words)) := by
  apply Refuses.bind
  refine refuses_token fun rest ends => ?_
  apply Lexer.keywordOf_eq_none isNameText_baseTypes (isNameChar_of_isNameText proper) ends
  rintro text listed same
  exact other (String.toList_injective same ▸ listed)

/-- The angle bracket of a container is missing behind the name of a declared type.

Proof: behind the name comes a word other than the bracket, as is assumed of what follows a type.
Inside the name there is a character of a name, which the bracket is not. -/
theorem refuses_openAngle (after : AfterType words) :
    (next (mark "<")).Refuses (InsideOrBehind fault words) := by
  have refuses : (mark "<").Refuses (Facing fault words) :=
    refuses_mark .openAngle (after.head_ne (by decide) (by decide))
  apply refuses.next_inside
  apply Refuses.bind
  apply refuses_take
  intro cursor inside
  apply Lexer.exactly_eq_none
  rintro ⟨behind, same⟩
  have stops : StopsAt (fun char => char = '<') cursor :=
    inside.stops fun char isName => by
      rw [decide_eq_false_iff_not]
      rintro rfl
      exact absurd isName (by decide)
  exact absurd (stops '<' (same ▸ rfl)) (by decide)

/-- The name of a declared type is no container, whatever it starts like.

Proof: the word of a container may be a start of the name, as for a type named mapping. Then what is
left of the name, or what follows it, is no angle bracket, so the container is refused behind its
word. -/
theorem refuses_containers (inner : Parser TypeReference) {name : String}
    (proper : isNameText name = true) (after : AfterType words) :
    (mapType inner).Refuses (Facing fault (.name name proper :: words)) ∧
      (setType inner).Refuses (Facing fault (.name name proper :: words)) ∧
      (listType inner).Refuses (Facing fault (.name name proper :: words)) := by
  have skips : (nextOptional containerClass).Reads (InsideOrBehind fault words) (· = none)
      (InsideOrBehind fault words) :=
    (refuses_containerClass after).nextOptional_inside
      (refuses_containerClass_inside after.unquoted)
  have refusesRest : ∀ {next : Unit → Parser TypeReference},
      (Grammar.next (mark "<") >>= next).Refuses (InsideOrBehind fault words) :=
    (refuses_openAngle after).bind
  refine ⟨?_, ?_, ?_⟩
  · apply Refuses.part
    refine Refuses.from_narrower (refuses_mark_bind (by decide) ?_) fun _ => inside_of_at
    exact skips.refuses_bind fun _ _ => refusesRest
  · apply Refuses.part
    refine Refuses.from_narrower (refuses_mark_bind (by decide) ?_) fun _ => inside_of_at
    exact skips.refuses_bind fun _ _ => refusesRest
  · apply Refuses.part
    refine Refuses.from_narrower (refuses_mark_bind (by decide) ?_) fun _ => inside_of_at
    exact refusesRest

/-- No remark comes between the word for a container and its angle bracket. -/
theorem skips_containerClass {rest : List Word} :
    (nextOptional containerClass).Reads (Nearing fault (.mark .openAngle :: rest)) (· = none)
      (Nearing fault (.mark .openAngle :: rest)) :=
  (refuses_fixed_mark (by decide)).bind.nextOptional

section Containers

variable {inner : Parser TypeReference} {more : List Word} {holds : TypeReference → Prop}

/-- A list is read if its element type is read up to the closing angle bracket. No remark on the
container class follows. -/
theorem reads_listType {elementWords : List Word} (after : AfterType more)
    (reads : inner.Reads (Facing fault (elementWords ++ .mark .closeAngle :: more)) holds
      (Nearing fault (.mark .closeAngle :: more))) :
    (listType inner).Reads
      (Facing fault
        (.name "list" :: .mark .openAngle :: (elementWords ++ .mark .closeAngle :: more)))
      (fun found => ∃ element, found = .list element ∧ holds element) (Nearing fault more) := by
  apply Reads.part
  apply reads_mark_name.bind
  intro _ _
  apply (reads_mark .openAngle).next.bind
  intro _ _
  apply reads.next.bind
  intro element isElement
  apply (reads_mark .closeAngle).next.bind
  intro _ _
  apply (refuses_containerClass after).nextOptional.bind
  intro _ _
  exact reads_pure ⟨element, rfl, isElement⟩

/-- A set is read if its element type is read up to the closing angle bracket. -/
theorem reads_setType {elementWords : List Word}
    (reads : inner.Reads (Facing fault (elementWords ++ .mark .closeAngle :: more)) holds
      (Nearing fault (.mark .closeAngle :: more))) :
    (setType inner).Reads
      (Facing fault
        (.name "set" :: .mark .openAngle :: (elementWords ++ .mark .closeAngle :: more)))
      (fun found => ∃ element, found = .set element ∧ holds element) (Nearing fault more) := by
  apply Reads.part
  apply reads_mark_name.bind
  intro _ _
  apply skips_containerClass.bind
  intro _ _
  apply (reads_mark .openAngle).next.bind
  intro _ _
  apply reads.next.bind
  intro element isElement
  apply (reads_mark .closeAngle).next.bind
  intro _ _
  exact reads_pure ⟨element, rfl, isElement⟩

/-- A map is read if its key type is read up to the comma and its value type up to the closing angle
bracket.

Proof: the word, the optional class, the brackets, the comma and the two types are read one behind
the other. Both types are read as it is assumed of them. -/
theorem reads_mapType {keyWords valueWords : List Word} {holdsValue : TypeReference → Prop}
    (readsKey : inner.Reads
      (Facing fault (keyWords ++ .mark .comma :: (valueWords ++ .mark .closeAngle :: more))) holds
      (Nearing fault (.mark .comma :: (valueWords ++ .mark .closeAngle :: more))))
    (readsValue : inner.Reads (Facing fault (valueWords ++ .mark .closeAngle :: more)) holdsValue
      (Nearing fault (.mark .closeAngle :: more))) :
    (mapType inner).Reads
      (Facing fault (.name "map" :: .mark .openAngle ::
        (keyWords ++ .mark .comma :: (valueWords ++ .mark .closeAngle :: more))))
      (fun found => ∃ key value, found = .map key value ∧ holds key ∧ holdsValue value)
      (Nearing fault more) := by
  apply Reads.part
  apply reads_mark_name.bind
  intro _ _
  apply skips_containerClass.bind
  intro _ _
  apply (reads_mark .openAngle).next.bind
  intro _ _
  apply readsKey.next.bind
  intro key isKey
  apply (reads_mark .comma).next.bind
  intro _ _
  apply readsValue.next.bind
  intro value isValue
  apply (reads_mark .closeAngle).next.bind
  intro _ _
  exact reads_pure ⟨key, value, rfl, isKey, isValue⟩

end Containers

/-! ## Types -/

/-- The kinds of types in the order in which they are tried. -/
def typeKinds (inner : Parser TypeReference) : Parser TypeReference :=
  baseType <|> mapType inner <|> setType inner <|> listType inner <|> namedType

/-- One of the kinds with no annotations behind it is a type. -/
theorem reads_typeWithin_succ {depth : Nat} {more : List Word} {holds : TypeReference → Prop}
    (noParen : more.head? ≠ some (.mark .openParen))
    (reads : (typeKinds (typeWithin depth)).Reads (Facing fault (words ++ more)) holds
      (Nearing fault more)) :
    (typeWithin (depth + 1)).Reads (Facing fault (words ++ more)) holds (Nearing fault more) := by
  apply Reads.part
  apply reads.bind
  intro found isFound
  have skips : nextAnnotations.Reads (Nearing fault more) (· = []) (Nearing fault more) :=
    reads_nextAnnotations .absent (by simp [WritableAnnotations]) noParen
  exact skips.bind fun _ _ => reads_pure isFound

/-- The word for another container is refused. -/
theorem refuses_otherContainer {name : Expectation} {fixed text : String}
    {proper : isNameText text = true} {next : Unit → Parser TypeReference}
    (isText : isNameText fixed = true) (missing : ¬ fixed.toList <+: text.toList) :
    (part name (mark fixed >>= next)).Refuses (Facing fault (.name text proper :: words)) :=
  (refuses_mark_name isText missing).bind.part

section Kinds

variable {inner : Parser TypeReference} {more : List Word}

/-- A list is read by the parser of its kind: the words for base types and other containers are no
front of its own word. -/
theorem typeKinds_reads_list {element : TypeReference} {elementWords : List Word}
    (after : AfterType more)
    (reads : inner.Reads (Facing fault (elementWords ++ .mark .closeAngle :: more))
      (fun found => found.withoutSpans = element.withoutSpans)
      (Nearing fault (.mark .closeAngle :: more))) :
    (typeKinds inner).Reads
      (Facing fault
        (.name "list" :: .mark .openAngle :: (elementWords ++ .mark .closeAngle :: more)))
      (fun found => found.withoutSpans = (TypeReference.list element).withoutSpans)
      (Nearing fault more) := by
  apply (refuses_baseType (by decide)).orElse
  apply (refuses_otherContainer (by decide) (by decide)).orElse
  apply (refuses_otherContainer (by decide) (by decide)).orElse
  apply Reads.orElse
  apply (reads_listType after reads).weaken
  rintro _ ⟨found, rfl, same⟩
  exact congrArg TypeReference.list same

/-- A set is read by the parser of its kind. -/
theorem typeKinds_reads_set {element : TypeReference} {elementWords : List Word}
    (reads : inner.Reads (Facing fault (elementWords ++ .mark .closeAngle :: more))
      (fun found => found.withoutSpans = element.withoutSpans)
      (Nearing fault (.mark .closeAngle :: more))) :
    (typeKinds inner).Reads
      (Facing fault
        (.name "set" :: .mark .openAngle :: (elementWords ++ .mark .closeAngle :: more)))
      (fun found => found.withoutSpans = (TypeReference.set element).withoutSpans)
      (Nearing fault more) := by
  apply (refuses_baseType (by decide)).orElse
  apply (refuses_otherContainer (by decide) (by decide)).orElse
  apply Reads.orElse
  apply (reads_setType reads).weaken
  rintro _ ⟨found, rfl, same⟩
  exact congrArg TypeReference.set same

/-- A map is read by the parser of its kind. -/
theorem typeKinds_reads_map {key value : TypeReference} {keyWords valueWords : List Word}
    (readsKey : inner.Reads
      (Facing fault (keyWords ++ .mark .comma :: (valueWords ++ .mark .closeAngle :: more)))
      (fun found => found.withoutSpans = key.withoutSpans)
      (Nearing fault (.mark .comma :: (valueWords ++ .mark .closeAngle :: more))))
    (readsValue : inner.Reads (Facing fault (valueWords ++ .mark .closeAngle :: more))
      (fun found => found.withoutSpans = value.withoutSpans)
      (Nearing fault (.mark .closeAngle :: more))) :
    (typeKinds inner).Reads
      (Facing fault (.name "map" :: .mark .openAngle ::
        (keyWords ++ .mark .comma :: (valueWords ++ .mark .closeAngle :: more))))
      (fun found => found.withoutSpans = (TypeReference.map key value).withoutSpans)
      (Nearing fault more) := by
  apply (refuses_baseType (by decide)).orElse
  apply Reads.orElse
  apply (reads_mapType readsKey readsValue).weaken
  rintro _ ⟨foundKey, foundValue, rfl, sameKey, sameValue⟩
  exact congrArg₂ TypeReference.map sameKey sameValue

/-- The name of a declared type is read as one, even if it is the word for a container: the angle
bracket is missing behind it. -/
theorem typeKinds_reads_named {name : String} {span : Span} (proper : isNameText name = true)
    (writable : (TypeReference.named name span).Writable) (after : AfterType more) :
    (typeKinds inner).Reads (Facing fault (.name name proper :: more))
      (fun found => found.withoutSpans = (TypeReference.named name span).withoutSpans)
      (Nearing fault more) := by
  obtain ⟨noMap, noSet, noList⟩ := refuses_containers inner proper after
  have noBase : name ∉ baseTypes.map (·.1) := by
    intro isWord
    obtain ⟨⟨word, type⟩, listed, rfl⟩ := List.mem_map.mp isWord
    exact writable.2 type ((mem_baseTypes_iff word type).mp listed)
  apply (refuses_baseType noBase).orElse
  apply noMap.orElse
  apply noSet.orElse
  apply noList.orElse
  apply reads_here.bind
  intro place _
  apply (reads_identifier proper writable.1).bind_eq
  exact reads_pure rfl

end Kinds

/-- A type is read from its words, up to its places, by a parser that may nest as deep as there are
words.

Proof: induction on how the type is written. The element types of a container have fewer words than
the container, so one level less is enough for them. -/
theorem reads_typeWithin {type : TypeReference} {words : List Word} (written : type.Written words)
    (writable : type.Writable) : ∀ {bound : Nat} {more : List Word}, words.length ≤ bound →
      AfterType more → (typeWithin bound).Reads (Facing fault (words ++ more))
        (fun found => found.withoutSpans = type.withoutSpans) (Nearing fault more) := by
  induction written with
  | @base type word listed proper =>
    intro bound more enough after
    obtain ⟨depth, rfl⟩ := Nat.exists_eq_add_one_of_ne_zero (Nat.ne_zero_of_lt enough)
    apply reads_typeWithin_succ (after.head_ne (by decide) (by decide))
    apply Reads.orElse
    exact (reads_baseType listed).weaken fun _ same => same ▸ rfl
  | @list element words inner inductionHypothesis =>
    intro bound more enough after
    obtain ⟨depth, rfl⟩ := Nat.exists_eq_add_one_of_ne_zero (Nat.ne_zero_of_lt enough)
    simp only [List.length_cons, List.length_append, List.length_nil] at enough
    apply reads_typeWithin_succ (after.head_ne (by decide) (by decide))
    simp only [List.cons_append, List.append_assoc, List.nil_append]
    exact typeKinds_reads_list after (inductionHypothesis writable (by omega) (.inr rfl))
  | @set element words inner inductionHypothesis =>
    intro bound more enough after
    obtain ⟨depth, rfl⟩ := Nat.exists_eq_add_one_of_ne_zero (Nat.ne_zero_of_lt enough)
    simp only [List.length_cons, List.length_append, List.length_nil] at enough
    apply reads_typeWithin_succ (after.head_ne (by decide) (by decide))
    simp only [List.cons_append, List.append_assoc, List.nil_append]
    exact typeKinds_reads_set (inductionHypothesis writable (by omega) (.inr rfl))
  | @map key value keyWords valueWords first second keyHypothesis valueHypothesis =>
    intro bound more enough after
    obtain ⟨depth, rfl⟩ := Nat.exists_eq_add_one_of_ne_zero (Nat.ne_zero_of_lt enough)
    simp only [List.length_cons, List.length_append, List.length_nil] at enough
    apply reads_typeWithin_succ (after.head_ne (by decide) (by decide))
    simp only [List.cons_append, List.append_assoc, List.nil_append]
    exact typeKinds_reads_map (keyHypothesis writable.1 (by omega) (.inl rfl))
      (valueHypothesis writable.2 (by omega) (.inr rfl))
  | @named name span proper =>
    intro bound more enough after
    obtain ⟨depth, rfl⟩ := Nat.exists_eq_add_one_of_ne_zero (Nat.ne_zero_of_lt enough)
    apply reads_typeWithin_succ (after.head_ne (by decide) (by decide))
    exact typeKinds_reads_named proper writable after

/-- A type that can be written is read from its words, up to its places. -/
theorem reads_type {type : TypeReference} {words more : List Word} (written : type.Written words)
    (writable : type.Writable) (after : AfterType more) :
    Grammar.type.Reads (Facing fault (words ++ more))
      (fun found => found.withoutSpans = type.withoutSpans) (Nearing fault more) := by
  apply (reads_left fun _ => Facing.length_le).bind
  intro bound enough
  rw [List.length_append] at enough
  exact reads_typeWithin written writable (by omega) after

/-- No type starts with a mark.

Proof: base types, containers and names of declared types all start with a letter, so each
alternative refuses a mark. -/
theorem refuses_type_mark {punctuation : Mark} :
    Grammar.type.Refuses (Facing fault (.mark punctuation :: words)) := by
  apply (reads_left fun _ => Facing.length_le).refuses_bind
  intro bound _
  have noName : ∀ cursor, Facing fault (.mark punctuation :: words) cursor →
      StopsAt Lexer.isNameChar cursor :=
    fun _ at_mark => at_mark.stops_mark (by cases punctuation <;> decide)
  have noBase : baseType.Refuses (Facing fault (.mark punctuation :: words)) := by
    apply Refuses.bind
    apply Refuses.from_narrower _ noName
    exact refuses_token_stops (Lexer.keywordOf_stops isNameText_baseTypes)
  have noNamed : namedType.Refuses (Facing fault (.mark punctuation :: words)) := by
    apply reads_here.refuses_bind
    intro _ _
    apply Refuses.bind
    apply refuses_identifier.from_narrower
    exact fun _ at_mark => at_mark.stops_mark (by cases punctuation <;> decide)
  apply Refuses.part
  apply Refuses.bind
  apply noBase.either
  apply (refuses_fixed_mark (by decide)).bind.part.either
  apply (refuses_fixed_mark (by decide)).bind.part.either
  exact (refuses_fixed_mark (by decide)).bind.part.either noNamed

/-- The words for base types and containers. -/
def typeWords : List String := baseTypes.map (·.1) ++ ["list", "set", "map"]

/-- A type starts with a name, which is reserved only if it is the name of a declared type. -/
theorem TypeReference.Written.exists_name {type : TypeReference} {words : List Word}
    (written : type.Written words) (writable : type.Writable) {reserved : List String}
    (avoids : type.Avoids reserved) (apart : ∀ word ∈ typeWords, word ∉ reserved) :
    ∃ text proper rest, words = .name text proper :: rest ∧ isIdentifier text = true ∧
      text ∉ reserved := by
  have isName : ∀ word ∈ typeWords, isIdentifier word = true := by decide
  cases written with
  | @base type word listed proper =>
    have isEntry := (mem_baseTypes_iff word type).mpr listed
    have isWord : word ∈ typeWords := List.mem_append_left _ (List.mem_map_of_mem isEntry)
    exact ⟨word, proper, [], rfl, isName word isWord, apart word isWord⟩
  | list inner => exact ⟨"list", _, _, rfl, by decide, apart _ (by decide)⟩
  | set inner => exact ⟨"set", _, _, rfl, by decide, apart _ (by decide)⟩
  | map first second => exact ⟨"map", _, _, rfl, by decide, apart _ (by decide)⟩
  | named proper => exact ⟨_, proper, [], rfl, writable.1, avoids⟩

end SchemaCodec
