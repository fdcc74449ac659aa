import SchemaCodec.Proofs.ReadingFields

/-!
# Reading declarations

A declaration is told from the others by its keyword and is read up to the annotations behind it. A
method needs more care at its start: the words for what it returns may be left out nowhere, but a
name that is reserved there would be taken for another word.
-/

namespace SchemaCodec

open SchemaCodec.Parser SchemaCodec.Grammar

variable {words more : List Word} {fault : Option ParseFault}

/-- A definition is read by what stands behind its keyword, wherever it starts. -/
theorem reads_keywordPart {name keywordName : Expectation} {text : String}
    (proper : isNameText text = true) {next : Span → Parser α} {holds : α → Prop}
    {after : Cursor → Prop}
    (reads : ∀ place, (next place).Reads (Nearing fault words) holds after) :
    (part name do
      let place ← here
      keyword keywordName text
      next place).Reads (Facing fault (.name text proper :: words)) holds after := by
  apply Reads.part
  apply reads_here.bind
  intro place _
  exact (reads_keyword proper).bind fun _ _ => reads place

/-! ## Constants and typedefs -/

/-- A constant is read from its words, up to its places.

Proof: behind the keyword come the type, the name, the equals sign and the literal, each of which is
read from its words. -/
theorem reads_constant {definition : ConstantDefinition} (written : definition.Written words)
    (writable : definition.Writable) :
    constant.Reads (Facing fault (words ++ more))
      (fun found => found.withoutSpans = (Definition.constant definition).withoutSpans)
      (Nearing fault more) := by
  obtain ⟨type, proper, value⟩ := written
  rename_i typeWords valueWords
  have after :
      AfterType (.name definition.name proper :: .mark .equals :: (valueWords ++ more)) := by
    rintro ⟨quote, content, first⟩
    cases first
  simp only [List.append_assoc, List.cons_append]
  apply reads_keywordPart
  intro place
  apply (reads_type type writable.type after).next.bind
  intro foundType sameType
  apply (reads_declaredName proper writable.name).next.bind_eq
  apply (reads_mark .equals).next.bind
  intro _ _
  apply (reads_literal value writable.value).next.bind_eq
  apply reads_pure
  simp [Definition.withoutSpans, ConstantDefinition.withoutSpans, sameType]

/-- A typedef is read from its words, up to its places, where no parenthesis and no text in quotes
comes next.

Proof: behind the keyword come the type, the name and the annotations. What follows the type is a
name and then annotations or something unquoted, so it is not taken for a part of the type. -/
theorem reads_typedef {definition : TypedefDefinition} (written : definition.Written words)
    (writable : definition.Writable) (noParen : more.head? ≠ some (.mark .openParen))
    (unquoted : ¬ StartsQuoted more) :
    typedef.Reads (Facing fault (words ++ more))
      (fun found => found.withoutSpans = (Definition.typedef definition).withoutSpans)
      (Nearing fault more) := by
  obtain ⟨target, proper, annotations⟩ := written
  rename_i typeWords noteWords
  have after : AfterType (.name definition.name proper :: (noteWords ++ more)) := by
    rintro ⟨quote, content, first⟩
    rcases annotations.head_cases with rfl | ⟨rest, rfl⟩
    · exact unquoted ⟨quote, content, first⟩
    · cases first
  simp only [List.append_assoc, List.cons_append]
  apply reads_keywordPart
  intro place
  apply (reads_type target writable.target after).next.bind
  intro foundTarget sameTarget
  apply (reads_declaredName proper writable.name).next.bind_eq
  apply (reads_nextAnnotations annotations writable.annotations noParen).bind_eq
  apply reads_pure
  simp [Definition.withoutSpans, TypedefDefinition.withoutSpans, sameTarget]

/-! ## Enums -/

/-- What may stand behind a member: another one, or the end of the enum. -/
def EndsMember (words : List Word) : Prop :=
  (∃ text proper rest, words = .name text proper :: rest) ∨
    ∃ rest, words = .mark .closeBrace :: rest

/-- Behind a member comes no mark but a closing brace. -/
theorem EndsMember.head_ne {punctuation : Mark} (follows : EndsMember words)
    (noBrace : punctuation ≠ .closeBrace) : words.head? ≠ some (.mark punctuation) := by
  rcases follows with ⟨text, proper, rest, rfl⟩ | ⟨rest, rfl⟩
  · simp
  · simpa using noBrace.symm

/-- A member is read with its number and the separator behind it, each of which may be missing.

Proof: name, number, annotations and separator are read one behind the other. A missing number shows
in that no equals sign comes next, and missing annotations in that no parenthesis does, neither of
which a separator or the next member starts with. -/
theorem reads_enumMember {member : MemberDefinition} {endWords : List Word}
    (written : member.Written words) (writable : member.Writable) (ends : WrittenEnd endWords)
    (follows : EndsMember more) :
    enumMember.Reads (Facing fault (words ++ (endWords ++ more)))
      (fun found => found.withoutSpans = member.withoutSpans) (Nearing fault more) := by
  obtain ⟨proper, number⟩ := written
  rename_i numberWords
  have noEquals : (endWords ++ more).head? ≠ some (.mark .equals) :=
    ends.head_ne (by decide) (by decide) (follows.head_ne (by decide))
  have noParen : (endWords ++ more).head? ≠ some (.mark .openParen) :=
    ends.head_ne (by decide) (by decide) (follows.head_ne (by decide))
  have readsNumber : (assigned Grammar.intLiteral).Reads
      (Facing fault (numberWords ++ (endWords ++ more)))
      (Option.Rel (fun held other => other = held) member.number)
      (Nearing fault (endWords ++ more)) := by
    apply reads_assigned number noEquals
    rintro held isHeld _ ⟨⟩
    exact reads_intLiteral (writable.number held isHeld)
  have skips : nextAnnotations.Reads (Nearing fault (endWords ++ more)) (· = [])
      (Nearing fault (endWords ++ more)) :=
    reads_nextAnnotations .absent (by simp [WritableAnnotations]) noParen
  apply Reads.part
  apply reads_here.bind
  intro place _
  apply (reads_declaredName proper writable.name).bind_eq
  apply readsNumber.next.bind
  intro foundNumber sameNumber
  apply skips.bind
  intro _ _
  apply (reads_end ends (follows.head_ne (by decide)) (follows.head_ne (by decide))).bind
  intro _ _
  apply reads_pure
  simp [MemberDefinition.withoutSpans, eq_of_rel sameNumber]

/-- No member starts with a mark. -/
theorem refuses_enumMember_mark {punctuation : Mark} :
    enumMember.Refuses (Facing fault (.mark punctuation :: words)) := by
  apply Refuses.part
  apply reads_here.refuses_bind
  intro _ _
  apply Refuses.bind
  apply refuses_declaredName.from_narrower
  exact fun _ at_mark => at_mark.stops_mark (by cases punctuation <;> decide)

/-- What was read item by item is what was written, item by item. -/
theorem map_eq_of_forall₂ {α β : Type} {change : α → β} {items found : List α}
    (same : List.Forall₂ (fun item other => change other = change item) items found) :
    found.map change = items.map change := by
  induction same with
  | nil => rfl
  | cons same _ inductionHypothesis => rw [List.map_cons, List.map_cons, same, inductionHypothesis]

/-- An enum in plain form, except that its members may stand without separators. -/
inductive EnumDefinition.Enumerated : EnumDefinition → List Word → Prop
  | intro {enum : EnumDefinition} {memberWords noteWords : List Word}
      (proper : isNameText enum.name = true)
      (members : Sequence (WithEnd MemberDefinition.Written) enum.members memberWords)
      (annotations : WrittenAnnotations enum.annotations noteWords) :
      Enumerated enum (.name "enum" :: .name enum.name proper :: .mark .openBrace ::
        (memberWords ++ .mark .closeBrace :: noteWords))

/-- An enum whose members have separators is among those whose members may have them. -/
theorem EnumDefinition.Written.enumerated {enum : EnumDefinition} (written : enum.Written words) :
    enum.Enumerated words := by
  obtain ⟨proper, members, annotations⟩ := written
  exact ⟨proper, members.sequence.mono fun _ _ => WithSeparator.withEnd, annotations⟩

/-- An enum is read from its words, up to its places, whether there are separators behind its
members or not.

Proof: behind the keyword come the name, the members in braces and the annotations. Each member ends
where the next one or the brace stands, and nothing that starts with a mark is read as a member, so
the repetition ends at the brace. -/
theorem reads_enum {definition : EnumDefinition} (written : definition.Enumerated words)
    (writable : definition.Writable) (noParen : more.head? ≠ some (.mark .openParen)) :
    enum.Reads (Facing fault (words ++ more))
      (fun found => found.withoutSpans = (Definition.enum definition).withoutSpans)
      (Nearing fault more) := by
  obtain ⟨proper, members, annotations⟩ := written
  rename_i memberWords noteWords
  have readsItems : ReadsItems fault enumMember (WithEnd MemberDefinition.Written)
      (fun member found => found.withoutSpans = member.withoutSpans) EndsMember
      definition.members := by
    rintro member isMember _ behind ⟨front, endWords, rfl, ends, body⟩ follows
    rw [List.append_assoc]
    exact reads_enumMember body (writable.members member isMember) ends follows
  have nonempty : ∀ member front, WithEnd MemberDefinition.Written member front → front ≠ [] := by
    rintro member _ ⟨_, endWords, rfl, ends, ⟨proper, number⟩⟩
    simp
  have extend : ∀ member front behind, WithEnd MemberDefinition.Written member front →
      EndsMember (front ++ behind) := by
    rintro member _ behind ⟨_, endWords, rfl, ends, ⟨proper, number⟩⟩
    exact .inl ⟨_, proper, _, rfl⟩
  have readsMembers : (enclosed "\x7b" "\x7d" enumMember).Reads (Facing fault _) _ _ :=
    reads_enclosed .openBrace .closeBrace
      (reads_repeated members readsItems nonempty extend (.inr ⟨noteWords ++ more, rfl⟩)
        refuses_enumMember_mark)
  simp only [List.append_assoc, List.cons_append]
  apply reads_keywordPart
  intro place
  apply (reads_declaredName proper writable.name).next.bind_eq
  apply readsMembers.next.bind
  intro foundMembers sameMembers
  apply (reads_nextAnnotations annotations writable.annotations noParen).bind_eq
  apply reads_pure
  simp [Definition.withoutSpans, EnumDefinition.withoutSpans, map_eq_of_forall₂ sameMembers]

/-! ## Structs, unions and exceptions -/

/-- A struct, union or exception is read from its keyword and the words behind it, up to its places.
-/
theorem reads_structBody (name keywordName : Expectation) {text : String}
    (isText : isNameText text = true) {struct : StructDefinition} (written : struct.Written words)
    (writable : struct.Writable) (noParen : more.head? ≠ some (.mark .openParen)) :
    (structBody name keywordName text).Reads (Facing fault (.name text isText :: (words ++ more)))
      (fun found => found.withoutSpans = struct.withoutSpans) (Nearing fault more) := by
  obtain ⟨proper, fields, annotations⟩ := written
  simp only [List.append_assoc, List.cons_append]
  apply reads_keywordPart
  intro place
  apply (reads_declaredName proper writable.name).next.bind_eq
  apply (reads_fields .openBrace .closeBrace fields writable.fields).next.bind
  intro foundFields sameFields
  apply (reads_nextAnnotations annotations writable.annotations noParen).bind_eq
  apply reads_pure
  simp [StructDefinition.withoutSpans, sameFields]

/-! ## Methods -/

/-- No keyword is read at a mark. -/
theorem refuses_keyword_mark {name : Expectation} {text : String} {punctuation : Mark}
    (isText : isNameText text = true) :
    (keyword name text).Refuses (Facing fault (.mark punctuation :: words)) :=
  (refuses_keyword isText).from_narrower fun _ at_mark =>
    at_mark.stops_mark (by cases punctuation <;> decide)

/-- The word for a method without an answer in front of what the method returns. -/
theorem reads_oneway {oneway : Bool} {rest : List Word}
    (unreserved : oneway = false →
      ∃ text proper more, rest = .name text proper :: more ∧ text ≠ "oneway") :
    (optional (keyword .onewayKeyword "oneway")).Reads
      (Facing fault ((if oneway then [.name "oneway"] else []) ++ rest))
      (fun found => found.isSome = oneway) (Nearing fault rest) := by
  cases oneway with
  | true =>
    apply (reads_keyword _).optional.weaken
    rintro _ ⟨found, rfl, -⟩
    rfl
  | false =>
    obtain ⟨text, proper, more, rfl, other⟩ := unreserved rfl
    apply (refuses_keyword_name (by decide) other).optional.mono
    · rintro _ rfl
      rfl
    · exact fun _ => Facing.nearing

/-- What a method returns starts with a name. -/
theorem WrittenReturn.exists_name {returns : Option TypeReference}
    (written : WrittenReturn returns words) (writable : ∀ type ∈ returns, type.Writable)
    (avoids : ∀ type ∈ returns, type.Avoids ["oneway"]) :
    ∃ text proper rest, words = .name text proper :: rest ∧ text ≠ "oneway" := by
  cases written with
  | nothing => exact ⟨"void", _, [], rfl, by decide⟩
  | type body =>
    obtain ⟨text, proper, rest, rfl, -, other⟩ :=
      body.exists_name (writable _ rfl) (avoids _ rfl) (by decide)
    exact ⟨text, proper, rest, rfl, by simpa using other⟩

/-- What a method returns is read, be it a type or the word for nothing. A type that is named like
that word could not be told from it.

Proof: the word for nothing is tried first. It is read where it is written, and a type that is
written instead starts with another name, so it is refused and the type is read. -/
theorem reads_functionType {returns : Option TypeReference} (written : WrittenReturn returns words)
    (writable : ∀ type ∈ returns, type.Writable ∧ type.Avoids ["void"]) (after : AfterType more) :
    functionType.Reads (Facing fault (words ++ more))
      (fun found => found.map (·.withoutSpans) = returns.map (·.withoutSpans))
      (Nearing fault more) := by
  apply Reads.part
  cases written with
  | nothing =>
    apply Reads.orElse
    exact (reads_keyword _).bind fun _ _ => reads_pure rfl
  | @type type _ body =>
    obtain ⟨isWritable, avoids⟩ := writable type rfl
    obtain ⟨text, proper, rest, rfl, -, other⟩ := body.exists_name isWritable avoids (by decide)
    have noVoid : (keyword .voidKeyword "void").Refuses
        (Facing fault (.name text proper :: (rest ++ more))) :=
      refuses_keyword_name (by decide) (by simpa using other)
    apply noVoid.bind.orElse
    apply (reads_type body isWritable after).bind
    intro found same
    exact reads_pure (congrArg some same)

/-- What a method returns does not start with a mark. -/
theorem refuses_functionType_mark {punctuation : Mark} :
    functionType.Refuses (Facing fault (.mark punctuation :: words)) :=
  ((refuses_keyword_mark (by decide)).bind.either refuses_type_mark.bind).part

/-- The exceptions of a method are read behind their keyword, or are none where a mark comes next.

Proof: by whether the clause is written. Without it the keyword is refused at the mark that comes
next, and nothing is read; with it the fields in parentheses are read behind the keyword. -/
theorem reads_throws {declared : List FieldDefinition} (written : WrittenThrows declared words)
    (writable : ∀ field ∈ declared, field.Writable)
    (isMark : ∃ punctuation rest, more = .mark punctuation :: rest) :
    (nextOptional throwsClause).Reads (Nearing fault (words ++ more))
      (fun found => (found.getD []).map (·.withoutSpans) = declared.map (·.withoutSpans))
      (Nearing fault more) := by
  cases written with
  | absent =>
    obtain ⟨punctuation, rest, rfl⟩ := isMark
    apply (refuses_keyword_mark (by decide)).bind.part.nextOptional.weaken
    rintro _ rfl
    rfl
  | @present declared words body =>
    have reads : throwsClause.Reads
        (Facing fault (.name "throws" :: .mark .openParen :: (words ++ .mark .closeParen :: more)))
        (fun found => found.map (·.withoutSpans) = declared.map (·.withoutSpans))
        (Nearing fault more) := by
      apply Reads.part
      apply (reads_keyword _).bind
      intro _ _
      exact (reads_fields .openParen .closeParen body writable).next
    simp only [List.cons_append, List.append_assoc, List.nil_append]
    apply reads.nextOptional.weaken
    rintro _ ⟨found, rfl, same⟩
    exact same

/-- A method is read with the separator behind it, up to its places.

Proof: part by part. What it returns starts with a name, which tells whether the word for a method
without an answer stands in front of it; behind its arguments and exceptions come annotations or the
separator. -/
theorem reads_function {definition : FunctionDefinition} {separator : Mark}
    (written : definition.Written words) (writable : definition.Writable)
    (separates : separator.IsSeparator) :
    function.Reads (Facing fault (words ++ .mark separator :: more))
      (fun found => found.withoutSpans = definition.withoutSpans) (Nearing fault more) := by
  obtain ⟨returns, proper, arguments, throws, annotations⟩ := written
  rename_i returnWords argumentWords throwWords noteWords
  have noParen : (Word.mark separator :: more).head? ≠ some (.mark .openParen) :=
    separates.ne (by decide) (by decide)
  have isMark : ∃ punctuation rest,
      noteWords ++ .mark separator :: more = .mark punctuation :: rest := by
    rcases annotations.head_cases with rfl | ⟨rest, rfl⟩
    · exact ⟨separator, more, rfl⟩
    · exact ⟨.openParen, _, rfl⟩
  have after : AfterType (.name definition.name proper :: .mark .openParen :: (argumentWords ++
      .mark .closeParen :: (throwWords ++ (noteWords ++ .mark separator :: more)))) := by
    rintro ⟨quote, content, first⟩
    cases first
  simp only [List.append_assoc, List.cons_append]
  apply Reads.part
  apply reads_here.bind
  intro place _
  apply (reads_oneway _).bind
  · intro foundOneway sameOneway
    apply (reads_functionType returns writable.returns after).next.bind
    intro foundReturns sameReturns
    apply (reads_declaredName proper writable.name).next.bind_eq
    apply (reads_fields .openParen .closeParen arguments writable.arguments).next.bind
    intro foundArguments sameArguments
    apply (reads_throws throws writable.throws isMark).bind
    intro foundThrows sameThrows
    apply (reads_nextAnnotations annotations writable.annotations noParen).bind_eq
    apply (reads_separator separates).next.bind
    intro _ _
    apply reads_pure
    simp [FunctionDefinition.withoutSpans, sameOneway, sameReturns, sameArguments, sameThrows]
  · intro isPlain
    obtain ⟨text, isText, rest, rfl, other⟩ := returns.exists_name
      (fun type isReturned => (writable.returns type isReturned).1) (writable.reserved isPlain)
    exact ⟨text, isText, _, rfl, other⟩

/-- No method starts with a mark. -/
theorem refuses_function_mark {punctuation : Mark} :
    function.Refuses (Facing fault (.mark punctuation :: words)) := by
  have noOneway :
      (keyword .onewayKeyword "oneway").Refuses (Facing fault (.mark punctuation :: words)) :=
    refuses_keyword_mark (by decide)
  apply Refuses.part
  apply reads_here.refuses_bind
  intro _ _
  apply (noOneway.optional.mono (fun _ => id) fun _ => Facing.nearing).refuses_bind
  intro _ _
  exact refuses_functionType_mark.next.bind

/-! ## Services -/

/-- The parent of a service is read behind its keyword, or is none where the methods come next. -/
theorem reads_parent {parent : Option String} {rest : List Word}
    (written : WrittenParent parent words) (writable : ∀ name ∈ parent, isIdentifier name = true) :
    (nextOptional do
      keyword .extendsKeyword "extends"
      next identifier).Reads (Nearing fault (words ++ .mark .openBrace :: rest)) (· = parent)
      (Nearing fault (.mark .openBrace :: rest)) := by
  cases written with
  | absent => exact (refuses_keyword_mark (by decide)).bind.nextOptional
  | @present parent proper =>
    apply ((reads_keyword _).bind fun _ _ =>
      (reads_identifier proper (writable parent rfl)).next).nextOptional.weaken
    rintro _ ⟨found, rfl, rfl⟩
    rfl

/-- A service is read from its words, up to its places, with all its methods.

Proof: behind the keyword come the name, the parent, the methods in braces and the annotations. A
method is refused at the brace, so the list of methods ends there. -/
theorem reads_service {definition : ServiceDefinition} (written : definition.Written words)
    (writable : definition.Writable) (noParen : more.head? ≠ some (.mark .openParen)) :
    service.Reads (Facing fault (words ++ more))
      (fun found => found.withoutSpans = (Definition.service definition).withoutSpans)
      (Nearing fault more) := by
  obtain ⟨proper, parent, functions, annotations⟩ := written
  rename_i parentWords functionWords noteWords
  have readsItems : ReadsItems fault function (WithSeparator FunctionDefinition.Written)
      (fun definition found => found.withoutSpans = definition.withoutSpans) (fun _ => True)
      definition.functions := by
    rintro function isFunction _ behind ⟨front, separator, rfl, separates, body⟩ -
    rw [List.append_assoc]
    exact reads_function body (writable.functions function isFunction) separates
  have ends : function.Refuses (Facing fault (.mark .closeBrace :: (noteWords ++ more))) :=
    refuses_function_mark
  have readsFunctions := reads_enclosed .openBrace .closeBrace
    (reads_listed functions readsItems ends)
  simp only [List.append_assoc, List.cons_append]
  apply reads_keywordPart
  intro place
  apply (reads_declaredName proper writable.name).next.bind_eq
  apply (reads_parent parent writable.parent).bind_eq
  apply readsFunctions.next.bind
  intro foundFunctions sameFunctions
  apply (reads_nextAnnotations annotations writable.annotations noParen).bind_eq
  apply reads_pure
  simp [Definition.withoutSpans, ServiceDefinition.withoutSpans, map_eq_of_forall₂ sameFunctions]

end SchemaCodec
