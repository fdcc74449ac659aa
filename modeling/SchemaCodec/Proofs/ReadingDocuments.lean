import SchemaCodec.Proofs.ReadingDefinitions

/-!
# Reading documents

A document in plain form is read back as it was written, however it was laid out: its lines and
declarations one by one, each up to where the next one starts. It is refused for the first integer
in it that does not fit.
-/

namespace SchemaCodec

open SchemaCodec.Parser SchemaCodec.Grammar

variable {words more : List Word} {fault : Option ParseFault}

/-! ## Declarations -/

/-- The word that a declaration starts with. -/
def Definition.keyword : Definition → String
  | constant _ => "const"
  | typedef _ => "typedef"
  | enum _ => "enum"
  | struct _ => "struct"
  | union _ => "union"
  | exception _ => "exception"
  | service _ => "service"

/-- The words of a declaration start with the keyword of its kind. -/
theorem Definition.Written.exists_keyword {definition : Definition}
    (written : definition.Written words) :
    ∃ proper rest, words = .name definition.keyword proper :: rest := by
  cases written with
  | constant body => cases body; exact ⟨_, _, rfl⟩
  | typedef body => cases body; exact ⟨_, _, rfl⟩
  | enum body => cases body; exact ⟨_, _, rfl⟩
  | struct body => exact ⟨_, _, rfl⟩
  | union body => exact ⟨_, _, rfl⟩
  | exception body => exact ⟨_, _, rfl⟩
  | service body => cases body; exact ⟨_, _, rfl⟩

/-- A declaration in plain form, except that the members of an enum may stand without
separators. -/
inductive Definition.Relaxed : Definition → List Word → Prop
  | written {definition : Definition} {words : List Word} (body : definition.Written words) :
      Relaxed definition words
  | enumerated {enum : EnumDefinition} {words : List Word} (body : enum.Enumerated words) :
      Relaxed (.enum enum) words

/-- So they do where members of an enum stand without separators. -/
theorem Definition.Relaxed.exists_keyword {definition : Definition}
    (relaxed : definition.Relaxed words) :
    ∃ proper rest, words = .name definition.keyword proper :: rest := by
  cases relaxed with
  | written body => exact body.exists_keyword
  | enumerated body => cases body; exact ⟨_, _, rfl⟩

/-- A declaration of another kind starts with another word. -/
theorem refuses_declaration {α : Type} {name keywordName : Expectation} {text other : String}
    {next : Span → Unit → Parser α} (isText : isNameText text = true) (different : other ≠ text)
    (starts : ∃ proper rest, words = .name other proper :: rest) :
    (part name (here >>= fun span => keyword keywordName text >>= next span)).Refuses
      (Facing fault (words ++ more)) := by
  obtain ⟨proper, rest, rfl⟩ := starts
  apply Refuses.part
  apply reads_here.refuses_bind
  intro _ _
  exact (refuses_keyword_name isText different).bind

/-- The kinds of declarations in the order in which they are tried. -/
def definitionKinds : Parser Definition :=
  constant <|> typedef <|> enum <|>
    (.struct <$> structBody .struct .structKeyword "struct") <|>
    (.union <$> structBody .union .unionKeyword "union") <|>
    (.exception <$> structBody .exception .exceptionKeyword "exception") <|>
    service

/-- A declaration is read by the parser of its own kind, up to its places.

Proof: the kinds in front of it in the order of trial look for other keywords and refuse it. -/
theorem reads_definitionKinds {definition : Definition} (relaxed : definition.Relaxed words)
    (writable : definition.Writable) (noParen : more.head? ≠ some (.mark .openParen))
    (unquoted : ¬ StartsQuoted more) :
    definitionKinds.Reads (Facing fault (words ++ more))
      (fun found => found.withoutSpans = definition.withoutSpans) (Nearing fault more) := by
  have starts := relaxed.exists_keyword
  have noConstant : definition.keyword ≠ "const" →
      constant.Refuses (Facing fault (words ++ more)) :=
    fun other => refuses_declaration (by decide) other starts
  have noTypedef : definition.keyword ≠ "typedef" →
      typedef.Refuses (Facing fault (words ++ more)) :=
    fun other => refuses_declaration (by decide) other starts
  have noEnum : definition.keyword ≠ "enum" → enum.Refuses (Facing fault (words ++ more)) :=
    fun other => refuses_declaration (by decide) other starts
  have noStruct : definition.keyword ≠ "struct" →
      (structBody .struct .structKeyword "struct").Refuses (Facing fault (words ++ more)) :=
    fun other => refuses_declaration (by decide) other starts
  have noUnion : definition.keyword ≠ "union" →
      (structBody .union .unionKeyword "union").Refuses (Facing fault (words ++ more)) :=
    fun other => refuses_declaration (by decide) other starts
  have noException : definition.keyword ≠ "exception" →
      (structBody .exception .exceptionKeyword "exception").Refuses
        (Facing fault (words ++ more)) :=
    fun other => refuses_declaration (by decide) other starts
  have readsEnum : ∀ found, found.Enumerated words → definition = .enum found →
      definitionKinds.Reads (Facing fault (words ++ more))
        (fun found => found.withoutSpans = definition.withoutSpans) (Nearing fault more) := by
    rintro found body rfl
    apply (noConstant (by simp [Definition.keyword])).orElse
    apply (noTypedef (by simp [Definition.keyword])).orElse
    exact (reads_enum body writable noParen).orElse
  rcases relaxed with written | body
  case enumerated => exact readsEnum _ body rfl
  cases written with
  | enum body => exact readsEnum _ body.enumerated rfl
  | constant body => exact (reads_constant body writable).orElse
  | typedef body =>
    apply (noConstant (by simp [Definition.keyword])).orElse
    exact (reads_typedef body writable noParen unquoted).orElse
  | struct body =>
    apply (noConstant (by simp [Definition.keyword])).orElse
    apply (noTypedef (by simp [Definition.keyword])).orElse
    apply (noEnum (by simp [Definition.keyword])).orElse
    apply Reads.orElse
    exact (reads_structBody _ _ _ body writable noParen).map fun _ => congrArg Definition.struct
  | union body =>
    apply (noConstant (by simp [Definition.keyword])).orElse
    apply (noTypedef (by simp [Definition.keyword])).orElse
    apply (noEnum (by simp [Definition.keyword])).orElse
    apply (noStruct (by simp [Definition.keyword])).map.orElse
    apply Reads.orElse
    exact (reads_structBody _ _ _ body writable noParen).map fun _ => congrArg Definition.union
  | exception body =>
    apply (noConstant (by simp [Definition.keyword])).orElse
    apply (noTypedef (by simp [Definition.keyword])).orElse
    apply (noEnum (by simp [Definition.keyword])).orElse
    apply (noStruct (by simp [Definition.keyword])).map.orElse
    apply (noUnion (by simp [Definition.keyword])).map.orElse
    apply Reads.orElse
    exact (reads_structBody _ _ _ body writable noParen).map fun _ => congrArg Definition.exception
  | service body =>
    apply (noConstant (by simp [Definition.keyword])).orElse
    apply (noTypedef (by simp [Definition.keyword])).orElse
    apply (noEnum (by simp [Definition.keyword])).orElse
    apply (noStruct (by simp [Definition.keyword])).map.orElse
    apply (noUnion (by simp [Definition.keyword])).map.orElse
    apply (noException (by simp [Definition.keyword])).map.orElse
    exact reads_service body writable noParen

/-- What may stand behind a line or declaration: another one, or nothing. -/
def StartsLine (words : List Word) : Prop :=
  words = [] ∨ ∃ text proper rest, words = .name text proper :: rest

/-- Where a line starts or the text ends, no mark comes next. -/
theorem StartsLine.head_ne {punctuation : Mark} (starts : StartsLine words) :
    words.head? ≠ some (.mark punctuation) := by
  rcases starts with rfl | ⟨text, proper, rest, rfl⟩ <;> simp

/-- Where a line starts or the text ends, no text in quotes comes next. -/
theorem StartsLine.unquoted (starts : StartsLine words) : ¬ StartsQuoted words := by
  rintro ⟨quote, content, first⟩
  rcases starts with rfl | ⟨text, proper, rest, rfl⟩ <;> cases first

/-- A declaration is read together with the separator that may follow it. -/
theorem reads_definition {definition : Definition} {endWords : List Word}
    (relaxed : definition.Relaxed words) (ends : WrittenEnd endWords)
    (writable : definition.Writable) (starts : StartsLine more) :
    Grammar.definition.Reads (Facing fault (words ++ (endWords ++ more)))
      (fun found => found.withoutSpans = definition.withoutSpans) (Nearing fault more) := by
  have noParen : (endWords ++ more).head? ≠ some (.mark .openParen) :=
    ends.head_ne (by decide) (by decide) starts.head_ne
  have unquoted : ¬ StartsQuoted (endWords ++ more) := by
    cases ends with
    | absent => exact starts.unquoted
    | present separates =>
      rintro ⟨quote, content, first⟩
      cases first
  apply (reads_definitionKinds relaxed writable noParen unquoted).bind
  intro found same
  exact (reads_end ends starts.head_ne starts.head_ne).bind fun _ _ => reads_pure same

/-! ## Lines -/

/-- The words of a line or declaration that can be written. -/
inductive WrittenItem : Item → List Word → Prop
  | includeLine {included : Include} {pathWords : List Word}
      (path : WrittenText included.path pathWords) :
      WrittenItem (.includeLine included) (.name "include" :: pathWords)
  | namespaceLine {target : Namespace} (scope : isScopeText target.scope = true)
      (proper : isNameText target.name = true) (isName : isIdentifier target.name = true) :
      WrittenItem (.namespaceLine target)
        [.name "namespace", .scope target.scope scope, .name target.name proper]
  | definition {definition : Definition} {words endWords : List Word}
      (body : definition.Relaxed words) (ends : WrittenEnd endWords)
      (writable : definition.Writable) : WrittenItem (.definition definition) (words ++ endWords)

/-- A line or declaration that was read is the one that was written, but for its places. -/
inductive SameItem : Item → Item → Prop
  | includeLine {included found : Include} (same : found.withoutSpans = included.withoutSpans) :
      SameItem (.includeLine included) (.includeLine found)
  | namespaceLine {target : Namespace} : SameItem (.namespaceLine target) (.namespaceLine target)
  | definition {definition found : Definition}
      (same : found.withoutSpans = definition.withoutSpans) :
      SameItem (.definition definition) (.definition found)

/-- The words of a line or declaration start with a name. -/
theorem WrittenItem.startsLine {item : Item} (written : WrittenItem item words) :
    StartsLine (words ++ more) := by
  right
  cases written with
  | includeLine path => exact ⟨"include", _, _, rfl⟩
  | namespaceLine scope proper isName => exact ⟨"namespace", _, _, rfl⟩
  | definition body ends writable =>
    obtain ⟨proper, rest, rfl⟩ := body.exists_keyword
    exact ⟨_, proper, _, rfl⟩

/-- A line of another kind starts with another word. -/
theorem refuses_line {name keywordName : Expectation} {text other : String}
    {next : Unit → Parser Item} (isText : isNameText text = true) (different : other ≠ text)
    (starts : ∃ proper rest, words = .name other proper :: rest) :
    (part name (keyword keywordName text >>= next)).Refuses (Facing fault (words ++ more)) := by
  obtain ⟨proper, rest, rfl⟩ := starts
  exact (refuses_keyword_name isText different).bind.part

/-- A line or declaration is read from its words, up to its places, where another one starts behind
it or the text ends.

Proof: each kind starts with a word of its own, at which the kinds that are tried in front of it
fail. -/
theorem reads_item {item : Item} (written : WrittenItem item words) (starts : StartsLine more) :
    Grammar.item.Reads (Facing fault (words ++ more)) (SameItem item) (Nearing fault more) := by
  cases written with
  | includeLine path =>
    apply Reads.orElse
    apply Reads.part
    apply reads_here.bind
    intro place _
    apply (reads_keyword _).bind
    intro _ _
    apply (reads_writtenText path).next.bind_eq
    exact reads_pure (.includeLine rfl)
  | namespaceLine scope proper isName =>
    apply (refuses_declaration (by decide) (by decide) ⟨_, _, rfl⟩).orElse
    apply (refuses_line (by decide) (by decide) ⟨_, _, rfl⟩).orElse
    apply Reads.orElse
    apply Reads.part
    apply (reads_keyword _).bind
    intro _ _
    apply (reads_namespaceScope scope).next.bind_eq
    apply (reads_identifier proper isName).next.bind_eq
    exact reads_pure .namespaceLine
  | @definition definition words endWords body ends writable =>
    have keyword := body.exists_keyword
    have noLine : definition.keyword ≠ "include" ∧ definition.keyword ≠ "cpp_include" ∧
        definition.keyword ≠ "namespace" := by
      cases definition <;> simp [Definition.keyword]
    obtain ⟨noInclude, noCppInclude, noNamespace⟩ := noLine
    rw [List.append_assoc]
    apply (refuses_declaration (by decide) noInclude keyword).orElse
    apply (refuses_line (by decide) noCppInclude keyword).orElse
    apply (refuses_line (by decide) noNamespace keyword).orElse
    apply (reads_definition body ends writable starts).bind
    intro found same
    exact reads_pure (.definition same)

/-- At the end of a text there is no further line or declaration.

Proof: each kind of line and of declaration starts with a word of its own, and a word is not found
at the end of a text. So all alternatives refuse, one after another. -/
theorem refuses_item_end : Grammar.item.Refuses (Facing fault []) := by
  have noWord : ∀ {name : Expectation} {text : String}, isNameText text = true →
      (keyword name text).Refuses (Facing fault []) :=
    fun isText => (refuses_keyword isText).from_narrower fun _ => Facing.stops_nil
  have noDeclaration : ∀ {α : Type} {name keywordName : Expectation} {text : String}
      {next : Span → Unit → Parser α}, isNameText text = true →
        (part name (here >>= fun span => keyword keywordName text >>= next span)).Refuses
          (Facing fault []) :=
    fun isText => (reads_here.refuses_bind fun _ _ => (noWord isText).bind).part
  apply (noDeclaration (by decide)).either
  apply (noWord (by decide)).bind.part.either
  apply (noWord (by decide)).bind.part.either
  apply Refuses.bind
  apply Refuses.bind
  apply (noDeclaration (by decide)).either
  apply (noDeclaration (by decide)).either
  apply (noDeclaration (by decide)).either
  apply (noDeclaration (by decide)).map.either
  apply (noDeclaration (by decide)).map.either
  exact (noDeclaration (by decide)).map.either (noDeclaration (by decide))

/-! ## Documents -/

/-- The lines and declarations of a document in the order of their words. Added to a document one by
one, they are added to its lists.

Proof: by induction on the lines. Each of them is one item with its own words; a declaration takes
the words of its end along. Adding the first item and then all others puts each into its list in
front of those that follow. -/
theorem WrittenLines.exists_items {includes : List Include} {namespaces : List Namespace}
    {definitions : List Definition} (written : WrittenLines includes namespaces definitions words)
    (isName : ∀ target ∈ namespaces,
      isScopeText target.scope = true ∧ isIdentifier target.name = true)
    (writable : ∀ definition ∈ definitions, definition.Writable) :
    ∃ items, Sequence WrittenItem items words ∧
      ∀ document : Document, items.foldl Document.add document =
        { document with
          includes := document.includes ++ includes
          namespaces := document.namespaces ++ namespaces
          definitions := document.definitions ++ definitions } := by
  induction written with
  | nil => exact ⟨[], .nil, by simp⟩
  | @includeLine included includes namespaces definitions pathWords rest path more
      inductionHypothesis =>
    obtain ⟨items, sequence, adds⟩ := inductionHypothesis isName writable
    refine ⟨.includeLine included :: items, .cons (.includeLine path) sequence, ?_⟩
    intro document
    rw [List.foldl_cons, adds]
    simp [Document.add]
  | @namespaceLine target includes namespaces definitions rest scope proper more
      inductionHypothesis =>
    rw [List.forall_mem_cons] at isName
    obtain ⟨items, sequence, adds⟩ := inductionHypothesis isName.2 writable
    refine ⟨.namespaceLine target :: items,
      .cons (.namespaceLine scope proper isName.1.2) sequence, ?_⟩
    intro document
    rw [List.foldl_cons, adds]
    simp [Document.add]
  | @definition definition includes namespaces definitions words endWords rest body ends more
      inductionHypothesis =>
    rw [List.forall_mem_cons] at writable
    obtain ⟨items, sequence, adds⟩ := inductionHypothesis isName writable.2
    refine ⟨.definition definition :: items, ?_, ?_⟩
    · rw [← List.append_assoc]
      exact .cons (.definition (.written body) ends writable.1) sequence
    · intro document
      rw [List.foldl_cons, adds]
      simp [Document.add]

/-- The items of a text are read up to its end.

Proof: the items are read one behind the other. Each of them starts as a line does, so none is taken
for a part of the one before it, and at the end of the text no item is read, so the repetition stops
where the end is expected. -/
theorem reads_document {items : List Item} (sequence : Sequence WrittenItem items words) :
    Grammar.document.Reads (Nearing fault words) (List.Forall₂ SameItem items)
      (Facing fault []) := by
  have readsItems : ReadsItems fault Grammar.item WrittenItem SameItem StartsLine items :=
    fun item _ front behind written starts => reads_item written starts
  have nonempty : ∀ item front, WrittenItem item front → front ≠ [] := by
    rintro item _ ⟨⟩
    · simp
    · simp
    · rename_i body ends writable
      obtain ⟨proper, rest, rfl⟩ := body.exists_keyword
      simp
  have readsAll := reads_repeated sequence readsItems nonempty
    (fun _ _ _ written => written.startsLine) (.inl rfl) refuses_item_end
  rw [List.append_nil] at readsAll
  apply Reads.part
  apply readsAll.next.bind
  intro found same
  have readsEnd :
      (token .endOfInput fun chars => if chars.isEmpty then some ([], []) else none).Reads
        (Facing fault [])
        (fun _ => True) (Facing fault []) := by
    apply Reads.part
    apply reads_take
    intro cursor atEnd
    have empty := atEnd.rest_eq_nil
    refine ⟨[], [], by rw [empty]; rfl, trivial, ?_⟩
    exact empty ▸ atEnd
  exact readsEnd.next.bind fun _ _ => reads_pure same

/-- What was read item by item is added up to what was written, but for its places.

Proof: by induction on the items, from any two documents that agree but for places. An item is added
to one of the lists, and what was added to both sides is the same once places are dropped. -/
theorem foldl_add_withoutSpans {items found : List Item} (same : List.Forall₂ SameItem items found)
    {document other : Document} (start : other.withoutSpans = document.withoutSpans) :
    (found.foldl Document.add other).withoutSpans =
      (items.foldl Document.add document).withoutSpans := by
  induction same generalizing document other with
  | nil => exact start
  | cons sameItem _ inductionHypothesis =>
    apply inductionHypothesis
    simp only [Document.withoutSpans, Document.mk.injEq] at start
    obtain ⟨path, module, includes, namespaces, definitions⟩ := start
    cases sameItem with
    | includeLine same =>
      simp [Document.add, Document.withoutSpans, path, module, includes, namespaces, definitions,
        same]
    | namespaceLine =>
      simp [Document.add, Document.withoutSpans, path, module, includes, namespaces, definitions]
    | definition same =>
      simp [Document.add, Document.withoutSpans, path, module, includes, namespaces, definitions,
        same]

/-- A text of items is read back if all its numbers fit, and is refused for its first fault
otherwise.

Proof: the items are read and the cursor at the end notes the first number that does not fit. If
there is none, the items found are added up to the document; otherwise the note is what the parse
ends in. -/
theorem parse_of_textOf (path : String) {items : List Item} {text : String}
    (sequence : Sequence WrittenItem items words) (isText : TextOf words fault text.toList) :
    (fault = none → ∃ found, Document.parse path text = .ok found ∧ found.withoutSpans =
      (items.foldl Document.add (.ofPath path)).withoutSpans) ∧
      ∀ reason, fault = some reason → ∃ span,
        Document.parse path text = .error ⟨path, span, reason⟩ := by
  have nearing : Nearing fault words { rest := text.toList } := ⟨fault, isText, rfl⟩
  obtain ⟨found, reached, succeeds, same, atEnd⟩ := reads_document sequence _ {} nearing
  have noted := atEnd.misfit_eq
  constructor
  · rintro rfl
    have misfit : reached.misfit = none := Option.map_eq_none_iff.mp noted
    refine ⟨found.foldl Document.add (.ofPath path), ?_, foldl_add_withoutSpans same rfl⟩
    rw [Document.parse, outcome_eq succeeds]
    simp [Document.ofOutcome, misfit]
  · rintro reason rfl
    obtain ⟨⟨span, _⟩, misfit, rfl⟩ := Option.map_eq_some_iff.mp noted
    refine ⟨span, ?_⟩
    rw [Document.parse, outcome_eq succeeds]
    simp [Document.ofOutcome, misfit]

/-- Every document that can be written is read back from every text of it, up to the places of its
parts. Its path and its module are those of the text.

Proof: the lines and declarations are items, whose words are read back item by item. Added up again,
the items give the lists of the document. -/
theorem written_documents_are_read_back {document : Document} {text : String} (path : String)
    (writable : document.Writable) (written : document.Written words)
    (laidOut : LaidOut words text.toList) :
    ∃ found, Document.parse path text = .ok found ∧ found.withoutSpans =
      { document with path, module := moduleOfPath path }.withoutSpans := by
  obtain ⟨items, sequence, adds⟩ :=
    WrittenLines.exists_items written writable.namespaces writable.definitions
  obtain ⟨found, parsed, same⟩ := (parse_of_textOf path sequence laidOut.textOf).1 rfl
  refine ⟨found, parsed, ?_⟩
  rw [same, adds]
  simp [Document.ofPath, Document.withoutSpans]

/-- A struct with a field that has left out its id and a type that is named like a container. -/
def pointStruct : StructDefinition where
  name := "Point"
  fields :=
    [{ id := -1, name := "x", requiredness := .required, type := .named "map" {},
       default := some (.list [.int (-5)]) },
      { id := 7, name := "list", type := .list (.base .byte) }]

/-- A document with an include and a struct. -/
def pointDocument : Document where
  path := "point.thrift"
  module := "point"
  includes := [{ path := "it's.thrift" }]
  definitions := [.struct pointStruct]

/-- A text of the document with remarks of both kinds. -/
def pointText : String :=
  "include 'it\\'s.thrift' struct Point \x7b required map x = [ -5 , ] ;\n" ++
    "/* bytes */ 7 : list < i8 > list , \x7d # end\n"

/-- The words of the text with the gaps in front of them. -/
def pointPieces : List (List Char × Word) :=
  [([], .name "include"), ([' '], .quoted .single "it's.thrift"), ([' '], .name "struct"),
    ([' '], .name "Point"), ([' '], .mark .openBrace), ([' '], .name "required"),
    ([' '], .name "map"), ([' '], .name "x"), ([' '], .mark .equals), ([' '], .mark .openBracket),
    ([' '], .number (-5)), ([' '], .mark .comma), ([' '], .mark .closeBracket),
    ([' '], .mark .semicolon),
    ('\n' :: '/' :: '*' :: (" bytes ".toList ++ ['*', '/', ' ']), .number 7),
    ([' '], .mark .colon), ([' '], .name "list"), ([' '], .mark .openAngle), ([' '], .name "i8"),
    ([' '], .mark .closeAngle), ([' '], .name "list"), ([' '], .mark .comma),
    ([' '], .mark .closeBrace)]

/-- The text has the words, with remarks of both kinds in its gaps.

Proof: the text is the words with a gap in front of each of them and one behind the last. Most gaps
are single blanks; one is a block remark, and the last one is a remark up to the end of its line. -/
theorem laidOut_pointText : LaidOut (pointPieces.map (·.2)) pointText.toList := by
  have one : Gap [' '] := .space (by decide) .nil
  have noStar : '*' ∉ " bytes ".toList := by decide
  have inBlock : ¬ ['*', '/'] <:+: " bytes ".toList := fun within =>
    noStar (within.subset List.mem_cons_self)
  have bytes : Gap ('\n' :: '/' :: '*' :: (" bytes ".toList ++ ['*', '/', ' '])) :=
    .space (by decide) (.block inBlock one)
  have inLine : ∀ char ∈ " end".toList, char ≠ '\n' ∧ char ≠ '\r' := by
    simp only [String.reduceToList, List.forall_mem_cons]
    exact ⟨by decide, by decide, by decide, by decide, List.forall_mem_nil _⟩
  have last : Gap (' ' :: (['#'] ++ (" end".toList ++ ['\n']))) :=
    .space (by decide) (.line (.inr rfl) inLine (.inl rfl) .nil)
  have same : pointText.toList =
      layOut pointPieces (' ' :: (['#'] ++ (" end".toList ++ ['\n']))) := by
    decide +kernel
  rw [same]
  apply laidOut_layOut last
  · simp only [pointPieces, List.forall_mem_cons]
    exact ⟨.nil, one, one, one, one, one, one, one, one, one, one, one, one, one, bytes, one, one,
      one, one, one, one, one, one, by simp⟩
  · decide

/-- All parts of the document can be written.

Proof: by looking at each field: its name is an identifier, its type names one or is a list of a
base type, its default holds a number that fits, and there are no annotations. -/
theorem writable_pointDocument : pointDocument.Writable := by
  have noNotes : WritableAnnotations [] := by simp [WritableAnnotations]
  have items : ∀ item ∈ [Literal.int (-5)], item.Writable := by
    rintro _ (_ | ⟨_, ⟨⟩⟩)
    exact .int ⟨by decide, by decide⟩
  have first : ∀ field ∈ pointStruct.fields, field.Writable := by
    simp only [pointStruct, List.forall_mem_cons, List.not_mem_nil, false_implies, implies_true,
      and_true]
    refine ⟨⟨by decide, ⟨by decide, ?_⟩, ?_, ?_, noNotes⟩, ⟨by decide, trivial, ?_, ?_, noNotes⟩⟩
    · rintro ⟨⟩ <;> decide
    · intro unspecified
      cases unspecified
    · rintro _ ⟨⟩
      exact .list items
    · exact fun _ => trivial
    · rintro _ ⟨⟩
  refine ⟨by simp [pointDocument], ?_⟩
  simp only [pointDocument, List.forall_mem_singleton]
  exact ⟨by decide, first, noNotes⟩

/-- The words are words of the document: one field has left out its id, and separators are of both
kinds.

Proof: the words of each part are given and put together from the inside: the literal, the two
fields with their separators, the struct, and the line for the included file in front of it. -/
theorem written_pointDocument : pointDocument.Written (pointPieces.map (·.2)) := by
  have items : Literal.Written (.list [.int (-5)]) _ :=
    .list (.cons (.int (.intro (-5))) (.inl rfl) .nil)
  have isByte : "i8" ∈ BaseType.byte.words := by decide
  have first : FieldDefinition.Written
      { id := -1, name := "x", requiredness := .required, type := .named "map" {},
        default := some (.list [.int (-5)]) } _ :=
    .intro .required (.named (by decide)) (by decide) (.present items) .absent
  have second :
      FieldDefinition.Written { id := 7, name := "list", type := .list (.base .byte) } _ :=
    .intro .unspecified (.list (.base isByte (by decide))) (by decide) .absent .absent
  have fields : WrittenFields 0 pointStruct.fields _ :=
    .implied (by decide) first (.inr rfl) (.given second (.inl rfl) .nil)
  have struct : StructDefinition.Written pointStruct _ := .intro (by decide) fields .absent
  have path : WrittenText "it's.thrift" _ := .intro .single _
  have lines : pointDocument.Written _ :=
    .includeLine path (.definition (.struct struct) .absent .nil)
  exact lines

/-- The text of the document is read back, under a path of its own. -/
theorem pointDocument_is_read_back : pointDocument.Writable ∧
    pointDocument.Written (pointPieces.map (·.2)) ∧
      LaidOut (pointPieces.map (·.2)) pointText.toList ∧
        ∃ found, Document.parse "schemas/plane.v2.thrift" pointText = .ok found ∧
          found.withoutSpans = Document.withoutSpans
            { pointDocument with path := "schemas/plane.v2.thrift", module := "plane" } := by
  obtain ⟨found, parsed, same⟩ := written_documents_are_read_back "schemas/plane.v2.thrift"
    writable_pointDocument written_pointDocument laidOut_pointText
  exact ⟨writable_pointDocument, written_pointDocument, laidOut_pointText, found, parsed, same⟩

end SchemaCodec
