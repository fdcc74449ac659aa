import SchemaCodec.Proofs.PlainForm

/-!
# Every document that can be written has a text

Each part of a document has words, and one way to write it is enough: every field with its id, every
separator a comma and every text in double quotes. Words have a text with a space in front of each
of them.
-/

namespace SchemaCodec

variable {α : Type} {written : α → List Word → Prop}

/-- A name that may refer to something consists of characters of names. -/
theorem isNameText_of_isIdentifier {text : String} (isName : isIdentifier text = true) :
    isNameText text = true := by
  unfold isIdentifier at isName
  split at isName
  case h_2 => cases isName
  case h_1 first rest same =>
    rw [Bool.and_eq_true, List.all_eq_true] at isName
    simp only [isNameText, same, List.isEmpty_cons, Bool.not_false, Bool.true_and, List.all_cons,
      Bool.and_eq_true, List.all_eq_true]
    exact ⟨isNameChar_of_isNameStart isName.1, isName.2⟩

/-- A name that may be declared may also refer to something. -/
theorem isIdentifier_of_isDeclaredName {text : String} (isName : isDeclaredName text = true) :
    isIdentifier text = true := by
  unfold isDeclaredName at isName
  unfold isIdentifier
  split at isName
  case h_2 => cases isName
  case h_1 first rest same =>
    simp only [Bool.and_eq_true, List.all_eq_true] at isName ⊢
    refine ⟨isName.1, fun char inside => ?_⟩
    simp [Lexer.isNameChar, isName.2 char inside]

/-- A name that may be declared consists of characters of names. -/
theorem isNameText_of_isDeclaredName {text : String} (isName : isDeclaredName text = true) :
    isNameText text = true :=
  isNameText_of_isIdentifier (isIdentifier_of_isDeclaredName isName)

/-! ## Lists and options -/

/-- Items that all have words have them together, with commas for separators. -/
theorem Listed.exists_words {items : List α}
    (each : ∀ item ∈ items, ∃ words, written item words) :
    ∃ words, Listed written items words := by
  induction items with
  | nil => exact ⟨[], .nil⟩
  | cons item items inductionHypothesis =>
    rw [List.forall_mem_cons] at each
    obtain ⟨front, first⟩ := each.1
    obtain ⟨rest, more⟩ := inductionHypothesis each.2
    exact ⟨_, .cons first (.inl rfl) more⟩

/-- A value that has words, or is missing, can be assigned. -/
theorem Assigned.exists_words {value : Option α}
    (each : ∀ held ∈ value, ∃ words, written held words) :
    ∃ words, Assigned written value words := by
  cases value with
  | none => exact ⟨[], .absent⟩
  | some held =>
    obtain ⟨words, body⟩ := each held rfl
    exact ⟨_, .present body⟩

/-- Annotations have words, their texts in double quotes. Empty parentheses are among the words for
none. -/
theorem WrittenAnnotations.exists_words {annotations : List Annotation}
    (writable : WritableAnnotations annotations) :
    ∃ words, WrittenAnnotations annotations words := by
  have each : ∀ note ∈ annotations, ∃ words, note.Written words := by
    intro note isItem
    have value : ∃ words, Assigned WrittenText note.value words :=
      Assigned.exists_words fun content _ => ⟨_, .intro .double content⟩
    obtain ⟨words, value⟩ := value
    exact ⟨_, .intro (isNameText_of_isIdentifier (writable note isItem)) value⟩
  obtain ⟨words, items⟩ := Listed.exists_words each
  exact ⟨_, .present items⟩

/-! ## Types and literals -/

/-- A type that can be written has words.

Proof: induction on the type, which has one form for each of its constructors. A base type takes the
first of its words. -/
theorem TypeReference.Writable.exists_words {type : TypeReference} (writable : type.Writable) :
    ∃ words, type.Written words := by
  induction type with
  | base type =>
    have single : ∃ word ∈ type.words, isNameText word = true := by
      cases type <;> exact ⟨_, List.mem_cons_self, by decide⟩
    obtain ⟨word, listed, proper⟩ := single
    exact ⟨_, .base listed proper⟩
  | list element inductionHypothesis =>
    obtain ⟨words, inner⟩ := inductionHypothesis writable
    exact ⟨_, .list inner⟩
  | set element inductionHypothesis =>
    obtain ⟨words, inner⟩ := inductionHypothesis writable
    exact ⟨_, .set inner⟩
  | map key value keyHypothesis valueHypothesis =>
    obtain ⟨keyWords, first⟩ := keyHypothesis writable.1
    obtain ⟨valueWords, second⟩ := valueHypothesis writable.2
    exact ⟨_, .map first second⟩
  | named name span => exact ⟨_, .named (isNameText_of_isIdentifier writable.1)⟩

/-- A literal that can be written has words.

Proof: induction on how it can be written, which gives words for all items of a list and for all
keys and values of a map at once. -/
theorem Literal.Writable.exists_words {literal : Literal} (writable : literal.Writable) :
    ∃ words, literal.Written words := by
  induction writable with
  | int fits => exact ⟨_, .int (.intro _)⟩
  | text => exact ⟨_, .text (.intro .double _)⟩
  | identifier isName => exact ⟨_, .identifier (isNameText_of_isIdentifier isName)⟩
  | list all inductionHypothesis =>
    obtain ⟨words, inner⟩ := Listed.exists_words inductionHypothesis
    exact ⟨_, .list inner⟩
  | @map entries keys values keyHypothesis valueHypothesis =>
    have each : ∀ entry ∈ entries, ∃ words, WrittenEntry Literal.Written entry words := by
      intro entry isEntry
      obtain ⟨keyWords, first⟩ := keyHypothesis entry isEntry
      obtain ⟨valueWords, second⟩ := valueHypothesis entry isEntry
      exact ⟨_, .intro first second⟩
    obtain ⟨words, inner⟩ := Listed.exists_words each
    exact ⟨_, .map inner⟩

/-! ## Fields -/

/-- A field that can be written has words of its own, without an id. -/
theorem FieldDefinition.Writable.exists_words {field : FieldDefinition}
    (writable : field.Writable) : ∃ words, field.Written words := by
  have requiredness : ∃ words, field.requiredness.Written words := by
    cases field.requiredness with
    | unspecified => exact ⟨_, .unspecified⟩
    | required => exact ⟨_, .required⟩
    | optional => exact ⟨_, .optional⟩
  have default : ∃ words, Assigned Literal.Written field.default words :=
    Assigned.exists_words fun literal isDefault => (writable.default literal isDefault).exists_words
  obtain ⟨requirednessWords, requiredness⟩ := requiredness
  obtain ⟨typeWords, type⟩ := writable.type.exists_words
  obtain ⟨defaultWords, default⟩ := default
  obtain ⟨noteWords, annotations⟩ := WrittenAnnotations.exists_words writable.annotations
  exact ⟨_, .intro requiredness type (isNameText_of_isDeclaredName writable.name) default
    annotations⟩

/-- Fields can always be written with their ids. -/
theorem WrittenFields.exists_words {fields : List FieldDefinition} (count : Nat)
    (writable : ∀ field ∈ fields, field.Writable) : ∃ words, WrittenFields count fields words := by
  induction fields with
  | nil => exact ⟨[], .nil⟩
  | cons field fields inductionHypothesis =>
    rw [List.forall_mem_cons] at writable
    obtain ⟨words, body⟩ := writable.1.exists_words
    obtain ⟨rest, more⟩ := inductionHypothesis writable.2
    exact ⟨_, .given body (.inl rfl) more⟩

/-! ## Declarations -/

/-- An enum that can be written has words, and so has each of its members. -/
theorem EnumDefinition.Writable.exists_words {enum : EnumDefinition} (writable : enum.Writable) :
    ∃ words, enum.Written words := by
  have each : ∀ member ∈ enum.members, ∃ words, member.Written words := by
    intro member isMember
    have number : ∃ words, Assigned WrittenNumber member.number words :=
      Assigned.exists_words fun held _ => ⟨_, .intro held⟩
    obtain ⟨words, number⟩ := number
    exact ⟨_, .intro (isNameText_of_isDeclaredName (writable.members member isMember).name) number⟩
  obtain ⟨memberWords, members⟩ := Listed.exists_words each
  obtain ⟨noteWords, annotations⟩ := WrittenAnnotations.exists_words writable.annotations
  exact ⟨_, .intro (isNameText_of_isDeclaredName writable.name) members annotations⟩

/-- A struct, union or exception that can be written has words behind its keyword. -/
theorem StructDefinition.Writable.exists_words {struct : StructDefinition}
    (writable : struct.Writable) : ∃ words, struct.Written words := by
  obtain ⟨fieldWords, fields⟩ := WrittenFields.exists_words 0 writable.fields
  obtain ⟨noteWords, annotations⟩ := WrittenAnnotations.exists_words writable.annotations
  exact ⟨_, .intro (isNameText_of_isDeclaredName writable.name) fields annotations⟩

/-- A method that can be written has words, with its clause of exceptions even where it throws
nothing.

Proof: result, arguments, exceptions and annotations have words each, and the words of the method
are these in the order of the grammar. -/
theorem FunctionDefinition.Writable.exists_words {function : FunctionDefinition}
    (writable : function.Writable) : ∃ words, function.Written words := by
  have returned : ∀ {returns : Option TypeReference}, (∀ type ∈ returns, type.Writable) →
      ∃ words, WrittenReturn returns words := by
    intro returns isWritable
    cases returns with
    | none => exact ⟨_, .nothing⟩
    | some type =>
      obtain ⟨words, body⟩ := (isWritable type rfl).exists_words
      exact ⟨_, .type body⟩
  obtain ⟨returnWords, returns⟩ :=
    returned fun type isReturned => (writable.returns type isReturned).1
  obtain ⟨argumentWords, arguments⟩ := WrittenFields.exists_words 0 writable.arguments
  obtain ⟨throwWords, throws⟩ := WrittenFields.exists_words 0 writable.throws
  obtain ⟨noteWords, annotations⟩ := WrittenAnnotations.exists_words writable.annotations
  exact ⟨_, .intro returns (isNameText_of_isDeclaredName writable.name) arguments (.present throws)
    annotations⟩

/-- A service that can be written has words. -/
theorem ServiceDefinition.Writable.exists_words {service : ServiceDefinition}
    (writable : service.Writable) : ∃ words, service.Written words := by
  have extended : ∀ {parent : Option String}, (∀ name ∈ parent, isIdentifier name = true) →
      ∃ words, WrittenParent parent words := by
    intro parent isName
    cases parent with
    | none => exact ⟨_, .absent⟩
    | some name => exact ⟨_, .present (isNameText_of_isIdentifier (isName name rfl))⟩
  obtain ⟨parentWords, parent⟩ := extended writable.parent
  obtain ⟨functionWords, functions⟩ := Listed.exists_words fun function isFunction =>
    (writable.functions function isFunction).exists_words
  obtain ⟨noteWords, annotations⟩ := WrittenAnnotations.exists_words writable.annotations
  exact ⟨_, .intro (isNameText_of_isDeclaredName writable.name) parent functions annotations⟩

/-- A declaration that can be written has words, by the words of its kind.

Proof: by the form of the definition, each of whose parts has words of its own; the name is written
as it is. -/
theorem Definition.Writable.exists_words {definition : Definition}
    (writable : definition.Writable) : ∃ words, definition.Written words := by
  cases definition with
  | constant definition =>
    obtain ⟨typeWords, type⟩ := TypeReference.Writable.exists_words writable.type
    obtain ⟨valueWords, value⟩ := Literal.Writable.exists_words writable.value
    exact ⟨_, .constant (.intro type (isNameText_of_isDeclaredName writable.name) value)⟩
  | typedef definition =>
    obtain ⟨typeWords, target⟩ := TypeReference.Writable.exists_words writable.target
    obtain ⟨noteWords, annotations⟩ := WrittenAnnotations.exists_words writable.annotations
    exact ⟨_, .typedef (.intro target (isNameText_of_isDeclaredName writable.name) annotations)⟩
  | enum definition =>
    obtain ⟨words, body⟩ := EnumDefinition.Writable.exists_words writable
    exact ⟨_, .enum body⟩
  | struct definition =>
    obtain ⟨words, body⟩ := StructDefinition.Writable.exists_words writable
    exact ⟨_, .struct body⟩
  | union definition =>
    obtain ⟨words, body⟩ := StructDefinition.Writable.exists_words writable
    exact ⟨_, .union body⟩
  | exception definition =>
    obtain ⟨words, body⟩ := StructDefinition.Writable.exists_words writable
    exact ⟨_, .exception body⟩
  | service definition =>
    obtain ⟨words, body⟩ := ServiceDefinition.Writable.exists_words writable
    exact ⟨_, .service body⟩

/-! ## Documents -/

/-- Lines and declarations have words, one kind behind the other: includes, namespaces,
declarations.

Proof: induction on the includes, then on the namespaces, then on the declarations. -/
theorem WrittenLines.exists_words (includes : List Include) {namespaces : List Namespace}
    {definitions : List Definition} (isName : ∀ target ∈ namespaces,
      isScopeText target.scope = true ∧ isIdentifier target.name = true)
    (writable : ∀ definition ∈ definitions, definition.Writable) :
    ∃ words, WrittenLines includes namespaces definitions words := by
  induction includes with
  | cons included includes inductionHypothesis =>
    obtain ⟨words, more⟩ := inductionHypothesis
    exact ⟨_, .includeLine (.intro .double _) more⟩
  | nil =>
    induction namespaces with
    | cons target namespaces inductionHypothesis =>
      rw [List.forall_mem_cons] at isName
      obtain ⟨words, more⟩ := inductionHypothesis isName.2
      exact ⟨_, .namespaceLine isName.1.1 (isNameText_of_isIdentifier isName.1.2) more⟩
    | nil =>
      induction definitions with
      | cons definition definitions inductionHypothesis =>
        rw [List.forall_mem_cons] at writable
        obtain ⟨words, body⟩ := writable.1.exists_words
        obtain ⟨rest, more⟩ := inductionHypothesis writable.2
        exact ⟨_, .definition body .absent more⟩
      | nil => exact ⟨[], .nil⟩

/-- Words have a text with a space in front of each of them. -/
theorem exists_laidOut (words : List Word) : ∃ text : String, LaidOut words text.toList := by
  have isSpace : Gap [' '] := .space (by decide) .nil
  have pieces : words = (words.map fun word => ([' '], word)).map (·.2) := by
    simp [Function.comp_def]
  refine ⟨String.ofList (layOut (words.map fun word => ([' '], word)) []), ?_⟩
  rw [String.toList_ofList]
  nth_rewrite 1 [pieces]
  apply laidOut_layOut .nil
  · intro piece isPiece
    obtain ⟨word, -, rfl⟩ := List.mem_map.mp isPiece
    exact isSpace
  · intro piece isPiece
    obtain ⟨word, -, rfl⟩ := List.mem_map.mp (List.mem_of_mem_tail isPiece)
    exact List.cons_ne_nil _ _

/-- Every document that can be written has words, and these have a text. -/
theorem Document.Writable.exists_text {document : Document} (writable : document.Writable) :
    ∃ words, document.Written words ∧ ∃ text : String, LaidOut words text.toList := by
  obtain ⟨words, written⟩ :=
    WrittenLines.exists_words document.includes writable.namespaces writable.definitions
  exact ⟨words, written, exists_laidOut words⟩

end SchemaCodec
