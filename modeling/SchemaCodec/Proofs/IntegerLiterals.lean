import SchemaCodec.Proofs.ReadingDocuments

/-!
# Integer literals

A document may hold its integers in any spelling and be laid out in any way. It is read back as long
as all of them fit into 63 bits and a sign, and it is refused for the first one that does not. The
least number of 64 bits is among those that do not fit.
-/

namespace SchemaCodec

open Grammar

/-! ## A place for an integer -/

/-- An enum with a numbered member between others. -/
def EnumDefinition.withMember (enum : EnumDefinition) (before after : List MemberDefinition)
    (member : MemberDefinition) (number : Int) : EnumDefinition :=
  { enum with members := before ++ { member with number := some number } :: after }

/-- A declaration with a place for an integer, which is the value of a constant or the number of a
member of an enum: the words in front of it and those behind it. -/
inductive IntegerPlace : (Int → Definition) → List Word → List Word → Prop
  | constant {name : String} {type : TypeReference} {typeWords : List Word} (span : Span)
      (written : type.Written typeWords) (writable : type.Writable)
      (proper : isNameText name = true) (isName : isDeclaredName name = true) :
      IntegerPlace (fun number => .constant { name, type, value := .int number, span })
        (.name "const" :: (typeWords ++ [.name name proper, .mark .equals])) []
  | member {enum : EnumDefinition} {member : MemberDefinition}
      {before after : List MemberDefinition}
      {beforeWords endWords afterWords noteWords : List Word}
      (enumProper : isNameText enum.name = true)
      (first : Sequence (WithEnd MemberDefinition.Written) before beforeWords)
      (proper : isNameText member.name = true) (ends : WrittenEnd endWords)
      (last : Sequence (WithEnd MemberDefinition.Written) after afterWords)
      (annotations : WrittenAnnotations enum.annotations noteWords)
      (writable : (enum.withMember before after member 0).Writable) :
      IntegerPlace (fun number => .enum (enum.withMember before after member number))
        (.name "enum" :: .name enum.name enumProper :: .mark .openBrace ::
          (beforeWords ++ [.name member.name proper, .mark .equals]))
        (endWords ++ (afterWords ++ .mark .closeBrace :: noteWords))

namespace IntegerPlace

variable {definition : Int → Definition} {front back : List Word}

/-- The words around an integer are those of a document, however the integer is spelled.

Proof: by the place. The constant is written with the words of its type in front, and the member
with those of the members around it; in both the number takes one word. -/
theorem relaxed (place : IntegerPlace definition front back) (number : Int) :
    (definition number).Relaxed (front ++ .number number :: back) := by
  cases place with
  | @constant name type _ span written writable proper isName =>
    have constant := @ConstantDefinition.Written.intro { name, type, value := .int number, span }
      _ _ written proper (.int (.intro number))
    simpa using Definition.Relaxed.written (.constant constant)
  | @member enum member before after _ endWords _ _ enumProper first proper ends last annotations =>
    have numbered : MemberDefinition.Written { member with number := some number }
        [.name member.name proper, .mark .equals, .number number] :=
      @MemberDefinition.Written.intro { member with number := some number } _ proper
        (.present (.intro number))
    have members := first.append (.cons ⟨_, endWords, rfl, ends, numbered⟩ last)
    have enumerated : (enum.withMember before after member number).Enumerated
        (.name "enum" :: .name enum.name enumProper :: _) :=
      @EnumDefinition.Enumerated.intro (enum.withMember before after member number) _ _ enumProper
        members annotations
    simpa using Definition.Relaxed.enumerated enumerated

/-- The declaration can be written with every integer that fits. -/
theorem writable (place : IntegerPlace definition front back) {number : Int}
    (fits : FitsLiteral number) : (definition number).Writable := by
  cases place with
  | constant span written writable proper isName => exact ⟨isName, writable, .int fits⟩
  | @member enum member before after _ _ _ _ enumProper first proper ends last annotations
      writable =>
    obtain ⟨isName, members, notes⟩ := writable
    refine ⟨isName, ?_, notes⟩
    simp only [EnumDefinition.withMember, List.forall_mem_append, List.forall_mem_cons] at members ⊢
    obtain ⟨inFront, ⟨memberName, -⟩, behind⟩ := members
    refine ⟨inFront, ⟨memberName, ?_⟩, behind⟩
    rintro _ ⟨⟩
    exact fits

/-- The integer is no key of a map. -/
theorem noKey (place : IntegerPlace definition front back) {more : List Word}
    (noColon : more.head? ≠ some (.mark .colon)) :
    (back ++ more).head? ≠ some (.mark .colon) := by
  cases place with
  | constant => exact noColon
  | @member enum member before after beforeWords endWords afterWords noteWords enumProper first
      proper ends last =>
    rw [List.append_assoc]
    apply ends.head_ne (by decide) (by decide)
    cases last with
    | nil => simp
    | cons other _ =>
      obtain ⟨_, endWords, rfl, ends, proper, number⟩ := other
      simp

end IntegerPlace

/-! ## Documents with an integer -/

/-- A declaration with an integer in it stands between other parts of a document. -/
theorem IntegerPlace.sequence {definition : Int → Definition} {front back : List Word}
    {before after : List Item} {beforeWords endWords afterWords : List Word}
    (place : IntegerPlace definition front back) (first : Sequence WrittenItem before beforeWords)
    (ends : WrittenEnd endWords) (last : Sequence WrittenItem after afterWords) {number : Int}
    (fits : FitsLiteral number) :
    Sequence WrittenItem (before ++ .definition (definition number) :: after)
      (beforeWords ++ front ++ .number number :: (back ++ (endWords ++ afterWords))) := by
  have written := WrittenItem.definition (place.relaxed number) ends (place.writable fits)
  simpa using first.append (.cons written last)

/-- A constant or a member of an enum has the integer that its literal spells, in whatever spelling
and whatever document, exactly if the magnitude of that integer is below `2 ^ 63`. Otherwise the
document is refused, since the integer is out of range.

Proof: the text is one of words, and the integer is one of these. If it fits, the words are those of
the items and are read back. Otherwise the same characters are a text with a fault, in which zero
stands for the integer, and this fault is what reading ends in. -/
theorem integers_are_read_exactly_below_their_bound {definition : Int → Definition} {number : Int}
    {front back : List Word} {before after : List Item}
    {beforeWords endWords afterWords : List Word} (path : String) {text : String}
    (place : IntegerPlace definition front back) (first : Sequence WrittenItem before beforeWords)
    (ends : WrittenEnd endWords) (last : Sequence WrittenItem after afterWords)
    (isText : TextOf (beforeWords ++ front ++ .number number ::
      (back ++ (endWords ++ afterWords))) none text.toList) :
    (FitsLiteral number → ∃ found, Document.parse path text = .ok found ∧
      found.withoutSpans = ((before ++ .definition (definition number) :: after).foldl
        Document.add (.ofPath path)).withoutSpans) ∧
      (¬ FitsLiteral number → ∃ span,
        Document.parse path text = .error ⟨path, span, .integerOutOfRange⟩) := by
  constructor
  · intro fits
    exact (parse_of_textOf path (place.sequence first ends last fits) isText).1 rfl
  · intro unfit
    have startsLine : StartsLine (afterWords ++ []) :=
      last.follows (fun _ _ _ written => written.startsLine) (.inl rfl)
    rw [List.append_nil] at startsLine
    have noColon : (endWords ++ afterWords).head? ≠ some (.mark .colon) :=
      ends.head_ne (by decide) (by decide) startsLine.head_ne
    obtain ⟨gap, rest, same, isGap, spread⟩ := isText
    have unfitting : TextOf _ (some .integerOutOfRange) text.toList :=
      ⟨gap, rest, same, isGap, spread.unfit rfl unfit (place.noKey noColon)⟩
    have zeroFits : FitsLiteral 0 := by decide
    exact (parse_of_textOf path (place.sequence first ends last zeroFits) unfitting).2 _ rfl

/-- A text of a constant in hexadecimal digits with a sign and leading zeros, and without a gap
around its equals sign. -/
theorem textOf_hexadecimal : TextOf
    [.name "const", .name "i64", .name "X", .mark .equals, .number (-31)] none
    "const i64 X=-0x001F".toList := by
  have spells : SpellsInt "-0x001F".toList (-31) := .minus (.hexadecimal (by decide) (by decide))
  have atEnd : EndsWord [] := nofun
  have number : Spread [.number (-31)] none _ := .cons (.integer (by simp) spells) .nil atEnd .nil
  have behindType := (number.marked .equals).atMark (.name "X")
  have spread := (behindType.spaced (.name "i64")).spaced (.name "const")
  exact ⟨[], _, by decide +kernel, .nil, spread⟩

/-- A text of an enum without separators behind its members, one of which has the least integer
above those that fit. -/
theorem textOf_unfit : TextOf
    [.name "enum", .name "E", .mark .openBrace, .name "A", .mark .equals,
      .number 9223372036854775808, .name "B", .mark .closeBrace] none
    "enum E\x7bA=9223372036854775808 B\x7d".toList := by
  have last := (Spread.marked .closeBrace .nil).atMark (.name "B")
  have first := ((last.spaced (.number 9223372036854775808)).marked .equals).atMark (.name "A")
  have spread := ((first.marked .openBrace).atMark (.name "E")).spaced (.name "enum")
  exact ⟨[], _, by decide +kernel, .nil, spread⟩

/-- Minus thirty-one is read in a hexadecimal spelling, and no enum has a member whose number is `2
^ 63`.

Proof: the constant and the member of the enum are places of an integer, so the general theorem says
of the first that it is read, since its number fits, and of the second that it is refused, since its
number does not. -/
theorem hexadecimal_is_read_and_unfit_is_refused :
    FitsLiteral (-31) ∧
      (∃ found, Document.parse "m.thrift" "const i64 X=-0x001F" = .ok found ∧
        found.withoutSpans = Document.withoutSpans
          { path := "m.thrift", module := "m"
            definitions :=
              [.constant { name := "X", type := .base .i64, value := .int (-31) }] }) ∧
      ¬ FitsLiteral 9223372036854775808 ∧
      ∃ span, Document.parse "m.thrift" "enum E\x7bA=9223372036854775808 B\x7d" =
        .error ⟨"m.thrift", span, .integerOutOfRange⟩ := by
  have isLong : "i64" ∈ BaseType.i64.words := by decide
  have constant : IntegerPlace
      (fun number => .constant { name := "X", type := .base .i64, value := .int number }) _ _ :=
    .constant {} (.base isLong (by decide)) trivial (by decide) (by decide)
  have second : MemberDefinition.Written { name := "B" } _ := .intro (by decide) .absent
  have last : Sequence (WithEnd MemberDefinition.Written) [{ name := "B" }] ([.name "B"] ++ []) :=
    .cons ⟨[.name "B"], [], rfl, .absent, second⟩ .nil
  have noNotes : WritableAnnotations [] := by simp [WritableAnnotations]
  have writable : (EnumDefinition.withMember { name := "E" } [] [{ name := "B" }]
      { name := "A" } 0).Writable := by
    refine ⟨by decide, ?_, noNotes⟩
    simp only [EnumDefinition.withMember, List.nil_append, List.forall_mem_cons]
    have zeroFits : FitsLiteral 0 := by decide
    exact ⟨⟨by decide, by simp [zeroFits]⟩, ⟨by decide, by simp⟩, by simp⟩
  have member : IntegerPlace (fun number => .enum (EnumDefinition.withMember { name := "E" } []
      [{ name := "B" }] { name := "A" } number)) _ _ :=
    .member (by decide) .nil (by decide) .absent last .absent writable
  have fits : FitsLiteral (-31) := by decide
  have unfit : ¬ FitsLiteral 9223372036854775808 := by decide
  have reads := integers_are_read_exactly_below_their_bound "m.thrift" constant .nil .absent .nil
    textOf_hexadecimal
  have refuses := integers_are_read_exactly_below_their_bound "m.thrift" member .nil .absent .nil
    textOf_unfit
  obtain ⟨found, parsed, same⟩ := reads.1 fits
  refine ⟨fits, ⟨found, parsed, ?_⟩, unfit, refuses.2 unfit⟩
  rw [same]
  rfl

/-- The least integer of 64 bits has a spelling, but a constant of it is refused. -/
theorem least_integer_is_refused :
    SpellsInt "-9223372036854775808".toList (-9223372036854775808) ∧
      Document.parse "m.thrift" "const i64 X = -9223372036854775808" =
        .error ⟨"m.thrift", ⟨1, 15⟩, .integerOutOfRange⟩ := by
  constructor
  · have value : positional 10 "9223372036854775808".toList = 9223372036854775808 := by decide
    have spells : SpellsNat "9223372036854775808".toList _ := .decimal (by decide) (by decide)
    rw [value] at spells
    exact .minus spells
  · have refused : (match Document.parse "m.thrift" "const i64 X = -9223372036854775808" with
        | .ok _ => none
        | .error error => some error) =
          some ⟨"m.thrift", ⟨1, 15⟩, .integerOutOfRange⟩ := by decide +kernel
    split at refused
    case h_1 => cases refused
    case h_2 error isError => rw [isError, Option.some.inj refused]

end SchemaCodec
