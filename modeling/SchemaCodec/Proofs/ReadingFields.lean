import SchemaCodec.Proofs.ReadingLiterals
import SchemaCodec.Proofs.ReadingTypes

/-!
# Reading fields

A field is read with the id that is written in front of it, and the fields of a list are numbered
afterwards. Those that have left out their ids get them back, since the numbering counts down as the
form does; at the least id it stays, but nothing below it is left to leave out.
-/

namespace SchemaCodec

open SchemaCodec.Parser SchemaCodec.Grammar

variable {fault : Option ParseFault}

/-! ## Parts of a field -/

/-- The words of an id in front of a field. -/
def idWords : Option Int16 → List Word
  | none => []
  | some id => [.number id.toInt, .mark .colon]

/-- The word for the requiredness of a field is read if there is one, and nothing is read otherwise.

Where there is none, the type comes next, which is not named like such a word.

Proof: by which word is written. A word that is there is read, since neither of the two is the start
of the other; without one, the name of the type comes next, which is a whole name other than these
two, so no word is found. -/
theorem reads_requiredness {requiredness : Requiredness} {words : List Word} (rest : List Word)
    (written : requiredness.Written words)
    (unreserved : requiredness = .unspecified → ∃ text proper more,
      rest = .name text proper :: more ∧ text ∉ ["required", "optional"]) :
    (nextOptional Grammar.requiredness).Reads (Nearing fault (words ++ rest))
      (fun found => found.getD .unspecified = requiredness) (Nearing fault rest) := by
  have isText : ∀ text ∈ ["required", "optional"], isNameText text = true := by decide
  have reads : ∀ (text : String) (proper : isNameText text = true),
      text ∈ ["required", "optional"] → Grammar.requiredness.Reads
        (Facing fault (.name text proper :: rest))
        (· = if text = "required" then .required else .optional) (Nearing fault rest) := by
    intro text proper listed
    have apart : ∀ text ∈ ["required", "optional"], ∀ other ∈ ["required", "optional"],
        other.toList <+: text.toList → other = text := by
      decide
    have lexes : ∀ behind, (Word.name text proper).Ends behind →
        Lexer.keywordOf ["required", "optional"]
        ((Word.name text proper).chars ++ behind) = some ((Word.name text proper).chars, behind) :=
      fun _ => Lexer.keywordOf_append isText listed (apart text listed)
    apply (reads_token lexes).bind_eq
    rw [Word.chars, String.ofList_toList]
    exact reads_pure rfl
  cases written with
  | required =>
    apply (reads "required" _ (by decide)).nextOptional.weaken
    rintro _ ⟨found, rfl, rfl⟩
    rfl
  | optional =>
    apply (reads "optional" _ (by decide)).nextOptional.weaken
    rintro _ ⟨found, rfl, rfl⟩
    rfl
  | unspecified =>
    obtain ⟨text, proper, more, rfl, other⟩ := unreserved rfl
    have refuses : Grammar.requiredness.Refuses (Facing fault (.name text proper :: more)) := by
      apply Refuses.bind
      refine refuses_token fun behind ends => ?_
      apply Lexer.keywordOf_eq_none isText (isNameChar_of_isNameText proper) ends
      rintro word listed same
      exact other (String.toList_injective same ▸ listed)
    exact refuses.nextOptional.weaken fun found same => same ▸ rfl

/-- The words of requiredness are none or one name. -/
theorem Requiredness.Written.head_cases {requiredness : Requiredness} {words : List Word}
    (written : requiredness.Written words) : (requiredness = .unspecified ∧ words = []) ∨
      ∃ text proper, words = [.name text proper] ∧ isIdentifier text = true := by
  cases written with
  | unspecified => exact .inl ⟨rfl, rfl⟩
  | required => exact .inr ⟨"required", _, rfl, by decide⟩
  | optional => exact .inr ⟨"optional", _, rfl, by decide⟩

/-- A field without its id starts with a name. -/
theorem FieldDefinition.Written.exists_name {field : FieldDefinition} {words : List Word}
    (written : field.Written words) (writable : field.Writable) :
    ∃ text proper rest, words = .name text proper :: rest ∧ isIdentifier text = true := by
  obtain ⟨requiredness, type, proper, default, annotations⟩ := written
  rcases requiredness.head_cases with ⟨unspecified, rfl⟩ | ⟨text, proper, rfl, isName⟩
  · obtain ⟨text, proper, rest, rfl, isName, -⟩ :=
      type.exists_name writable.type (writable.reserved unspecified) (by decide)
    exact ⟨text, proper, _, rfl, isName⟩
  · exact ⟨text, proper, _, rfl, isName⟩

/-- The id in front of a field is read with its colon. A field without one starts with a name, which
is no number. -/
theorem reads_id {field : FieldDefinition} {words rest : List Word} (id : Option Int16)
    (written : field.Written words) (writable : field.Writable) :
    (optional fieldId).Reads (Facing fault (idWords id ++ (words ++ rest))) (· = id)
      (Nearing fault (words ++ rest)) := by
  cases id with
  | none =>
    obtain ⟨text, proper, more, rfl, isName⟩ := written.exists_name writable
    have refuses : fieldId.Refuses (Facing fault (.name text proper :: (more ++ rest))) :=
      refuses_fieldId.from_narrower fun _ at_name =>
        at_name.stops_name isName fun _ => isNumberStart_of_isNameStart
    exact refuses.optional.mono (fun _ => id) fun _ => Facing.nearing
  | some id =>
    apply (reads_fieldId id).optional.weaken
    rintro _ ⟨found, rfl, rfl⟩
    rfl

/-! ## Fields -/

/-- A field that was read is the one that was written, but for its id and its places. -/
def SameField (written found : Option Int16 × FieldDefinition) : Prop :=
  found.1 = written.1 ∧ ∀ id : Int16, ({ found.2 with id } : FieldDefinition).withoutSpans =
    ({ written.2 with id } : FieldDefinition).withoutSpans

/-- A field is read with its id and its separator, up to its places and up to the number that it
gets later.

Proof: part by part. Behind the type comes the name of the field, which no text in quotes follows,
so no remark is looked for there; behind the default come annotations or the separator, so nothing
else is assigned. -/
theorem reads_field {field : FieldDefinition} {words more : List Word} {separator : Mark}
    (id : Option Int16) (written : field.Written words) (writable : field.Writable)
    (separates : separator.IsSeparator) :
    Grammar.field.Reads (Facing fault (idWords id ++ (words ++ .mark separator :: more)))
      (SameField (id, field)) (Nearing fault more) := by
  have readsId : (optional fieldId).Reads
      (Facing fault (idWords id ++ (words ++ .mark separator :: more))) _ _ :=
    reads_id id written writable
  obtain ⟨requiredness, type, proper, default, annotations⟩ := written
  rename_i requirednessWords typeWords defaultWords noteWords
  simp only [List.append_assoc, List.cons_append] at readsId ⊢
  have noParen : (Word.mark separator :: more).head? ≠ some (.mark .openParen) :=
    separates.ne (by decide) (by decide)
  have noEquals : (noteWords ++ .mark separator :: more).head? ≠ some (.mark .equals) := by
    rcases annotations.head_cases with rfl | ⟨rest, rfl⟩
    · exact separates.ne (by decide) (by decide)
    · simp
  have after : AfterType (.name field.name proper ::
      (defaultWords ++ (noteWords ++ .mark separator :: more))) := by
    rintro ⟨quote, content, first⟩
    rcases default.head_cases with rfl | ⟨rest, rfl⟩
    · rcases annotations.head_cases with rfl | ⟨rest, rfl⟩ <;> cases first
    · cases first
  have unreserved : field.requiredness = .unspecified → ∃ text isText rest,
      typeWords ++ .name field.name proper ::
          (defaultWords ++ (noteWords ++ .mark separator :: more)) = .name text isText :: rest ∧
        text ∉ ["required", "optional"] := by
    intro unspecified
    obtain ⟨text, isText, rest, rfl, -, other⟩ :=
      type.exists_name writable.type (writable.reserved unspecified) (by decide)
    exact ⟨text, isText, _, rfl, other⟩
  have readsDefault : (assigned Grammar.literal).Reads
      (Facing fault (defaultWords ++ (noteWords ++ .mark separator :: more)))
      (Option.Rel (fun held other => other = held) field.default)
      (Nearing fault (noteWords ++ .mark separator :: more)) :=
    reads_assigned default noEquals fun literal isDefault body written =>
      reads_literal written (writable.default literal isDefault)
  apply Reads.part
  apply reads_here.bind
  intro place _
  apply readsId.bind_eq
  apply (reads_requiredness _ requiredness unreserved).bind
  intro foundRequiredness sameRequiredness
  apply (reads_type type writable.type after).next.bind
  intro foundType sameType
  apply (reads_declaredName proper writable.name).next.bind_eq
  apply readsDefault.next.bind
  intro foundDefault sameDefault
  apply (reads_nextAnnotations annotations writable.annotations noParen).bind_eq
  apply (reads_separator separates).next.bind
  intro _ _
  apply reads_pure
  refine ⟨rfl, fun number => ?_⟩
  simp [FieldDefinition.withoutSpans, sameType, sameRequiredness, eq_of_rel sameDefault]

/-- No field starts with a mark.

Proof: an id, a requiredness and a type all start with letters or digits, so in front of a mark the
first two are passed over and the third one is refused. -/
theorem refuses_field_mark {punctuation : Mark} {words : List Word} :
    Grammar.field.Refuses (Facing fault (.mark punctuation :: words)) := by
  have noId : fieldId.Refuses (Facing fault (.mark punctuation :: words)) :=
    refuses_fieldId.from_narrower fun _ at_mark =>
      at_mark.stops_mark (by cases punctuation <;> decide)
  have noRequiredness :
      Grammar.requiredness.Refuses (Facing fault (.mark punctuation :: words)) := by
    apply Refuses.bind
    apply Refuses.from_narrower (refuses_token_stops (Lexer.keywordOf_stops (by decide)))
    exact fun _ at_mark => at_mark.stops_mark (by cases punctuation <;> decide)
  apply Refuses.part
  apply reads_here.refuses_bind
  intro _ _
  apply (noId.optional.mono (fun _ => id) fun _ => Facing.nearing).refuses_bind
  intro _ _
  apply noRequiredness.nextOptional.refuses_bind
  intro _ _
  exact refuses_type_mark.next.bind

/-! ## Lists of fields -/

/-- A field behind its id, a separator behind it. -/
def WrittenBehindId (field : Option Int16 × FieldDefinition) (words : List Word) : Prop :=
  ∃ body separator, words = idWords field.1 ++ (body ++ [.mark separator]) ∧
    separator.IsSeparator ∧ field.2.Written body

/-- The number that the next field without an id gets, behind so many others. -/
def IsNextFree (count : Nat) (free : Int16) : Prop :=
  free.toInt = max (-((count : Int) + 1)) (-0x8000)

/-- The next free number is one less, and stays where it is at the least id. -/
theorem IsNextFree.succ {count : Nat} {free : Int16} (isNext : IsNextFree count free) :
    IsNextFree (count + 1) (if free = Int16.minValue then free else free - 1) := by
  have least : Int16.minValue.toInt = -0x8000 := by decide
  have above := free.le_toInt
  unfold IsNextFree at isNext ⊢
  split
  case isTrue isLeast =>
    rw [isLeast, least] at isNext ⊢
    omega
  case isFalse other =>
    have notLeast : free.toInt ≠ -0x8000 := fun same =>
      other (Int16.toInt_inj.mp (same.trans least.symm))
    have one : (1 : Int16).toInt = 1 := by decide
    rw [Int16.toInt_sub, one, Int.bmod_eq_of_le (by omega) (by omega)]
    omega

/-- The fields of a list with the ids in front of them. Numbered, they are the fields.

Proof: by induction on the fields. A given id is kept as it is. One that was left out is the next
that is free, which is in range since it was written, so counting from the number of fields in front
gives it. -/
theorem WrittenFields.exists_pairs {count : Nat} {fields : List FieldDefinition} {words : List Word}
    (written : WrittenFields count fields words) :
    ∃ pairs : List (Option Int16 × FieldDefinition), pairs.map (·.2) = fields ∧
      Sequence WrittenBehindId pairs words ∧
        ∀ found free, List.Forall₂ SameField pairs found → IsNextFree count free →
          (numbered free found).map (·.withoutSpans) = fields.map (·.withoutSpans) := by
  induction written with
  | nil =>
    refine ⟨[], rfl, .nil, ?_⟩
    intro found free same _
    cases same
    rfl
  | @given count field fields words rest separator body separates more inductionHypothesis =>
    obtain ⟨pairs, same, sequence, numbering⟩ := inductionHypothesis
    refine ⟨(some field.id, field) :: pairs, by simp [same], ?_, ?_⟩
    · have split : .number field.id.toInt :: .mark .colon :: (words ++ .mark separator :: rest) =
          (idWords (some field.id) ++ (words ++ [.mark separator])) ++ rest := by
        simp [idWords]
      rw [split]
      exact .cons ⟨words, separator, rfl, separates, body⟩ sequence
    · rintro _ free (_ | ⟨⟨sameId, sameField⟩, sameRest⟩) isNext
      rename_i head found
      obtain ⟨id, head⟩ := head
      subst sameId
      simp only [numbered, List.map_cons]
      rw [sameField field.id, numbering found free sameRest isNext]
  | @implied count field fields words rest separator isImplied body separates more
      inductionHypothesis =>
    obtain ⟨pairs, same, sequence, numbering⟩ := inductionHypothesis
    refine ⟨(none, field) :: pairs, by simp [same], ?_, ?_⟩
    · have split : words ++ .mark separator :: rest =
          (idWords none ++ (words ++ [.mark separator])) ++ rest := by
        simp [idWords]
      rw [split]
      exact .cons ⟨words, separator, rfl, separates, body⟩ sequence
    · rintro _ free (_ | ⟨⟨sameId, sameField⟩, sameRest⟩) isNext
      rename_i head found
      obtain ⟨id, head⟩ := head
      subst sameId
      -- The id that was left out is in range, so the numbering has not come to a halt.
      have isFree : free = field.id := by
        have above := field.id.le_toInt
        apply Int16.toInt_inj.mp
        rw [isNext]
        omega
      simp only [numbered, List.map_cons]
      rw [sameField free, numbering found _ sameRest isNext.succ, isFree]

/-- Fields between two marks are read and numbered.

Proof: the fields are read with their ids one behind the other, up to the closing mark, at which no
field starts. Then they are numbered, which gives the ids back that were left out. -/
theorem reads_fields (opening closing : Mark) {declared : List FieldDefinition}
    {words more : List Word} (written : WrittenFields 0 declared words)
    (writable : ∀ field ∈ declared, field.Writable) :
    (fields opening.text closing.text).Reads
      (Facing fault (.mark opening :: (words ++ .mark closing :: more)))
      (fun found => found.map (·.withoutSpans) = declared.map (·.withoutSpans))
      (Nearing fault more) := by
  obtain ⟨pairs, rfl, sequence, numbering⟩ := written.exists_pairs
  have readsItems :
      ReadsItems fault Grammar.field WrittenBehindId SameField (fun _ => True) pairs := by
    rintro ⟨id, field⟩ isPair _ behind ⟨body, separator, rfl, separates, isWritten⟩ -
    simp only [List.append_assoc, List.cons_append, List.nil_append]
    exact reads_field id isWritten (writable field (List.mem_map_of_mem isPair)) separates
  have nonempty : ∀ pair front, WrittenBehindId pair front → front ≠ [] := by
    rintro pair _ ⟨body, separator, rfl, -⟩
    simp
  have ends : Grammar.field.Refuses (Facing fault (.mark closing :: more)) := refuses_field_mark
  have isFirst : IsNextFree 0 (-1) := by
    unfold IsNextFree
    decide
  have readsAll := reads_repeated sequence readsItems nonempty (fun _ _ _ _ => trivial) trivial ends
  apply (reads_enclosed opening closing readsAll).bind
  intro found same
  exact reads_pure (numbering found (-1) same isFirst)

end SchemaCodec
