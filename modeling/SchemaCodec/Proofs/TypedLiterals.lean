import SchemaCodec.Proofs.Ascending
import SchemaCodec.Proofs.SurvivingTypes

/-!
# Literals become values that fit

A literal that is converted for a type becomes a value that fits the type, and the value says what
the literal means: above all, an integer keeps its number or is refused. The parts of a literal are
converted one after another, while constants that they name are linked on the way; a value that fits
keeps fitting, since the schema is only completed.
-/

namespace SchemaCodec

open Linking

/-- What a value says when a literal means it, told by the literal and the value alone: neither the
conversion nor the documents have a part in it.

An integer means its exact number in every width and as the number of an enum, and only a double
rounds it. An identifier may mean any value: that of the constant that it names. -/
inductive Literal.Means : Literal → Value → Prop where
  | no : Means (.int 0) (.bool false)
  | yes : Means (.int 1) (.bool true)
  | byte {number : Int} {held : Int8} (exact : held.toInt = number) :
    Means (.int number) (.byte held)
  | i16 {number : Int} {held : Int16} (exact : held.toInt = number) :
    Means (.int number) (.i16 held)
  | i32 {number : Int} {held : Int32} (exact : held.toInt = number) :
    Means (.int number) (.i32 held)
  /-- A literal has no more than 64 bits. -/
  | i64 {number : Int} {held : Int64}
    (exact : -2 ^ 63 ≤ number → number < 2 ^ 63 → held.toInt = number) :
    Means (.int number) (.i64 held)
  | enum {number : Int} {held : Int32} {label : Option String} (exact : held.toInt = number) :
    Means (.int number) (.enum held label)
  | rounded {number : Int} : Means (.int number) (.double (Double.ofInt number))
  | double {number : Double} : Means (.double number) (.double number)
  | string {text : String} : Means (.text text) (.string text)
  | binary {text : String} : Means (.text text) (.binary (Utf8.encode text))
  | identifier {name : String} {value : Value} : Means (.identifier name) value
  | list {items : List Literal} {values : List Value} (each : List.Forall₂ Means items values) :
    Means (.list items) (.list values)
  | set {items : List Literal} {values : List Value} (each : List.Forall₂ Means items values) :
    Means (.list items) (.set (Value.elementsOf values))
  | map {entries : List (Literal × Literal)} {values : List (Value × Value)}
    (keys : List.Forall₂ Means (entries.map (·.1)) (values.map (·.1)))
    (held : List.Forall₂ Means (entries.map (·.2)) (values.map (·.2))) :
    Means (.map entries) (.map (Value.entriesOf values))
  | struct {entries : List (Literal × Literal)} {fields : List (Int16 × Value)}
    (held : List.Forall₂ Means (entries.map (·.2)) (fields.map (·.2))) :
    Means (.map entries) (.struct (Value.Fields.ofList fields))
  | union {key literal : Literal} {id : Int16} {value : Value} (held : Means literal value) :
    Means (.map [(key, literal)]) (.union id value)

namespace Scope

variable {scope : Scope}

/-- A step of constants and defaults: a sound state is left sound and only completed. -/
structure Proceeds (scope : Scope) (linking later : Linking) : Prop where
  advance : scope.Advance linking later
  completes : linking.Completes later

/-- Steps of constants and defaults may be taken one behind another. -/
instance : IsPreorder Linking scope.Proceeds where
  refl linking := ⟨.refl, .refl linking⟩
  trans _ _ _ first second :=
    ⟨first.advance.trans second.advance, first.completes.trans second.completes⟩

section Literals

variable {context : LiteralContext} {constant : Document → ConstantDefinition → LinkM Value}
  {linking later : Linking} {declared type : DataType} {value : Value}

/-- A lookup on behalf of a literal leaves the state alone. -/
theorem lookedUp_eq_ok {outcome : Except LookupError α} {result : α} :
    context.lookedUp outcome linking = .ok (result, later) ↔
      outcome = .ok result ∧ linking = later := by
  rw [LiteralContext.lookedUp, given_eq_ok, Outcome.mapError_eq_ok]

/-- A check on behalf of a literal leaves the state alone. -/
theorem checked_eq_ok {outcome : Except ValueError α} {result : α} :
    context.checked outcome linking = .ok (result, later) ↔
      outcome = .ok result ∧ linking = later := by
  rw [LiteralContext.checked, given_eq_ok, Outcome.mapError_eq_ok]

/-- A literal is read in the state in which its type is followed. -/
theorem lookedUp_canonical_eq_ok {next : Schema → DataType → LinkM α} {result : α} :
    (schema? >>= fun schema => context.lookedUp (schema.canonical declared) >>= next schema)
        linking = .ok (result, later) ↔
      ∃ type, linking.schema.canonical declared = .ok type ∧
        next linking.schema type linking = .ok (result, later) := by
  simp only [bind_eq_ok, schema?_eq_ok, lookedUp_eq_ok]
  constructor
  · rintro ⟨_, _, ⟨rfl, rfl⟩, type, _, ⟨followed, rfl⟩, ran⟩
    exact ⟨type, followed, ran⟩
  · rintro ⟨type, followed, ran⟩
    exact ⟨_, _, ⟨rfl, rfl⟩, type, _, ⟨followed, rfl⟩, ran⟩

/-- The members of an enum of a sound state have distinct names. -/
theorem Sound.enum (sound : scope.Sound linking) {name : String} {enum : EnumType}
    (named : linking.schema.enumType name = .ok enum) : (enum.members.map (·.name)).Nodup :=
  sound.schema.types _ (Schema.mem_of_declaration? (Schema.enumType_eq_ok.mp named))

/-- The fields of a union of a sound state have distinct ids. -/
theorem Sound.union (sound : scope.Sound linking) {name : String} {union : UnionType}
    (named : linking.schema.unionType name = .ok union) : (union.fields.map (·.id)).Nodup :=
  (sound.schema.types _ (Schema.mem_of_declaration? (Schema.unionType_eq_ok.mp named))).distinct

/-- A number that is in range keeps the state and is in range. -/
theorem inRange_eq_ok {bound : Nat} {number : Int} {result : Value} :
    context.inRange bound number type value linking = .ok (result, later) ↔
      (-bound ≤ number ∧ number < bound) ∧ value = result ∧ linking = later := by
  unfold LiteralContext.inRange
  by_cases within : -bound ≤ number ∧ number < bound
  · simp [within, pure_eq_ok]
  · rw [if_neg within]
    simp [within, fail_eq_ok]

/-- An enum behind a type is the one that the type names. -/
theorem enumBehind_eq_ok {schema : Schema} {name : String} {enum : EnumType}
    (found : schema.enumBehind (.enum name) = .ok enum) : schema.enumType name = .ok enum := by
  obtain ⟨behind, followed, found⟩ := Outcome.bind_eq_ok.mp found
  obtain rfl := Except.ok.inj (Schema.lookedUp_eq_ok.mp followed)
  exact Schema.lookedUp_eq_ok.mp found

/-- A number that becomes a member of an enum fits, with the label of the first such member. -/
theorem fits_of_enumOfNumber (sound : scope.Sound linking)
    (followed : linking.schema.canonical declared = .ok (.enum name)) {number : Int32}
    (made : linking.schema.enumOfNumber (.enum name) number = .ok value) :
    linking.schema.Fits value declared ∧ ∃ label, value = .enum number label := by
  obtain ⟨enum, behind, same⟩ := Outcome.bind_eq_ok.mp made
  obtain rfl := Except.ok.inj same
  have named := enumBehind_eq_ok behind
  have labelled := Schema.checkLabel_memberByNumber? (sound.enum named) number
  exact ⟨Schema.fits_iff.mpr ⟨_, followed, name, enum, rfl, named, labelled⟩, _, rfl⟩

/-- A name becomes the member of the enum that it names. -/
theorem exists_member_of_enumOfName {schema : Schema} {name member : String}
    (made : schema.enumOfName (.enum name) member = .ok value) :
    ∃ enum found, schema.enumType name = .ok enum ∧ enum.memberByName? member = some found ∧
      found.name = member ∧ .enum found.number (some found.name) = value := by
  obtain ⟨enum, behind, made⟩ := Outcome.bind_eq_ok.mp made
  cases known : enum.memberByName? member with
  | none => simp [known] at made
  | some found =>
    simp only [known, Except.ok.injEq] at made
    have sameName : found.name = member := by simpa using List.find?_some known
    exact ⟨enum, found, enumBehind_eq_ok behind, known, sameName, made⟩

/-- A name that becomes a member of an enum fits. -/
theorem fits_of_enumOfName
    (followed : linking.schema.canonical declared = .ok (.enum name)) {member : String}
    (made : linking.schema.enumOfName (.enum name) member = .ok value) :
    linking.schema.Fits value declared := by
  obtain ⟨enum, found, named, known, sameName, rfl⟩ := exists_member_of_enumOfName made
  refine Schema.fits_iff.mpr ⟨_, followed, name, enum, rfl, named, ?_⟩
  simp [Schema.checkLabel, sameName, known]

/-- An integer literal becomes a value that fits and keeps its number.

Proof: by the type. Numbers of a given width have been checked to be in range, so they keep their
value; a truth value is zero or one; an enum takes the number with the label of its member. Other
types are refused. -/
theorem typed_convertInt (sound : scope.Sound linking)
    (followed : linking.schema.canonical declared = .ok type) {number : Int}
    (ran : convertInt context number type linking = .ok (value, later)) :
    later.schema.Fits value declared ∧ (Literal.int number).Means value := by
  have fits {value : Value}
      (layer : Schema.FitsLayer linking.schema linking.schema.Fits value type) :
      linking.schema.Fits value declared := Schema.fits_iff.mpr ⟨type, followed, layer⟩
  cases type with
  | bool =>
    simp only [convertInt] at ran
    split at ran
    · next isZero =>
      obtain ⟨rfl, rfl⟩ := pure_eq_ok.mp ran
      exact ⟨fits rfl, isZero ▸ .no⟩
    · split at ran
      · next isOne =>
        obtain ⟨rfl, rfl⟩ := pure_eq_ok.mp ran
        exact ⟨fits rfl, isOne ▸ .yes⟩
      · exact (fail_eq_ok.mp ran).elim
  | byte =>
    obtain ⟨⟨above, below⟩, rfl, rfl⟩ := inRange_eq_ok.mp ran
    exact ⟨fits rfl, .byte (Int8.toInt_ofInt_of_le (by omega) (by omega))⟩
  | i16 =>
    obtain ⟨⟨above, below⟩, rfl, rfl⟩ := inRange_eq_ok.mp ran
    exact ⟨fits rfl, .i16 (Int16.toInt_ofInt_of_le (by omega) (by omega))⟩
  | i32 =>
    obtain ⟨⟨above, below⟩, rfl, rfl⟩ := inRange_eq_ok.mp ran
    exact ⟨fits rfl, .i32 (Int32.toInt_ofInt_of_le (by omega) (by omega))⟩
  | i64 =>
    obtain ⟨rfl, rfl⟩ := pure_eq_ok.mp ran
    exact ⟨fits rfl, .i64 Int64.toInt_ofInt_of_le⟩
  | double =>
    obtain ⟨rfl, rfl⟩ := pure_eq_ok.mp ran
    exact ⟨fits rfl, .rounded⟩
  | enum name =>
    simp only [convertInt, bind_eq_ok, inRange_eq_ok, schema?_eq_ok] at ran
    obtain ⟨_, _, ⟨⟨above, below⟩, rfl, rfl⟩, _, _, ⟨rfl, rfl⟩, ran⟩ := ran
    obtain ⟨made, rfl⟩ := checked_eq_ok.mp ran
    obtain ⟨isFit, label, rfl⟩ := fits_of_enumOfNumber sound followed made
    exact ⟨isFit, .enum (Int32.toInt_ofInt_of_le (by omega) (by omega))⟩
  | _ => simp [convertInt, LiteralContext.wrongForm, fail_eq_ok] at ran

/-- Only an enum has members that an identifier may name. -/
theorem enum_of_memberOfIdentifier {name member : String}
    (isMember : scope.memberOfIdentifier context name type = some member) :
    ∃ enum, type = .enum enum := by
  unfold memberOfIdentifier at isMember
  split at isMember
  · exact ⟨_, rfl⟩
  · simp at isMember

/-- An identifier that becomes a value is a truth value, a member of the enum that is asked for, or
a constant whose value fits the type.

Proof: in the order in which the name is tried: as one of the two truth values, as a member of the
enum, and then as a constant, whose value is checked against the type before it is taken. -/
theorem cases_of_convertIdentifier {name : String}
    (ran : scope.convertIdentifier constant context name declared type linking =
      .ok (value, later)) :
    (∃ truth, type = .bool ∧ name = (if truth then "true" else "false") ∧ value = .bool truth ∧
      linking = later) ∨
    (∃ member, scope.memberOfIdentifier context name type = some member ∧
      linking.schema.enumOfName type member = .ok value ∧ linking = later) ∨
    ∃ home definition,
      scope.lookupAt context.document name context.span = .ok (home, .constant definition) ∧
        constant home definition linking = .ok (value, later) ∧
          later.schema.validate declared value = .ok () := by
  unfold convertIdentifier at ran
  split at ran
  · next truth =>
    obtain ⟨rfl, rfl⟩ := pure_eq_ok.mp ran
    exact .inl ⟨true, truth.1, truth.2, rfl, rfl⟩
  · split at ran
    · next falsehood =>
      obtain ⟨rfl, rfl⟩ := pure_eq_ok.mp ran
      exact .inl ⟨false, falsehood.1, falsehood.2, rfl, rfl⟩
    · cases isMember : scope.memberOfIdentifier context name type with
      | some member =>
        simp only [isMember, bind_eq_ok, schema?_eq_ok, checked_eq_ok] at ran
        obtain ⟨_, _, ⟨rfl, rfl⟩, made, rfl⟩ := ran
        exact .inr (.inl ⟨member, rfl, made, rfl⟩)
      | none =>
        simp only [isMember, bind_eq_ok, given_eq_ok] at ran
        obtain ⟨⟨home, found⟩, _, ⟨isFound, rfl⟩, ran⟩ := ran
        cases found with
        | constant definition =>
          simp only [bind_eq_ok, schema?_eq_ok, checked_eq_ok, pure_eq_ok] at ran
          obtain ⟨_, _, made, _, _, ⟨rfl, rfl⟩, _, _, ⟨checked, rfl⟩, rfl, rfl⟩ := ran
          exact .inr (.inr ⟨home, definition, isFound, made, checked⟩)
        | _ => exact (fail_eq_ok.mp ran).elim

/-- An identifier becomes a value that fits. -/
theorem typed_convertIdentifier (followed : linking.schema.canonical declared = .ok type)
    {name : String}
    (ran : scope.convertIdentifier constant context name declared type linking =
      .ok (value, later)) : later.schema.Fits value declared := by
  obtain ⟨truth, rfl, -, rfl, rfl⟩ | ⟨member, isMember, made, rfl⟩ | ⟨_, _, -, -, checked⟩ :=
    cases_of_convertIdentifier ran
  · exact Schema.fits_iff.mpr ⟨.bool, followed, rfl⟩
  · obtain ⟨enum, rfl⟩ := enum_of_memberOfIdentifier isMember
    exact fits_of_enumOfName followed made
  · exact Schema.fits_of_validate checked

/-- A key names one of the declared fields. -/
theorem mem_of_fieldOfKey {fields : List Field} {key : Literal} {field : Field}
    (ran : context.fieldOfKey fields key linking = .ok (field, later)) :
    field ∈ fields ∧ linking = later := by
  cases key with
  | text name | identifier name =>
    unfold LiteralContext.fieldOfKey at ran
    cases found : fieldByName? fields name with
    | some other =>
      simp only [found] at ran
      obtain ⟨rfl, rfl⟩ := pure_eq_ok.mp ran
      exact ⟨List.mem_of_find?_eq_some found, rfl⟩
    | none => simp [found, fail_eq_ok] at ran
  | _ => simp [LiteralContext.fieldOfKey, fail_eq_ok] at ran

/-- A struct is checked as a whole, so it fits. -/
theorem fits_of_checked_struct {name : String}
    (followed : linking.schema.canonical declared = .ok (.struct name))
    (completes : linking.Completes later)
    (checked : later.schema.validate (.struct name) value = .ok ()) :
    later.schema.Fits value declared := by
  obtain ⟨behind, same, layer⟩ := Schema.fits_iff.mp (Schema.fits_of_validate checked)
  obtain rfl := Except.ok.inj same
  exact Schema.fits_iff.mpr ⟨_, completes.survives.canonical followed, layer⟩

/-- A union is not checked as a whole, but its one field is declared and fits. -/
theorem fits_of_union {name : String} {union : UnionType} (sound : scope.Sound linking)
    (followed : linking.schema.canonical declared = .ok (.union name))
    (named : linking.schema.unionType name = .ok union) (completes : linking.Completes later)
    {id : Int16} {held : Value} {field : Field} (isField : field ∈ union.fields)
    (sameId : field.id = id) (fits : later.schema.Fits held field.type) :
    later.schema.Fits (.union id held) declared := by
  have known : fieldById? union.fields id = some field :=
    (find?_key_eq_some (sound.union named)).mpr ⟨isField, sameId⟩
  have layer : Schema.FitsLayer linking.schema later.schema.Fits (.union id held) (.union name) :=
    ⟨name, union, field, rfl, named, known, fits⟩
  exact Schema.fits_iff.mpr
    ⟨_, completes.survives.canonical followed, completes.survives.fitsLayer layer⟩

/-- A union is made of one field. -/
theorem unionOf_eq_ok {name : String} {fields : List (Int16 × Value)}
    (made : Value.unionOf name fields = .ok value) :
    ∃ id held, fields = [(id, held)] ∧ .union id held = value := by
  match fields, made with
  | [(id, held)], made => exact ⟨id, held, rfl, Except.ok.inj made⟩
  | [], made => simp [Value.unionOf] at made
  | _ :: _ :: _, made => simp [Value.unionOf] at made

/-- A literal of a double becomes one, which fits. -/
theorem typed_convertDouble {number : Double}
    (ran : scope.convert constant context (.double number) declared linking = .ok (value, later)) :
    later.schema.Fits value declared ∧ (Literal.double number).Means value := by
  unfold Scope.convert at ran
  obtain ⟨type, followed, ran⟩ := lookedUp_canonical_eq_ok.mp ran
  cases type with
  | double =>
    obtain ⟨rfl, rfl⟩ := pure_eq_ok.mp ran
    exact ⟨Schema.fits_iff.mpr ⟨_, followed, rfl⟩, .double⟩
  | _ => exact (fail_eq_ok.mp ran).elim

/-- A text becomes a string or its bytes, which fit. -/
theorem typed_convertText {text : String}
    (ran : scope.convert constant context (.text text) declared linking = .ok (value, later)) :
    later.schema.Fits value declared ∧ (Literal.text text).Means value := by
  unfold Scope.convert at ran
  obtain ⟨type, followed, ran⟩ := lookedUp_canonical_eq_ok.mp ran
  cases type with
  | string =>
    obtain ⟨rfl, rfl⟩ := pure_eq_ok.mp ran
    exact ⟨Schema.fits_iff.mpr ⟨_, followed, rfl⟩, .string⟩
  | binary =>
    obtain ⟨rfl, rfl⟩ := pure_eq_ok.mp ran
    exact ⟨Schema.fits_iff.mpr ⟨_, followed, rfl⟩, .binary⟩
  | _ => exact (fail_eq_ok.mp ran).elim

section Walk

variable (member : context.document ∈ scope.documents)
  (linked : ∀ home ∈ scope.documents, ∀ definition, .constant definition ∈ home.definitions →
    Stepwise scope.Proceeds (constant home definition))

include member linked

/-- A literal in brackets becomes a list or a set that fits when its items do.

The type was followed in front of the items. Their constants are linked on the way, but what was
declared in front of them survives, so the same type is found behind them. -/
theorem typed_convertList {items : List Literal}
    (typedItems : ∀ {element : DataType} {values : List Value} {later : Linking},
      scope.convertItems constant context items element linking = .ok (values, later) →
        (∀ value ∈ values, later.schema.Fits value element) ∧
          List.Forall₂ Literal.Means items values)
    (ran : scope.convert constant context (.list items) declared linking = .ok (value, later)) :
    later.schema.Fits value declared ∧ (Literal.list items).Means value := by
  unfold Scope.convert at ran
  obtain ⟨type, followed, ran⟩ := lookedUp_canonical_eq_ok.mp ran
  cases type with
  | list element =>
    simp only [bind_eq_ok, pure_eq_ok] at ran
    obtain ⟨values, _, isValues, rfl, rfl⟩ := ran
    have completes := (stepwise_convertItems member linked _ _ _ _ _ isValues).completes
    obtain ⟨fit, meant⟩ := typedItems isValues
    exact ⟨Schema.fits_iff.mpr ⟨_, completes.survives.canonical followed, element, rfl, fit⟩,
      .list meant⟩
  | set element =>
    simp only [bind_eq_ok, pure_eq_ok] at ran
    obtain ⟨values, _, isValues, rfl, rfl⟩ := ran
    have completes := (stepwise_convertItems member linked _ _ _ _ _ isValues).completes
    obtain ⟨fit, meant⟩ := typedItems isValues
    exact ⟨Schema.fits_iff.mpr ⟨_, completes.survives.canonical followed, element, rfl,
      fun item isItem => fit item (Value.mem_of_mem_elementsOf isItem)⟩, .set meant⟩
  | _ => exact (fail_eq_ok.mp ran).elim

/-- A literal in braces becomes a map, a struct or a union that fits when its entries do.

What the braces hold is told by the type alone: entries of a map, or fields of a struct or a union
under their names. A struct is checked as a whole afterwards and a union is not. -/
theorem typed_convertMap {entries : List (Literal × Literal)} (sound : scope.Sound linking)
    (typedEntries : ∀ {keyType valueType : DataType} {values : List (Value × Value)}
      {later : Linking}, scope.convertEntries constant context entries keyType valueType linking =
        .ok (values, later) →
        (∀ entry ∈ values,
          later.schema.Fits entry.1 keyType ∧ later.schema.Fits entry.2 valueType) ∧
        List.Forall₂ Literal.Means (entries.map (·.1)) (values.map (·.1)) ∧
          List.Forall₂ Literal.Means (entries.map (·.2)) (values.map (·.2)))
    (typedFields : ∀ {fields : List Field} {values : List (Int16 × Value)} {later : Linking},
      scope.convertFields constant context entries fields linking = .ok (values, later) →
        (∀ field ∈ values, ∃ found ∈ fields, found.id = field.1 ∧
          later.schema.Fits field.2 found.type) ∧
        List.Forall₂ Literal.Means (entries.map (·.2)) (values.map (·.2)))
    (ran : scope.convert constant context (.map entries) declared linking = .ok (value, later)) :
    later.schema.Fits value declared ∧ (Literal.map entries).Means value := by
  unfold Scope.convert at ran
  obtain ⟨type, followed, ran⟩ := lookedUp_canonical_eq_ok.mp ran
  cases type with
  | map keyType valueType =>
    simp only [bind_eq_ok, pure_eq_ok] at ran
    obtain ⟨values, _, isValues, rfl, rfl⟩ := ran
    have completes := (stepwise_convertEntries member linked _ _ _ _ _ _ isValues).completes
    obtain ⟨fit, keysMeant, valuesMeant⟩ := typedEntries isValues
    refine ⟨Schema.fits_iff.mpr ⟨_, completes.survives.canonical followed, keyType, valueType, rfl,
      fun entry isEntry => ?_⟩, .map keysMeant valuesMeant⟩
    obtain ⟨⟨_, isKey⟩, _, isValue⟩ := Value.mem_of_mem_entriesOf isEntry
    exact ⟨(fit _ isKey).1, (fit _ isValue).2⟩
  | struct name =>
    simp only [bind_eq_ok, lookedUp_eq_ok, schema?_eq_ok, checked_eq_ok, pure_eq_ok] at ran
    obtain ⟨_, _, ⟨-, rfl⟩, fields, _, isFields, _, _, ⟨rfl, rfl⟩, _, _, ⟨checked, rfl⟩, rfl,
      rfl⟩ := ran
    have completes := (stepwise_convertFields member linked _ _ _ _ _ isFields).completes
    obtain ⟨-, meant⟩ := typedFields isFields
    exact ⟨fits_of_checked_struct followed completes checked, .struct meant⟩
  | union name =>
    simp only [bind_eq_ok, lookedUp_eq_ok, checked_eq_ok] at ran
    obtain ⟨union, _, ⟨named, rfl⟩, fields, _, isFields, made, rfl⟩ := ran
    have completes := (stepwise_convertFields member linked _ _ _ _ _ isFields).completes
    obtain ⟨fit, meant⟩ := typedFields isFields
    obtain ⟨id, held, rfl, rfl⟩ := unionOf_eq_ok made
    obtain ⟨field, isField, sameId, fits⟩ := fit _ (List.mem_singleton_self _)
    refine ⟨fits_of_union sound followed named completes isField sameId fits, ?_⟩
    match entries, meant with
    | [(key, literal)], .cons means .nil => exact .union means
  | _ => exact (fail_eq_ok.mp ran).elim

mutual

/-- A literal becomes a value that fits and says what the literal means.

Proof: mutual structural induction on the literal and on its items, entries and fields. A sound
state is carried along: each part is converted in the state that those in front of it have left,
which is sound again, and values that fit there keep fitting behind the others. -/
theorem typed_convert : ∀ (literal : Literal) (declared : DataType) {linking later : Linking}
    {value : Value}, scope.Sound linking →
    scope.convert constant context literal declared linking = .ok (value, later) →
      later.schema.Fits value declared ∧ literal.Means value
  | .identifier name, declared, linking, later, value, sound, ran => by
    unfold Scope.convert at ran
    obtain ⟨type, followed, ran⟩ := lookedUp_canonical_eq_ok.mp ran
    exact ⟨typed_convertIdentifier followed ran, .identifier⟩
  | .int number, declared, linking, later, value, sound, ran => by
    unfold Scope.convert at ran
    obtain ⟨type, followed, ran⟩ := lookedUp_canonical_eq_ok.mp ran
    exact typed_convertInt sound followed ran
  | .double number, declared, linking, later, value, sound, ran => typed_convertDouble ran
  | .text text, declared, linking, later, value, sound, ran => typed_convertText ran
  | .list items, declared, linking, later, value, sound, ran =>
    typed_convertList member linked (typed_convertItems items _ sound) ran
  | .map entries, declared, linking, later, value, sound, ran =>
    typed_convertMap member linked sound (typed_convertEntries entries _ _ sound)
      (typed_convertFields entries _ sound) ran

/-- Literals become items that fit and say what the literals mean. -/
theorem typed_convertItems : ∀ (items : List Literal) (type : DataType) {linking later : Linking}
    {values : List Value}, scope.Sound linking →
    scope.convertItems constant context items type linking = .ok (values, later) →
      (∀ value ∈ values, later.schema.Fits value type) ∧
        List.Forall₂ Literal.Means items values
  | [], _, _, _, _, _, ran => by
    obtain ⟨rfl, rfl⟩ := pure_eq_ok.mp ran
    exact ⟨by simp, .nil⟩
  | item :: rest, type, linking, later, values, sound, ran => by
    simp only [Scope.convertItems, bind_eq_ok, pure_eq_ok] at ran
    obtain ⟨value, between, isValue, others, _, areOthers, rfl, rfl⟩ := ran
    have first := stepwise_convert member linked _ _ _ _ _ isValue
    have second := stepwise_convertItems member linked _ _ _ _ _ areOthers
    obtain ⟨fits, means⟩ := typed_convert item type sound isValue
    obtain ⟨fit, meant⟩ := typed_convertItems rest type (first.advance.sound sound) areOthers
    exact ⟨List.forall_mem_cons.mpr ⟨second.completes.survives.fits fits, fit⟩, .cons means meant⟩

/-- Literals become entries that fit and say what the literals mean. -/
theorem typed_convertEntries : ∀ (entries : List (Literal × Literal)) (keyType valueType : DataType)
    {linking later : Linking} {values : List (Value × Value)}, scope.Sound linking →
    scope.convertEntries constant context entries keyType valueType linking = .ok (values, later) →
      (∀ entry ∈ values,
        later.schema.Fits entry.1 keyType ∧ later.schema.Fits entry.2 valueType) ∧
      List.Forall₂ Literal.Means (entries.map (·.1)) (values.map (·.1)) ∧
        List.Forall₂ Literal.Means (entries.map (·.2)) (values.map (·.2))
  | [], _, _, _, _, _, _, ran => by
    obtain ⟨rfl, rfl⟩ := pure_eq_ok.mp ran
    exact ⟨by simp, .nil, .nil⟩
  | (key, held) :: rest, keyType, valueType, linking, later, values, sound, ran => by
    simp only [Scope.convertEntries, bind_eq_ok, pure_eq_ok] at ran
    obtain ⟨newKey, _, isKey, newValue, _, isValue, others, _, areOthers, rfl, rfl⟩ := ran
    have first := stepwise_convert member linked _ _ _ _ _ isKey
    have second := stepwise_convert member linked _ _ _ _ _ isValue
    have third := stepwise_convertEntries member linked _ _ _ _ _ _ areOthers
    have soundBehindKey := first.advance.sound sound
    obtain ⟨keyFits, keyMeans⟩ := typed_convert key keyType sound isKey
    obtain ⟨valueFits, valueMeans⟩ := typed_convert held valueType soundBehindKey isValue
    obtain ⟨fit, keysMeant, valuesMeant⟩ :=
      typed_convertEntries rest keyType valueType (second.advance.sound soundBehindKey) areOthers
    have behind := second.completes.trans third.completes
    exact ⟨List.forall_mem_cons.mpr
      ⟨⟨behind.survives.fits keyFits, third.completes.survives.fits valueFits⟩, fit⟩,
      .cons keyMeans keysMeant, .cons valueMeans valuesMeant⟩

/-- Literals become fields that are declared and fit, and say what the literals mean. -/
theorem typed_convertFields : ∀ (entries : List (Literal × Literal)) (declared : List Field)
    {linking later : Linking} {fields : List (Int16 × Value)}, scope.Sound linking →
    scope.convertFields constant context entries declared linking = .ok (fields, later) →
      (∀ field ∈ fields, ∃ found ∈ declared, found.id = field.1 ∧
        later.schema.Fits field.2 found.type) ∧
      List.Forall₂ Literal.Means (entries.map (·.2)) (fields.map (·.2))
  | [], _, _, _, _, _, ran => by
    obtain ⟨rfl, rfl⟩ := pure_eq_ok.mp ran
    exact ⟨by simp, .nil⟩
  | (key, held) :: rest, declared, linking, later, fields, sound, ran => by
    simp only [Scope.convertFields, bind_eq_ok, pure_eq_ok] at ran
    obtain ⟨field, _, isField, value, _, isValue, others, _, areOthers, rfl, rfl⟩ := ran
    obtain ⟨isDeclared, rfl⟩ := mem_of_fieldOfKey isField
    have first := stepwise_convert member linked _ _ _ _ _ isValue
    have second := stepwise_convertFields member linked _ _ _ _ _ areOthers
    obtain ⟨fits, means⟩ := typed_convert held field.type sound isValue
    obtain ⟨fit, meant⟩ := typed_convertFields rest declared (first.advance.sound sound) areOthers
    have fitsBehind := second.completes.survives.fits fits
    exact ⟨List.forall_mem_cons.mpr ⟨⟨field, isDeclared, rfl, fitsBehind⟩, fit⟩,
      .cons means meant⟩

end

end Walk

end Literals

end Scope

end SchemaCodec
