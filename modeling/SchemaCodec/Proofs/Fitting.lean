import SchemaCodec.Proofs.Outcomes
import SchemaCodec.Proofs.SeenOnce
import SchemaCodec.Schema.Validation

/-!
# What fits a type

The check of a value, told by its successes: a value fits a type within a depth when the type behind
all typedefs has its kind and all parts fit the types of their places one level below. Which error
is reported first plays no part in it.
-/

namespace SchemaCodec.Schema

open Outcome (bind_eq_ok mapError_eq_ok)

variable {schema : Schema} {limit depth : Nat} {type : DataType}

/-- What fits a type that is no typedef, when this is known of the parts one level below. -/
def FitsLayer (schema : Schema) (below : Value → DataType → Prop) (value : Value)
    (behind : DataType) : Prop :=
  match value with
  | .bool _ => behind = .bool
  | .byte _ => behind = .byte
  | .i16 _ => behind = .i16
  | .i32 _ => behind = .i32
  | .i64 _ => behind = .i64
  | .double _ => behind = .double
  | .string _ => behind = .string
  | .binary _ => behind = .binary
  | .list items => ∃ element, behind = .list element ∧ ∀ item ∈ items, below item element
  | .set elements => ∃ element, behind = .set element ∧ ∀ item ∈ elements, below item element
  | .map entries => ∃ keyType valueType, behind = .map keyType valueType ∧
      ∀ entry ∈ entries, below entry.1 keyType ∧ below entry.2 valueType
  | .struct fields => ∃ name declared, behind = .struct name ∧
      schema.structType name = .ok declared ∧
        missingRequired? declared.fields (Value.Fields.contains fields) = none ∧
          ∀ field ∈ fields, ∃ found, fieldById? declared.fields field.1 = some found ∧
            below field.2 found.type
  | .union id held => ∃ name declared found, behind = .union name ∧
      schema.unionType name = .ok declared ∧ fieldById? declared.fields id = some found ∧
        below held found.type
  | .enum number label => ∃ name declared, behind = .enum name ∧
      schema.enumType name = .ok declared ∧ checkLabel declared number label = .ok ()

/-- What is known of the parts may be told in other words.

Proof: by the constructor of the value. Only containers have parts, and each of them keeps its type
and weakens what is known of its parts. -/
theorem FitsLayer.imp {below other : Value → DataType → Prop} {value : Value} {behind : DataType}
    (fits : FitsLayer schema below value behind)
    (weaken : ∀ {part type}, below part type → other part type) :
    FitsLayer schema other value behind := by
  cases value with
  | list items | set elements =>
    obtain ⟨element, rfl, each⟩ := fits
    exact ⟨element, rfl, fun item member => weaken (each item member)⟩
  | map entries =>
    obtain ⟨keyType, valueType, rfl, each⟩ := fits
    exact ⟨keyType, valueType, rfl, fun entry member =>
      ⟨weaken (each entry member).1, weaken (each entry member).2⟩⟩
  | struct fields =>
    obtain ⟨name, declared, rfl, named, complete, each⟩ := fits
    refine ⟨name, declared, rfl, named, complete, fun field member => ?_⟩
    obtain ⟨found, known, here⟩ := each field member
    exact ⟨found, known, weaken here⟩
  | union id held =>
    obtain ⟨name, declared, found, rfl, named, known, here⟩ := fits
    exact ⟨name, declared, found, rfl, named, known, weaken here⟩
  | _ => exact fits

/-- A check inside a value succeeds when the check does. -/
theorem insideValue_eq_ok {step : PathStep} {outcome : Except ValueError α} {result : α} :
    insideValue step outcome = .ok result ↔ outcome = .ok result :=
  mapError_eq_ok

/-- A lookup on behalf of a value succeeds when the lookup does. -/
theorem lookedUp_eq_ok {outcome : Except LookupError α} {result : α} :
    lookedUp outcome = .ok result ↔ outcome = .ok result :=
  mapError_eq_ok

/-- The type behind all typedefs is asked for within the limit only. -/
theorem expectedAt_eq_ok {behind : DataType} : schema.expectedAt limit type depth = .ok behind ↔
    depth ≤ limit ∧ schema.canonical type = .ok behind := by
  unfold expectedAt
  by_cases deep : limit < depth
  · simp [deep, Nat.not_le_of_lt deep]
  · simp only [if_neg deep, lookedUp_eq_ok]
    exact ⟨fun followed => ⟨Nat.le_of_not_lt deep, followed⟩, fun both => both.2⟩

/-- A value without parts fits its own type. -/
theorem checkPrimitive_eq_ok {kind : DataType} :
    schema.checkPrimitive limit kind type depth = .ok () ↔
      depth ≤ limit ∧ schema.canonical type = .ok kind := by
  unfold checkPrimitive
  rw [bind_eq_ok]
  constructor
  · rintro ⟨behind, expected, checked⟩
    by_cases same : behind = kind
    · exact expectedAt_eq_ok.mp (same ▸ expected)
    · simp [same] at checked
  · intro both
    exact ⟨kind, expectedAt_eq_ok.mpr both, by simp⟩

/-- Elements fit when each of them does. -/
theorem checkElements_eq_ok {items : List Value} {position : Nat} :
    schema.checkElements limit items type depth position = .ok () ↔
      ∀ item ∈ items, schema.checkValue limit item type depth = .ok () := by
  induction items generalizing position with
  | nil => simp [checkElements]
  | cons item rest inductionHypothesis =>
    simp only [checkElements, bind_eq_ok, insideValue_eq_ok, inductionHypothesis,
      List.forall_mem_cons]
    exact ⟨fun ⟨_, here, there⟩ => ⟨here, there⟩, fun ⟨here, there⟩ => ⟨(), here, there⟩⟩

/-- Entries fit when each key and each value does. -/
theorem checkEntries_eq_ok {entries : List (Value × Value)} {keyType valueType : DataType}
    {position : Nat} :
    schema.checkEntries limit entries keyType valueType depth position = .ok () ↔
      ∀ entry ∈ entries, schema.checkValue limit entry.1 keyType depth = .ok () ∧
        schema.checkValue limit entry.2 valueType depth = .ok () := by
  induction entries generalizing position with
  | nil => simp [checkEntries]
  | cons entry rest inductionHypothesis =>
    simp only [checkEntries, bind_eq_ok, insideValue_eq_ok, inductionHypothesis,
      List.forall_mem_cons]
    constructor
    · rintro ⟨_, key, _, value, there⟩
      exact ⟨⟨key, value⟩, there⟩
    · rintro ⟨⟨key, value⟩, there⟩
      exact ⟨(), key, (), value, there⟩

/-- Fields fit when each of them is declared and its value fits. -/
theorem checkFields_eq_ok {fields : List (Int16 × Value)} {name : String} {declared : List Field} :
    schema.checkFields limit fields name declared depth = .ok () ↔
      ∀ field ∈ fields, ∃ found, fieldById? declared field.1 = some found ∧
        schema.checkValue limit field.2 found.type depth = .ok () := by
  induction fields with
  | nil => simp [checkFields]
  | cons field rest inductionHypothesis =>
    rw [List.forall_mem_cons]
    cases known : fieldById? declared field.1 with
    | none => simp [checkFields, known]
    | some found =>
      simp only [checkFields, known, bind_eq_ok, insideValue_eq_ok, inductionHypothesis,
        Option.some.injEq, exists_eq_left']
      exact ⟨fun ⟨_, here, there⟩ => ⟨here, there⟩, fun ⟨here, there⟩ => ⟨(), here, there⟩⟩

/-- A value fits a type when it is within the depth and fits the type behind all typedefs, its parts
one level below.

Proof: by the constructor of the value and, for containers, by the type behind all typedefs. The
check of a container looks its type up first and then goes through its parts, each with the lemma
for that kind of part; all other types are refused. -/
theorem checkValue_eq_ok {value : Value} : schema.checkValue limit value type depth = .ok () ↔
    depth ≤ limit ∧ ∃ behind, schema.canonical type = .ok behind ∧
      FitsLayer schema (fun part type => schema.checkValue limit part type (depth + 1) = .ok ())
        value behind := by
  have primitive (kind : DataType) : schema.checkPrimitive limit kind type depth = .ok () ↔
      depth ≤ limit ∧ ∃ behind, schema.canonical type = .ok behind ∧ behind = kind := by
    rw [checkPrimitive_eq_ok]
    simp
  have ofKind {check : DataType → Except ValueError Unit} {fits : DataType → Prop}
      (each : ∀ behind, check behind = .ok () ↔ fits behind) :
      (schema.expectedAt limit type depth >>= check) = .ok () ↔
        depth ≤ limit ∧ ∃ behind, schema.canonical type = .ok behind ∧ fits behind := by
    simp only [bind_eq_ok, expectedAt_eq_ok, each, and_assoc, exists_and_left]
  cases value with
  | bool held => exact primitive .bool
  | byte number => exact primitive .byte
  | i16 number => exact primitive .i16
  | i32 number => exact primitive .i32
  | i64 number => exact primitive .i64
  | double number => exact primitive .double
  | string text => exact primitive .string
  | binary bytes => exact primitive .binary
  | list items =>
    refine ofKind fun behind => ?_
    cases behind <;> simp [FitsLayer, checkElements_eq_ok]
  | set elements =>
    refine ofKind fun behind => ?_
    cases behind <;> simp [FitsLayer, checkElements_eq_ok]
  | map entries =>
    refine ofKind fun behind => ?_
    cases behind <;> simp [FitsLayer, checkEntries_eq_ok]
  | struct fields =>
    refine ofKind fun behind => ?_
    cases behind with
    | struct name =>
      simp only [FitsLayer, bind_eq_ok, lookedUp_eq_ok, DataType.struct.injEq]
      constructor
      · rintro ⟨declared, named, checked⟩
        cases missing : missingRequired? declared.fields (Value.Fields.contains fields) with
        | some field => simp [missing] at checked
        | none =>
          simp only [missing, checkFields_eq_ok] at checked
          exact ⟨name, declared, rfl, named, missing, checked⟩
      · rintro ⟨_, declared, rfl, named, complete, each⟩
        refine ⟨declared, named, ?_⟩
        simpa only [complete, checkFields_eq_ok] using each
    | _ => simp [FitsLayer]
  | union id held =>
    refine ofKind fun behind => ?_
    cases behind with
    | union name =>
      simp only [FitsLayer, bind_eq_ok, lookedUp_eq_ok, DataType.union.injEq]
      constructor
      · rintro ⟨declared, named, checked⟩
        cases known : fieldById? declared.fields id with
        | none => simp [known] at checked
        | some found =>
          simp only [known, insideValue_eq_ok] at checked
          exact ⟨name, declared, found, rfl, named, known, checked⟩
      · rintro ⟨_, declared, found, rfl, named, known, fits⟩
        refine ⟨declared, named, ?_⟩
        simpa only [known, insideValue_eq_ok] using fits
    | _ => simp [FitsLayer]
  | enum number label =>
    refine ofKind fun behind => ?_
    cases behind with
    | enum name =>
      simp only [FitsLayer, bind_eq_ok, lookedUp_eq_ok, DataType.enum.injEq]
      constructor
      · rintro ⟨declared, named, checked⟩
        exact ⟨name, declared, rfl, named, checked⟩
      · rintro ⟨_, declared, rfl, named, checked⟩
        exact ⟨declared, named, checked⟩
    | _ => simp [FitsLayer]

/-- The label that goes with a number fits: its member is the only one of that name. -/
theorem checkLabel_memberByNumber? {declared : EnumType}
    (distinct : (declared.members.map (·.name)).Nodup) (number : Int32) :
    checkLabel declared number ((declared.memberByNumber? number).map (·.name)) = .ok () := by
  cases labelled : declared.memberByNumber? number with
  | none => rfl
  | some member =>
    have sameNumber : member.number = number := by simpa using List.find?_some labelled
    have byName : declared.memberByName? member.name = some member :=
      (find?_key_eq_some distinct).mpr ⟨List.mem_of_find?_eq_some labelled, rfl⟩
    simp [checkLabel, byName, sameNumber]

end SchemaCodec.Schema
