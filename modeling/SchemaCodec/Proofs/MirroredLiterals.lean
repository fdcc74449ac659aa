import SchemaCodec.Proofs.Counterparts
import SchemaCodec.Proofs.SurvivingTypes

/-!
# Literals converted twice

A literal may be converted in two runs of linking: with other documents, from another state, with
its constants obtained in another way. A relation of steps and their twins that passes from the
parts of a run to the run holds of the conversions as soon as it holds of the steps that obtain
constants.
-/

namespace SchemaCodec

open Linking

/-- The same constant or default, with the counterpart of its document. -/
def LiteralContext.moved (move : Document → Document) (context : LiteralContext) : LiteralContext :=
  { context with document := move context.document }

namespace Linking

/-- A relation of steps and their twins that passes from the parts of a run to the run. Of a step
that fails nothing is asked. What a step reads in the schema of usable types is told by the schema
that its twin reads. -/
structure Mirroring (usable : DataType → Prop) (mirrors : {α : Type} → LinkM α → LinkM α → Prop) :
    Prop where
  pure : ∀ {α : Type} (value : α), mirrors (pure value) (pure value)
  fail : ∀ {α : Type} (error : LinkError) (twin : LinkM α), mirrors (fail error) twin
  bind : ∀ {α β : Type} {step twin : LinkM α} {next following : α → LinkM β},
    mirrors step twin → (∀ value, mirrors (next value) (following value)) →
      mirrors (step >>= next) (twin >>= following)
  schema : ∀ {α : Type} {next following : Schema → LinkM α},
    (∀ {schema other : Schema}, schema.Tells usable other →
        mirrors (next schema) (following other)) →
      mirrors (schema? >>= next) (schema? >>= following)

namespace Mirroring

variable {usable : DataType → Prop} {mirrors : {α : Type} → LinkM α → LinkM α → Prop}
  (mirroring : Mirroring usable mirrors)

include mirroring

/-- A step that needs no more than the documents may be known of each outcome it can have. -/
theorem given {α β γ : Type} {outcome : Except LinkError α} {twin : Except LinkError β}
    {next : α → LinkM γ} {following : β → LinkM γ}
    (each : ∀ {value}, outcome = .ok value →
      ∃ again, twin = .ok again ∧ mirrors (next value) (following again)) :
    mirrors (given outcome >>= next) (given twin >>= following) := by
  cases outcome with
  | error error => exact mirroring.fail error _
  | ok value =>
    obtain ⟨again, rfl, mirrored⟩ := each rfl
    exact mirrored

/-- A step that needs no more than the documents has the outcome that its twin has. -/
theorem givenLast {α : Type} {outcome twin : Except LinkError α}
    (each : ∀ {value}, outcome = .ok value → twin = .ok value) :
    mirrors (Linking.given outcome) (Linking.given twin) := by
  cases outcome with
  | error error => exact mirroring.fail error _
  | ok value =>
    rw [each rfl]
    exact mirroring.pure value

omit mirroring in
/-- A guard lets through what its twin lets through. -/
theorem ite {α : Type} {condition : Prop} [Decidable condition]
    {step other twin following : LinkM α} (first : mirrors step twin)
    (second : mirrors other following) :
    mirrors (if condition then step else other) (if condition then twin else following) := by
  by_cases holds : condition
  · rwa [if_pos holds, if_pos holds]
  · rwa [if_neg holds, if_neg holds]

end Mirroring

section Literals

variable {usable : DataType → Prop} {mirrors : {α : Type} → LinkM α → LinkM α → Prop}
  (mirroring : Mirroring usable mirrors) {context other : LiteralContext}

include mirroring

/-- A check has the outcome that its twin has. -/
theorem mirrors_checked {α : Type} {outcome twin : Except ValueError α}
    (each : ∀ {value}, outcome = .ok value → twin = .ok value) :
    mirrors (context.checked outcome) (other.checked twin) :=
  mirroring.givenLast fun found =>
    Outcome.mapError_eq_ok.mpr (each (Outcome.mapError_eq_ok.mp found))

/-- A lookup goes on as its twin does. -/
theorem mirrors_lookedUp {α β γ : Type} {outcome : Except LookupError α}
    {twin : Except LookupError β} {next : α → LinkM γ} {following : β → LinkM γ}
    (each : ∀ {value}, outcome = .ok value →
      ∃ again, twin = .ok again ∧ mirrors (next value) (following again)) :
    mirrors (context.lookedUp outcome >>= next) (other.lookedUp twin >>= following) := by
  refine mirroring.given fun found => ?_
  obtain ⟨again, isFound, mirrored⟩ := each (Outcome.mapError_eq_ok.mp found)
  exact ⟨again, Outcome.mapError_eq_ok.mpr isFound, mirrored⟩

/-- The type behind all typedefs is found twice. -/
theorem mirrors_behindTypedefs {α : Type} {declared : DataType} (isUsable : usable declared)
    {next following : Schema → DataType → LinkM α}
    (each : ∀ {schema twin : Schema}, schema.Tells usable twin → ∀ type, usable type →
      mirrors (next schema type) (following twin type)) :
    mirrors
      (schema? >>= fun schema => context.lookedUp (schema.canonical declared) >>= next schema)
      (schema? >>= fun schema => other.lookedUp (schema.canonical declared) >>= following schema) :=
  mirroring.schema fun tells => mirrors_lookedUp mirroring fun {type} followed =>
    have ⟨alsoFollowed, isUsableBehind⟩ := tells.canonical isUsable followed
    ⟨type, alsoFollowed, each tells type isUsableBehind⟩

/-- An integer literal is converted twice.

Proof: by the type that is asked for. Ranges are checked alike on both sides, and an enum is looked
up in schemas that tell the same of it. -/
theorem mirrors_convertInt (number : Int) (type : DataType) (isUsable : usable type) :
    mirrors (Scope.convertInt context number type) (Scope.convertInt other number type) := by
  have inRange (bound : Nat) (type : DataType) (value : Value) :
      mirrors (context.inRange bound number type value) (other.inRange bound number type value) :=
    Mirroring.ite (mirroring.pure _) (mirroring.fail _ _)
  cases type with
  | bool =>
    exact Mirroring.ite (mirroring.pure _)
      (Mirroring.ite (mirroring.pure _) (mirroring.fail _ _))
  | byte | i16 | i32 => exact inRange _ _ _
  | i64 | double => exact mirroring.pure _
  | enum name =>
    refine mirroring.bind (inRange _ _ _) fun raw => mirroring.schema fun tells => ?_
    cases raw with
    | enum held label => exact mirrors_checked mirroring (tells.enumOfNumber isUsable)
    | _ => exact mirroring.pure _
  | _ => exact mirroring.fail _ _

omit mirroring in
/-- A field is found by its name among the same fields with other defaults. -/
theorem fieldByName?_of_bare {fields kept : List Field}
    (same : kept.map (·.bare) = fields.map (·.bare)) {name : String} {field : Field}
    (found : fieldByName? fields name = some field) :
    ∃ other, fieldByName? kept name = some other ∧ other.bare = field.bare := by
  have bare (fields : List Field) :
      fieldByName? (fields.map (·.bare)) name = (fieldByName? fields name).map (·.bare) :=
    List.find?_map ..
  have isThere : (fieldByName? kept name).map (·.bare) = some field.bare := by
    rw [← bare, same, bare, found]
    rfl
  exact Option.map_eq_some_iff.mp isThere

/-- A key names the same field among fields with other defaults. -/
theorem mirrors_fieldOfKey {fields kept : List Field}
    (same : kept.map (·.bare) = fields.map (·.bare)) {α : Type} {next following : Field → LinkM α}
    (each : ∀ {field twin : Field}, field ∈ fields → twin.bare = field.bare →
      mirrors (next field) (following twin))
    (key : Literal) :
    mirrors (context.fieldOfKey fields key >>= next) (other.fieldOfKey kept key >>= following) := by
  cases key with
  | text name | identifier name =>
    cases found : fieldByName? fields name with
    | none =>
      simp only [LiteralContext.fieldOfKey, found]
      exact mirroring.fail _ _
    | some field =>
      obtain ⟨twin, isTwin, sameField⟩ := fieldByName?_of_bare same found
      simp only [LiteralContext.fieldOfKey, found, isTwin]
      exact each (List.mem_of_find?_eq_some found) sameField
  | _ => exact mirroring.fail _ _

end Literals

section Conversion

variable {usable : DataType → Prop} {mirrors : {α : Type} → LinkM α → LinkM α → Prop}
  {scope other : Scope} {move : Document → Document}
  {constant twin : Document → ConstantDefinition → LinkM Value} {context : LiteralContext}

/-- The literals of a constant or default are converted twice: with the documents of a scope and
with those of another one, in which the names in these literals refer to the counterparts of what
they refer to, and with constants that are obtained in ways that mirror one another. -/
structure ConvertedTwice (usable : DataType → Prop)
    (mirrors : {α : Type} → LinkM α → LinkM α → Prop) (scope other : Scope)
    (move : Document → Document) (constant twin : Document → ConstantDefinition → LinkM Value)
    (context : LiteralContext) : Prop extends Mirroring usable mirrors where
  lookup : ∀ name, other.lookup (move context.document) name =
    (scope.lookup context.document name).map fun pair => (move pair.1, pair.2)
  qualified : ∀ {name home found}, scope.lookup context.document name = some (home, found) →
    ∀ last, (move home).qualified last = home.qualified last
  constants : ∀ {name home definition},
    scope.lookup context.document name = some (home, .constant definition) →
      mirrors (constant home definition) (twin (move home) definition)

/-- Literals are converted twice with the documents of a scope and with their counterparts. -/
theorem ConvertedTwice.of_counterparts (counterparts : scope.Counterparts other move)
    (mirroring : Mirroring usable mirrors) (member : context.document ∈ scope.documents)
    (constants : ∀ home ∈ scope.documents, ∀ definition, .constant definition ∈ home.definitions →
      mirrors (constant home definition) (twin (move home) definition)) :
    ConvertedTwice usable mirrors scope other move constant twin context :=
  { mirroring with
    lookup := counterparts.lookup member
    qualified := fun isFound =>
      (counterparts.reordered (Scope.mem_of_lookup member isFound).1).qualified
    constants := fun isFound =>
      have ⟨isHome, isDefinition⟩ := Scope.mem_of_lookup member isFound
      constants _ isHome _ isDefinition }

/-- An identifier names the same member of an enum. -/
theorem memberOfIdentifier_moved
    (twice : ConvertedTwice usable mirrors scope other move constant twin context) (name : String)
    (type : DataType) :
    other.memberOfIdentifier (context.moved move) name type =
      scope.memberOfIdentifier context name type := by
  unfold Scope.memberOfIdentifier
  split
  · next enum front held isSplit =>
    have isFound : other.lookup (context.moved move).document front =
        (scope.lookup context.document front).map fun pair => (move pair.1, pair.2) :=
      twice.lookup front
    cases known : scope.lookup context.document front with
    | none => simp only [isFound, known, Option.map_none]
    | some pair => simp only [isFound, known, Option.map_some, twice.qualified known]
  · rfl

/-- An identifier is converted twice.

Proof: by what the name may be: one of the two truth values, a member of the enum that is asked for,
or a constant. Names are looked up with the same result on both sides, and checks against the schema
go by what both schemas tell alike. -/
theorem mirrors_convertIdentifier
    (twice : ConvertedTwice usable mirrors scope other move constant twin context) (name : String)
    {declared type : DataType} (isUsable : usable declared) (isUsableBehind : usable type) :
    mirrors (scope.convertIdentifier constant context name declared type)
      (other.convertIdentifier twin (context.moved move) name declared type) := by
  unfold Scope.convertIdentifier
  refine Mirroring.ite (twice.pure _) (Mirroring.ite (twice.pure _) ?_)
  rw [memberOfIdentifier_moved twice]
  cases scope.memberOfIdentifier context name type with
  | some held =>
    exact twice.schema fun tells =>
      mirrors_checked twice.toMirroring (tells.enumOfName isUsableBehind)
  | none =>
    refine twice.given fun {pair} isFound => ?_
    obtain ⟨home, found⟩ := pair
    have known := Scope.lookupAt_eq_ok.mp isFound
    have alsoKnown : other.lookup (context.moved move).document name = some (move home, found) :=
      (twice.lookup name).trans (congrArg _ known)
    refine ⟨(move home, found), Scope.lookupAt_eq_ok.mpr alsoKnown, ?_⟩
    cases found with
    | constant definition =>
      refine twice.bind (twice.constants known) fun value =>
        twice.schema fun tells => twice.bind ?_ fun _ => twice.pure _
      exact mirrors_checked twice.toMirroring (tells.checkValue isUsable)
    | _ => exact twice.fail _ _

mutual

/-- A literal is converted twice. -/
theorem mirrors_convert
    (twice : ConvertedTwice usable mirrors scope other move constant twin context) :
    ∀ (literal : Literal) {declared : DataType}, usable declared →
      mirrors (scope.convert constant context literal declared)
        (other.convert twin (context.moved move) literal declared)
  | .identifier name, declared, isUsable => by
    unfold Scope.convert
    refine mirrors_behindTypedefs twice.toMirroring isUsable fun tells type isUsableBehind => ?_
    exact mirrors_convertIdentifier twice name isUsable isUsableBehind
  | .int number, declared, isUsable => by
    unfold Scope.convert
    refine mirrors_behindTypedefs twice.toMirroring isUsable fun tells type isUsableBehind => ?_
    exact mirrors_convertInt twice.toMirroring number _ isUsableBehind
  | .double number, declared, isUsable => by
    unfold Scope.convert
    refine mirrors_behindTypedefs twice.toMirroring isUsable fun tells type isUsableBehind => ?_
    cases type with
    | double => exact twice.pure _
    | _ => exact twice.fail _ _
  | .text text, declared, isUsable => by
    unfold Scope.convert
    refine mirrors_behindTypedefs twice.toMirroring isUsable fun tells type isUsableBehind => ?_
    cases type with
    | string | binary => exact twice.pure _
    | _ => exact twice.fail _ _
  | .list items, declared, isUsable => by
    unfold Scope.convert
    refine mirrors_behindTypedefs twice.toMirroring isUsable fun tells type isUsableBehind => ?_
    cases type with
    | list element =>
      have inside := tells.element (.inl isUsableBehind)
      exact twice.bind (mirrors_convertItems twice items inside) fun _ => twice.pure _
    | set element =>
      have inside := tells.element (.inr isUsableBehind)
      exact twice.bind (mirrors_convertItems twice items inside) fun _ => twice.pure _
    | _ => exact twice.fail _ _
  | .map entries, declared, isUsable => by
    unfold Scope.convert
    refine mirrors_behindTypedefs twice.toMirroring isUsable fun tells type isUsableBehind => ?_
    cases type with
    | map keyType valueType =>
      obtain ⟨insideKey, insideValue⟩ := tells.entry isUsableBehind
      exact twice.bind (mirrors_convertEntries twice entries insideKey insideValue) fun _ =>
        twice.pure _
    | struct name =>
      refine mirrors_lookedUp twice.toMirroring fun {found} named => ?_
      obtain ⟨kept, isKept, same, inside⟩ := tells.structType isUsableBehind named
      refine ⟨kept, isKept, twice.bind (mirrors_convertFields twice entries same inside)
        fun fields => twice.schema fun tellsNow => twice.bind ?_ fun _ => twice.pure _⟩
      exact mirrors_checked twice.toMirroring (tellsNow.checkValue isUsableBehind)
    | union name =>
      refine mirrors_lookedUp twice.toMirroring fun {found} named => ?_
      obtain ⟨kept, isKept, same, inside⟩ := tells.unionType isUsableBehind named
      exact ⟨kept, isKept, twice.bind (mirrors_convertFields twice entries same inside) fun _ =>
        mirrors_checked twice.toMirroring id⟩
    | _ => exact twice.fail _ _

/-- Literals are converted twice. -/
theorem mirrors_convertItems
    (twice : ConvertedTwice usable mirrors scope other move constant twin context) :
    ∀ (items : List Literal) {type : DataType}, usable type →
      mirrors (scope.convertItems constant context items type)
        (other.convertItems twin (context.moved move) items type)
  | [], _, _ => twice.pure _
  | item :: rest, _, isUsable => twice.bind (mirrors_convert twice item isUsable) fun _ =>
      twice.bind (mirrors_convertItems twice rest isUsable) fun _ => twice.pure _

/-- The literals of a map are converted twice. -/
theorem mirrors_convertEntries
    (twice : ConvertedTwice usable mirrors scope other move constant twin context) :
    ∀ (entries : List (Literal × Literal)) {keyType valueType : DataType},
      usable keyType → usable valueType →
        mirrors (scope.convertEntries constant context entries keyType valueType)
          (other.convertEntries twin (context.moved move) entries keyType valueType)
  | [], _, _, _, _ => twice.pure _
  | (key, value) :: rest, _, _, isUsableKey, isUsableValue =>
      twice.bind (mirrors_convert twice key isUsableKey) fun _ =>
        twice.bind (mirrors_convert twice value isUsableValue) fun _ =>
          twice.bind (mirrors_convertEntries twice rest isUsableKey isUsableValue) fun _ =>
            twice.pure _

/-- The literals of fields are converted twice. -/
theorem mirrors_convertFields
    (twice : ConvertedTwice usable mirrors scope other move constant twin context) :
    ∀ (entries : List (Literal × Literal)) {fields kept : List Field},
      kept.map (·.bare) = fields.map (·.bare) → (∀ field ∈ fields, usable field.type) →
        mirrors (scope.convertFields constant context entries fields)
          (other.convertFields twin (context.moved move) entries kept)
  | [], _, _, _, _ => twice.pure _
  | (key, value) :: rest, fields, kept, same, inside => by
    refine mirrors_fieldOfKey twice.toMirroring same (fun {field found} isField sameField => ?_) key
    have sameType : found.bare.type = field.bare.type := congrArg Field.type sameField
    have sameId : found.bare.id = field.bare.id := congrArg Field.id sameField
    change found.type = field.type at sameType
    change found.id = field.id at sameId
    rw [sameType, sameId]
    exact twice.bind (mirrors_convert twice value (inside field isField)) fun _ =>
      twice.bind (mirrors_convertFields twice rest same inside) fun _ => twice.pure _

end

end Conversion

end Linking

end SchemaCodec
