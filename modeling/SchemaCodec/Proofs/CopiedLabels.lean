import SchemaCodec.Proofs.ComposedValues
import SchemaCodec.Proofs.LinkOrder
import SchemaCodec.Proofs.SuppliedFields
import SchemaCodec.Proofs.TypedDefaults

/-!
# Labels in constants and defaults

An integer literal is labelled by the enum for which it is converted, and so is a member that is
named. A literal that names a constant is another matter: the value of the constant is taken as it
is, once it is found to fit, and a number without a label fits every enum. So a number that is
unknown to one enum stays unlabelled when it is copied to the place of an enum that knows it.

Main statement: all enums in values that are read are labelled, and so are all enums in constants
and defaults, apart from numbers that a constant further in front holds without a label.
-/

namespace SchemaCodec

open Linking

/-- A constant holds a number, somewhere inside, for an enum that has no member of the number. -/
def Schema.HoldsUnknown (schema : Schema) (constant : Constant) (number : Int32) : Prop :=
  ∃ path inner declared, constant.value.walk path = some (.enum number none) ∧
    schema.typeWalk constant.type path = some inner ∧ schema.enumBehind inner = .ok declared ∧
      declared.Labels number none

/-- A number has a label of its enum, or none because it may come from a constant that holds it for
an enum to which it is unknown. -/
def Schema.LabelsOrCopies (schema : Schema) (sources : List Constant) (declared : EnumType)
    (number : Int32) (label : Option String) : Prop :=
  declared.Labels number label ∨
    label = none ∧ ∃ source ∈ sources, schema.HoldsUnknown source number

namespace Schema

variable {schema : Schema} {sources : List Constant} {value : Value} {type : DataType}

/-- Enums are right in a weaker sense as well. -/
theorem EnumsAre.imp {right also : EnumType → Int32 → Option String → Prop}
    (enums : schema.EnumsAre right value type)
    (weaken : ∀ {declared number label}, right declared number label → also declared number label) :
    schema.EnumsAre also value type := by
  intro path number label reached
  obtain ⟨inner, declared, isInner, behind, isRight⟩ := enums path number label reached
  exact ⟨inner, declared, isInner, behind, weaken isRight⟩

/-- Numbers may come from more constants. -/
theorem LabelsOrCopies.mono {others : List Constant} (among : sources ⊆ others)
    {declared : EnumType} {number : Int32} {label : Option String}
    (labels : schema.LabelsOrCopies sources declared number label) :
    schema.LabelsOrCopies others declared number label :=
  labels.imp_right fun ⟨unlabelled, source, isSource, holds⟩ =>
    ⟨unlabelled, source, among isSource, holds⟩

/-- An enum that fits a type has a label of the enum behind the type, if it has one at all. -/
theorem Fits.checkLabel {number : Int32} {label : Option String}
    (fits : schema.Fits (.enum number label) type) :
    ∃ declared, schema.enumBehind type = .ok declared ∧
      Schema.checkLabel declared number label = .ok () := by
  obtain ⟨_, followed, name, declared, rfl, named, checked⟩ := fits_iff.mp fits
  exact ⟨declared, enumBehind_eq_ok_iff.mpr ⟨name, followed, named⟩, checked⟩

/-- The value of a constant may stand wherever it fits: what is unlabelled in it is unlabelled in
the constant. -/
theorem enumsAre_of_source {source : Constant} (isSource : source ∈ sources)
    (fits : schema.Fits source.value type)
    (enums : schema.EnumsAre (schema.LabelsOrCopies sources) source.value source.type) :
    schema.EnumsAre (schema.LabelsOrCopies sources) source.value type := by
  intro path number label reached
  obtain ⟨inner, isInner, fitsPart⟩ := fits.walk reached
  obtain ⟨declared, behind, checked⟩ := fitsPart.checkLabel
  refine ⟨inner, declared, isInner, behind, ?_⟩
  cases label with
  | some label => exact .inl (EnumType.labels_of_checkLabel checked)
  | none =>
    obtain ⟨_, _, isThere, behindThere, unlabelled | ⟨-, found⟩⟩ := enums path number none reached
    · exact .inr ⟨rfl, source, isSource, path, _, _, reached, isThere, behindThere, unlabelled⟩
    · exact .inr ⟨rfl, found⟩

end Schema

namespace Scope

variable {scope : Scope}

section Literals

variable {context : LiteralContext} {linking : Linking} {schema : Schema} {value : Value}
  {type : DataType}

/-- All enums in a value that is made are labelled, apart from those that come from constants. The
induction is on the path: a step leads to a part that is made for its place. -/
theorem Makes.enumsAre (member : context.document ∈ scope.documents)
    (survives : linking.schema.SurvivesIn schema) (isLinked : schema.Linked)
    (made : scope.Makes context linking value type)
    (sources : ∀ source ∈ linking.schema.constants,
      schema.EnumsAre (schema.LabelsOrCopies linking.schema.constants) source.value source.type) :
    schema.EnumsAre (schema.LabelsOrCopies linking.schema.constants) value type := by
  intro path
  induction path generalizing value type with
  | nil =>
    intro number label reached
    cases made.composed member survives isLinked with
    | copied isSource fits =>
      exact Schema.enumsAre_of_source isSource fits (sources _ isSource) [] number label reached
    | labelled behind labels =>
      obtain ⟨rfl, rfl⟩ := Value.enum.inj (Option.some.inj reached)
      exact ⟨type, _, rfl, behind, .inl labels⟩
    | layered followed noEnum layer => exact absurd (Option.some.inj reached) (noEnum number label)
  | cons step rest inductionHypothesis =>
    intro number label reached
    cases made.composed member survives isLinked with
    | copied isSource fits =>
      exact Schema.enumsAre_of_source isSource fits (sources _ isSource) _ number label reached
    | labelled behind labels =>
      obtain ⟨inside, first, -⟩ := Value.walk_cons_eq_some.mp reached
      simp [Value.at?] at first
    | layered followed noEnum layer =>
      obtain ⟨inside, first, behind⟩ := Value.walk_cons_eq_some.mp reached
      obtain ⟨between, isBetween, insideMade⟩ := layer.at? first
      obtain ⟨inner, declared, isInner, others⟩ :=
        inductionHypothesis insideMade number label behind
      exact ⟨inner, declared, Schema.typeWalk_cons followed isBetween isInner, others⟩

end Literals

section Constants

variable {last : Linking}

/-- All enums in a constant are labelled, apart from those that come from constants in front of it.
The induction is on the number of these. -/
theorem Grounded.enumsAre (grounded : scope.Grounded last) (isLinked : last.schema.Linked)
    {front : List Constant} {constant : Constant} {back : List Constant}
    (split : last.schema.constants = front ++ constant :: back) :
    last.schema.EnumsAre (last.schema.LabelsOrCopies front) constant.value constant.type := by
  induction length : front.length using Nat.strongRecOn generalizing front constant back with
  | ind size inductionHypothesis =>
    obtain ⟨before, precedes, rfl, document, definition, origin⟩ := grounded.origins split
    have made : scope.Makes ⟨document, definition.span, constant.name⟩ before constant.value
        constant.type := ⟨definition.value, origin.value⟩
    refine made.enumsAre origin.member precedes.types isLinked fun source isSource => ?_
    obtain ⟨first, others, isFront⟩ := List.append_of_mem isSource
    have regrouped : last.schema.constants = first ++ source :: (others ++ constant :: back) := by
      rw [split, isFront]
      simp
    have shorter : first.length < size := by
      rw [← length, isFront]
      simp
    have enums := inductionHypothesis _ shorter regrouped rfl
    refine enums.imp fun labels => labels.mono ?_
    rw [isFront]
    exact List.subset_append_left _ _

end Constants

section Defaults

variable {typed settled last : Linking} {supplied : Supply}
  (filled : scope.Filled typed last supplied)

include filled

/-- A default of a field that had none was supplied for the type of the field, when the defaults
that wait for the field have its type. -/
theorem Filled.exists_supplied {addressed : PendingDefault → Prop} [DecidablePred addressed]
    {field : Field} (noDefault : field.default = none)
    (waiting : ∀ pending ∈ typed.pending, addressed pending → field.id = pending.id →
      field.type = pending.type)
    {value : Value} (isDefault : value ∈ (field.supply addressed supplied).default) :
    ∃ pair ∈ supplied, pair.1.type = (field.supply addressed supplied).type ∧ pair.2 = value := by
  rcases Field.mem_default_supply isDefault with own | ⟨pair, isPair, isAddressed, sameId, rfl⟩
  · simp [noDefault] at own
  · have waits : pair.1 ∈ typed.pending := filled.defaults ▸ List.mem_map_of_mem isPair
    obtain ⟨default, same⟩ : ∃ default, field.supply addressed supplied = { field with default } :=
      field.supply_eq
    rw [same]
    exact ⟨pair, isPair, (waiting pair.1 waits isAddressed sameId.symm).symm, rfl⟩

variable (passes : scope.Passes typed settled last)

include passes

/-- A default of a field of a declared type was supplied for the type of the field. -/
theorem Filled.exists_supplied_field {declared : TypeDeclaration}
    (isDeclared : declared ∈ last.schema.types) {fields : List Field}
    (isFields : declared.fields? = some fields) {field : Field} (isField : field ∈ fields)
    {value : Value} (isDefault : value ∈ field.default) :
    ∃ pair ∈ supplied, pair.1.type = field.type ∧ pair.2 = value := by
  obtain ⟨constants, same⟩ := filled.state
  have types : last.schema.types = (typed.schema.supply supplied).types := same ▸ rfl
  rw [types, passes.typedSound.schema.indexed.types_supply] at isDeclared
  obtain ⟨before, isBefore, rfl⟩ := List.mem_map.mp isDeclared
  rw [TypeDeclaration.fields?_supply] at isFields
  obtain ⟨others, isOthers, rfl⟩ := Option.map_eq_some_iff.mp isFields
  obtain ⟨other, isOther, rfl⟩ := List.mem_map.mp isField
  have noDefault := passes.noDefault.1 before isBefore others isOthers other isOther
  refine filled.exists_supplied noDefault (fun pending waits isOwner => ?_) isDefault
  exact (passes.routed waits).1.field before isBefore isOwner.symm others isOthers other isOther

/-- A default of an argument was supplied for the type of the argument, and fields that a method
throws have none. -/
theorem Filled.exists_supplied_argument {service : Service}
    (isService : service ∈ last.schema.services) {method : Method}
    (isMethod : method ∈ service.methods) {field : Field}
    (isField : field ∈ method.arguments ++ method.throws) {value : Value}
    (isDefault : value ∈ field.default) :
    ∃ pair ∈ supplied, pair.1.type = field.type ∧ pair.2 = value := by
  obtain ⟨constants, same⟩ := filled.state
  have services : last.schema.services = (typed.schema.supply supplied).services := same ▸ rfl
  rw [services, passes.typedSound.schema.indexed.services_supply] at isService
  obtain ⟨before, isBefore, rfl⟩ := List.mem_map.mp isService
  obtain ⟨old, isOld, rfl⟩ := List.mem_map.mp isMethod
  have noDefault := passes.noDefault.2 before isBefore old isOld
  rcases List.mem_append.mp isField with isArgument | isThrown
  · obtain ⟨other, isOther, rfl⟩ := List.mem_map.mp isArgument
    refine filled.exists_supplied (noDefault other (List.mem_append_left _ isOther))
      (fun pending waits isCalled => ?_) isDefault
    exact ((passes.routed waits).1.argument before isBefore old isOld isCalled).2 other isOther
  · rw [noDefault field (List.mem_append_right _ isThrown)] at isDefault
    simp at isDefault

/-- All enums in a value that is supplied are labelled, apart from those that come from constants.
-/
theorem Filled.enumsAre_supplied (isLinked : last.schema.Linked)
    {pair : PendingDefault × Value} (isPair : pair ∈ supplied) :
    last.schema.EnumsAre (last.schema.LabelsOrCopies last.schema.constants) pair.2 pair.1.type := by
  have waits : pair.1 ∈ typed.pending := filled.defaults ▸ List.mem_map_of_mem isPair
  have member := passes.typedSound.pending pair.1 waits
  have made : scope.Makes
      ⟨pair.1.document, pair.1.span, pair.1.owner ++ "." ++ pair.1.name⟩ last pair.2 pair.1.type :=
    ⟨pair.1.literal, filled.converts pair isPair⟩
  refine made.enumsAre member (.refl _) isLinked fun source isSource => ?_
  obtain ⟨front, back, split⟩ := List.append_of_mem isSource
  refine (filled.grounded.enumsAre isLinked split).imp fun labels => labels.mono ?_
  rw [split]
  exact List.subset_append_left _ _

end Defaults

end Scope

/-- Every enum that the library makes is labelled: in whatever is decoded or read from a source, a
number has the name of a member exactly where some member has it. In constants and defaults the same
holds, apart from numbers without a label that another constant, in front of a constant, holds for
an enum to which they are unknown.

Proof: what is decoded denotes its value, and an enum is denoted by its number with the label that
is found for it. The values of constants and defaults are made of literals, in which an enum is made
by number or by name, or copied from a constant in front; so the copies are the only exception. -/
theorem enums_are_labelled {documents : List Document} {schema : Schema}
    (linked : link documents = .ok schema) :
    (∀ limits type bytes value, schema.decode limits type bytes = .ok value →
      schema.EnumsAre EnumType.Labels value type) ∧
    (∀ limits type source value after,
      (Decoder.value schema limits type).run source = (.ok value, after) →
        schema.EnumsAre EnumType.Labels value type) ∧
    (∀ front constant back, schema.constants = front ++ constant :: back →
      schema.EnumsAre (schema.LabelsOrCopies front) constant.value constant.type) ∧
    (∀ declared ∈ schema.types, ∀ fields, declared.fields? = some fields → ∀ field ∈ fields,
      ∀ value ∈ field.default,
        schema.EnumsAre (schema.LabelsOrCopies schema.constants) value field.type) ∧
    ∀ service ∈ schema.services, ∀ method ∈ service.methods,
      ∀ field ∈ method.arguments ++ method.throws, ∀ value ∈ field.default,
        schema.EnumsAre (schema.LabelsOrCopies schema.constants) value field.type := by
  have isLinked := linked_of_link linked
  obtain ⟨scope, formed, typed, settled, last, passes, rfl⟩ := Scope.link_eq_ok.mp linked
  obtain ⟨supplied, filled⟩ := passes.filled
  refine ⟨fun limits type bytes value decoded => ?_, fun limits type source value after read => ?_,
    fun front constant back split => filled.grounded.enumsAre isLinked split,
    fun declared isDeclared fields isFields field isField value isDefault => ?_,
    fun service isService method isMethod field isField value isDefault => ?_⟩
  · have denotes :=
      (Decoder.recognises_valueWithin last.schema limits _ type).runOnAll_eq_ok.mp decoded
    exact denotes.enumsAre
  · obtain ⟨taken, -, denotes⟩ :=
      (Decoder.recognises_valueWithin last.schema limits _ type).sound read
    exact denotes.enumsAre
  · obtain ⟨pair, isPair, sameType, rfl⟩ :=
      filled.exists_supplied_field passes isDeclared isFields isField isDefault
    exact sameType ▸ filled.enumsAre_supplied passes isLinked isPair
  · obtain ⟨pair, isPair, sameType, rfl⟩ :=
      filled.exists_supplied_argument passes isService isMethod isField isDefault
    exact sameType ▸ filled.enumsAre_supplied passes isLinked isPair

/-- In the schema of the two documents a color is labelled where it is read, inside the bolt, which
no constant precedes, and where it is the default of items. -/
theorem store_colors_are_labelled :
    storeSchema.EnumsAre EnumType.Labels (.enum 2 (some "BLUE")) (.enum "b.Color") ∧
      storeSchema.EnumsAre (storeSchema.LabelsOrCopies [])
        (.struct [(1, .string "bolt"), (2, .enum 1 (some "RED"))]) (.struct "a.Item") ∧
        storeSchema.EnumsAre (storeSchema.LabelsOrCopies storeSchema.constants)
          (.enum 2 (some "BLUE")) (.enum "b.Color") := by
  obtain ⟨decoded, -, constants, fields, -⟩ := enums_are_labelled link_storeDocument
  have isItem := List.mem_of_getElem? (l := storeSchema.types) (i := 4) rfl
  refine ⟨?_, ?_, ?_⟩
  · exact decoded {} (.enum "b.Color") [0, 0, 0, 2] _ (by cbv)
  · exact constants [] _ _ rfl
  · exact fields _ isItem _ rfl _ (List.mem_of_getElem? (i := 1) rfl) _ rfl

/-- A document with a constant that holds a number unknown to its enum, and with another one that
copies it for an enum with a member of that number. -/
def copyDocument : Document where
  path := "m.thrift"
  module := "m"
  definitions := [
    .enum { name := "A", members := [{ name := "P", number := some 1 }] },
    .enum { name := "B", members := [{ name := "Q", number := some 5 }] },
    .constant { name := "a", type := .named "A" {}, value := .int 5 },
    .constant { name := "b", type := .named "B" {}, value := .identifier "a" }]

/-- The schema of the document. -/
def copySchema : Schema :=
  .ofEntries [.enum ⟨"m.A", [⟨"P", 1⟩]⟩, .enum ⟨"m.B", [⟨"Q", 5⟩]⟩] []
    [⟨"m.a", .enum "m.A", .enum 5 none⟩, ⟨"m.b", .enum "m.B", .enum 5 none⟩]

/-- The document links. -/
theorem link_copyDocument : link [copyDocument] = .ok copySchema := by cbv

/-- So an enum in a linked constant may go without a label though it has a member of the number. -/
theorem copies_may_lack_labels :
    ¬∀ documents schema, link documents = .ok schema → ∀ constant ∈ schema.constants,
      schema.EnumsAre EnumType.Labels constant.value constant.type := by
  intro labelled
  have isCopy : ⟨"m.b", .enum "m.B", .enum 5 none⟩ ∈ copySchema.constants :=
    List.mem_of_getElem? (i := 1) rfl
  obtain ⟨inner, declared, isInner, behind, unknown⟩ :=
    labelled _ _ link_copyDocument _ isCopy [] 5 none rfl
  obtain rfl := Option.some.inj isInner
  obtain rfl : declared = ⟨"m.B", [⟨"Q", 5⟩]⟩ := (Except.ok.inj behind).symm
  exact unknown ⟨"Q", 5⟩ (List.mem_singleton_self _) rfl

end SchemaCodec
