import SchemaCodec.Proofs.MirroredLiterals

/-!
# Constants rest on constants in front of them

Once all typedefs are linked, constants and defaults add nothing but constants. Each constant rests
on those in front of it: with these alone its literal becomes its value, then and ever after. So the
order in which constants are added shows how each of them can be had without linking any other one.
-/

namespace SchemaCodec

open Linking

namespace Linking

/-- A state with more constants. -/
def plus (linking : Linking) (more : List Constant) : Linking :=
  { linking with
    schema :=
      { linking.schema with
        constants := linking.schema.constants ++ more
        constantPositions := linking.schema.constantPositions.addAll (more.map (·.name))
          linking.schema.constants.length } }

/-- A state without more constants. -/
@[simp] theorem plus_nil (linking : Linking) : linking.plus [] = linking := by
  simp [plus]

/-- A state with more constants and yet more. -/
@[simp] theorem plus_plus (linking : Linking) (more others : List Constant) :
    (linking.plus more).plus others = linking.plus (more ++ others) := by
  have positions := linking.schema.constantPositions.addAll_addAll (more.map (·.name))
    (others.map (·.name)) linking.schema.constants.length
  rw [List.length_map] at positions
  simp [plus, positions]

/-- A constant that is added under a free name is found there. -/
theorem constant?_plus {linking : Linking} {constant : Constant}
    (free : linking.schema.constantPositions.position? constant.name = none) :
    (linking.plus [constant]).schema.constant? constant.name = some constant :=
  NameIndex.lookup?_added free _ _

/-- A state with one more constant is indexed when the name of the constant was free. -/
theorem indexed_plus {linking : Linking} {constant : Constant} (indexed : linking.schema.Indexed)
    (free : linking.schema.constantPositions.position? constant.name = none) :
    (linking.plus [constant]).schema.Indexed :=
  indexed.addConstant free

/-- A state with more constants is indexed when all constants have different names. -/
theorem indexed_plus_of_nodup {linking : Linking} {more : List Constant}
    (indexed : linking.schema.Indexed)
    (distinct : ((linking.schema.constants ++ more).map (·.name)).Nodup) :
    (linking.plus more).schema.Indexed where
  types := indexed.types
  services := indexed.services
  constants := by
    rw [List.map_append] at distinct
    simpa [plus] using indexed.constants.addAll distinct

/-- A state comes before another one: its types survive, its constants stay in front, and they are
found under their names. -/
structure Precedes (linking last : Linking) : Prop where
  types : linking.schema.SurvivesIn last.schema
  constants : linking.schema.constants <+: last.schema.constants
  constant? : ∀ {name constant}, linking.schema.constant? name = some constant →
    last.schema.constant? name = some constant

namespace Precedes

variable {linking between last : Linking}

/-- A state comes before itself. -/
theorem refl (linking : Linking) : linking.Precedes linking where
  types := .refl _
  constants := List.prefix_rfl
  constant? := id

/-- What comes before a state comes before what that state comes before. -/
theorem trans (first : linking.Precedes between) (second : between.Precedes last) :
    linking.Precedes last where
  types := first.types.trans second.types
  constants := first.constants.trans second.constants
  constant? := second.constant? ∘ first.constant?

/-- A state comes before itself with more constants. -/
theorem plus (linking : Linking) (more : List Constant) : linking.Precedes (linking.plus more) where
  types := .of_types rfl rfl
  constants := List.prefix_append _ _
  constant? found := NameIndex.lookup?_addAll found _ _ _

/-- A state comes before itself with a default filled in. -/
theorem withDefault (linking : Linking) (pending : PendingDefault) (value : Value) :
    linking.Precedes { linking with schema := linking.schema.withDefault pending value } where
  types := (completes_withDefault linking pending value).survives
  constants := List.prefix_rfl
  constant? := id

end Precedes

end Linking

namespace Scope

variable {scope : Scope} {document : Document} {linking later : Linking}

/-- All typedefs of the documents are linked. -/
def HasTypedefs (scope : Scope) (schema : Schema) : Prop :=
  ∀ document ∈ scope.documents, ∀ definition, .typedef definition ∈ document.definitions →
    ∃ known, schema.declaration? (document.qualified definition.name) = some (.typedef known)

/-- Typedefs stay linked. -/
theorem HasTypedefs.survives {schema other : Schema} (typedefs : scope.HasTypedefs schema)
    (survives : schema.SurvivesIn other) : scope.HasTypedefs other := by
  intro document member definition isTypedef
  obtain ⟨known, found⟩ := typedefs document member definition isTypedef
  obtain ⟨kept, isKept, same⟩ := survives.declaration? found
  cases kept with
  | typedef kept => exact ⟨kept, isKept⟩
  | _ => simp [TypeDeclaration.bare] at same

/-- Where all typedefs are linked, a reference links nothing. -/
theorem HasTypedefs.linkReference_eq_ok (typedefs : scope.HasTypedefs linking.schema)
    (member : document ∈ scope.documents) {reference : TypeReference} {type : DataType} :
    scope.linkReference document reference linking = .ok (type, later) ↔
      scope.resolve document reference = .ok type ∧ linking = later := by
  rw [Scope.linkReference_eq_ok, LinksDirectly]
  refine and_congr_right fun _ => ?_
  cases direct : scope.directTypedef? document reference with
  | none => rfl
  | some next =>
    obtain ⟨home, definition⟩ := next
    obtain ⟨isHome, isTypedef⟩ := mem_of_directTypedef? member direct
    obtain ⟨known, found⟩ := typedefs home isHome definition isTypedef
    simp [linkTypedef_eq_ok, found]

/-- A constant is added with the type of its reference and the value of its literal. -/
theorem addConstant_eq_ok {constant : Document → ConstantDefinition → LinkM Value}
    {definition : ConstantDefinition} {value : Value} :
    addConstant scope constant document definition linking = .ok (value, later) ↔
      ∃ type referred, scope.linkReference document definition.type linking = .ok (type, referred) ∧
        ∃ converted, scope.convert constant
            ⟨document, definition.span, document.qualified definition.name⟩ definition.value type
            referred = .ok (value, converted) ∧
          converted.schema.constantPositions.position? (document.qualified definition.name) =
              none ∧
            later = converted.plus [⟨document.qualified definition.name, type, value⟩] := by
  simp only [addConstant, bind_eq_ok, insertConstant_eq_ok, pure_eq_ok]
  constructor
  · rintro ⟨type, referred, isType, value, converted, isValue, _, _, ⟨free, rfl⟩, rfl, rfl⟩
    exact ⟨type, referred, isType, converted, isValue, free, rfl⟩
  · rintro ⟨type, referred, isType, converted, isValue, free, rfl⟩
    exact ⟨type, referred, isType, value, converted, isValue, (), _, ⟨free, rfl⟩, rfl, rfl⟩

/-- A constant that is linked was linked before, or it is added behind those that its literal
names. -/
theorem linkConstant_eq_ok {bound : Nat} {above : List String} {definition : ConstantDefinition}
    {value : Value} :
    scope.linkConstant bound above document definition linking = .ok (value, later) ↔
      (∃ linked, linking.schema.constant? (document.qualified definition.name) = some linked ∧
        linked.value = value ∧ linking = later) ∨
      linking.schema.constant? (document.qualified definition.name) = none ∧
        document.qualified definition.name ∉ above ∧ ∃ fewer, bound = fewer + 1 ∧
          addConstant scope (scope.linkConstant fewer (document.qualified definition.name :: above))
            document definition linking = .ok (value, later) := by
  conv_lhs => unfold linkConstant
  simp only [bind_eq_ok, schema?_eq_ok]
  cases found : linking.schema.constant? (document.qualified definition.name) with
  | some known => simp [found, pure_eq_ok]
  | none =>
    by_cases repeated : document.qualified definition.name ∈ above
    · simp [found, repeated, fail_eq_ok]
    · cases bound with
      | zero => simp [found, repeated, fail_eq_ok]
      | succ bound => simp [found, repeated, addConstant, bind_eq_ok]

/-- The value of a constant that is linked already. -/
def recalled (scope : Scope) : Document → ConstantDefinition → LinkM Value :=
  scope.linkConstant 0 []

/-- A constant is recalled when it is linked. -/
theorem recalled_eq_ok {definition : ConstantDefinition} {value : Value} :
    scope.recalled document definition linking = .ok (value, later) ↔
      ∃ linked, linking.schema.constant? (document.qualified definition.name) = some linked ∧
        linked.value = value ∧ linking = later := by
  simp [recalled, linkConstant_eq_ok]

/-- A constant that is recalled leaves the state alone, so the step keeps whatever is reflexive. -/
theorem stepwise_recalled {relation : Linking → Linking → Prop} [IsPreorder Linking relation] :
    ∀ home ∈ scope.documents, ∀ definition, .constant definition ∈ home.definitions →
      Stepwise relation (scope.recalled home definition) := by
  intro home _ definition _ linking result later ran
  obtain ⟨_, _, _, rfl⟩ := recalled_eq_ok.mp ran
  exact refl_of relation linking

/-- The literal of a default becomes a value with the constants of a state alone. -/
def Converts (scope : Scope) (linking : Linking) (pending : PendingDefault) (value : Value) :
    Prop :=
  scope.convert scope.recalled
    ⟨pending.document, pending.span, pending.owner ++ "." ++ pending.name⟩ pending.literal
    pending.type linking = .ok (value, linking)

/-- A constant comes from a definition of the documents. Its literal becomes its value with the
constants of a state alone. -/
structure Origin (scope : Scope) (before : Linking) (document : Document)
    (definition : ConstantDefinition) (constant : Constant) : Prop where
  member : document ∈ scope.documents
  isDefinition : .constant definition ∈ document.definitions
  name : document.qualified definition.name = constant.name
  type : scope.resolve document definition.type = .ok constant.type
  value : scope.convert scope.recalled ⟨document, definition.span, constant.name⟩ definition.value
    constant.type before = .ok (constant.value, before)

/-- A state in which all typedefs are linked and each constant rests on those in front of it. -/
structure Grounded (scope : Scope) (linking : Linking) : Prop where
  typedefs : scope.HasTypedefs linking.schema
  origins : ∀ {front constant back}, linking.schema.constants = front ++ constant :: back →
    ∃ before, before.Precedes linking ∧ before.schema.constants = front ∧
      ∃ document definition, scope.Origin before document definition constant

namespace Grounded

/-- Every constant comes from a definition of the documents. -/
theorem exists_origin (grounded : scope.Grounded linking) {constant : Constant}
    (isThere : constant ∈ linking.schema.constants) :
    ∃ before document definition, scope.Origin before document definition constant := by
  obtain ⟨front, back, split⟩ := List.append_of_mem isThere
  obtain ⟨before, -, -, origin⟩ := grounded.origins split
  exact ⟨before, origin⟩

/-- A state is grounded when its constants were so in an earlier one. -/
theorem precedes (grounded : scope.Grounded linking) (precedes : linking.Precedes later)
    (same : later.schema.constants = linking.schema.constants) : scope.Grounded later where
  typedefs := grounded.typedefs.survives precedes.types
  origins isThere := by
    rw [same] at isThere
    obtain ⟨before, isBefore, others⟩ := grounded.origins isThere
    exact ⟨before, isBefore.trans precedes, others⟩

/-- A constant may be added that rests on those that are there. -/
theorem plus (grounded : scope.Grounded linking) {definition : ConstantDefinition}
    {constant : Constant} (origin : scope.Origin linking document definition constant) :
    scope.Grounded (linking.plus [constant]) where
  typedefs := grounded.typedefs
  origins {front last back} isThere := by
    have precedes := Precedes.plus linking [constant]
    have split : linking.schema.constants ++ [constant] = front ++ last :: back := isThere
    rcases List.eq_nil_or_concat back with rfl | ⟨rest, final, rfl⟩
    · obtain ⟨rfl, same⟩ := List.append_inj' split rfl
      obtain rfl : constant = last := List.singleton_inj.mp same
      exact ⟨linking, precedes, rfl, document, definition, origin⟩
    · have regrouped : linking.schema.constants ++ [constant] =
          (front ++ last :: rest) ++ [final] := by
        rw [split]
        simp
      obtain ⟨before, -⟩ := List.append_inj' regrouped rfl
      obtain ⟨earlier, isEarlier, others⟩ := grounded.origins before
      exact ⟨earlier, isEarlier.trans precedes, others⟩

end Grounded

/-- A step that adds nothing but grounded constants, while its twin gives the same in every later
state and leaves it alone. -/
def Lasts (scope : Scope) {α : Type} (step twin : LinkM α) : Prop :=
  ∀ {linking later : Linking} {result : α}, scope.Grounded linking →
    step linking = .ok (result, later) → scope.Grounded later ∧
      (∃ more, later = linking.plus more) ∧
        ∀ last, later.Precedes last → twin last = .ok (result, last)

/-- What lasts of the parts of a run lasts of the run.

Proof: a run of two steps adds what both add, and what lasts of the first one lasts in every state
behind the second. A step that reads the schema reads another one later, which survives what was
added, so it goes on in the same way. -/
theorem mirroring_lasts (scope : Scope) : Mirroring (fun _ => True) scope.Lasts where
  pure value := by
    intro linking later result grounded ran
    obtain ⟨rfl, rfl⟩ := pure_eq_ok.mp ran
    exact ⟨grounded, ⟨[], by simp⟩, fun _ _ => rfl⟩
  fail error twin := by
    intro linking later result _ ran
    exact (fail_eq_ok.mp ran).elim
  bind first second := by
    intro linking later result grounded ran
    obtain ⟨middle, between, here, there⟩ := bind_eq_ok.mp ran
    obtain ⟨groundedBetween, ⟨more, rfl⟩, lasts⟩ := first grounded here
    obtain ⟨groundedLater, ⟨others, rfl⟩, lastsBehind⟩ := second middle groundedBetween there
    refine ⟨groundedLater, ⟨more ++ others, by simp⟩, fun last precedes => ?_⟩
    have isFirst := lasts last ((Precedes.plus _ others).trans precedes)
    exact bind_eq_ok.mpr ⟨middle, last, isFirst, lastsBehind last precedes⟩
  schema each := by
    intro linking later result grounded ran
    obtain ⟨_, _, isSchema, ran⟩ := bind_eq_ok.mp ran
    obtain ⟨rfl, rfl⟩ := schema?_eq_ok.mp isSchema
    obtain ⟨groundedLater, ⟨more, rfl⟩, -⟩ := each (Schema.SurvivesIn.refl _).tells grounded ran
    refine ⟨groundedLater, ⟨more, rfl⟩, fun last precedes => ?_⟩
    have survives := ((Precedes.plus linking more).trans precedes).types
    obtain ⟨-, -, lasts⟩ := each survives.tells grounded ran
    exact bind_eq_ok.mpr ⟨last.schema, last, rfl, lasts last precedes⟩

/-- A literal becomes its value ever after, with the constants that are linked already. -/
theorem lasts_convert {context : LiteralContext} (member : context.document ∈ scope.documents)
    {constant : Document → ConstantDefinition → LinkM Value}
    (constants : ∀ home ∈ scope.documents, ∀ definition, .constant definition ∈ home.definitions →
      scope.Lasts (constant home definition) (scope.recalled home definition))
    (literal : Literal) (type : DataType) :
    scope.Lasts (scope.convert constant context literal type)
      (scope.convert scope.recalled context literal type) := by
  have twice : ConvertedTwice (fun _ => True) scope.Lasts scope scope id constant scope.recalled
      context :=
    .of_counterparts (.refl scope) (mirroring_lasts scope) member constants
  intro linking later result grounded ran
  exact mirrors_convert twice literal trivial grounded ran

/-- A constant that is linked can be recalled ever after. The induction is on the bound: the
constants that its literal names are linked with a smaller one. -/
theorem lasts_linkConstant {bound : Nat} {above : List String}
    (member : document ∈ scope.documents) {definition : ConstantDefinition}
    (isDefinition : .constant definition ∈ document.definitions) :
    scope.Lasts (scope.linkConstant bound above document definition)
      (scope.recalled document definition) := by
  induction bound using Nat.strongRecOn generalizing above document definition with
  | ind bound inductionHypothesis =>
    intro linking later value grounded ran
    rcases linkConstant_eq_ok.mp ran with ⟨linked, found, rfl, rfl⟩ | ⟨-, -, fewer, rfl, added⟩
    · exact ⟨grounded, ⟨[], by simp⟩, fun last precedes =>
        recalled_eq_ok.mpr ⟨linked, precedes.constant? found, rfl, rfl⟩⟩
    · obtain ⟨type, referred, isType, converted, isValue, free, rfl⟩ := addConstant_eq_ok.mp added
      obtain ⟨resolved, rfl⟩ := (grounded.typedefs.linkReference_eq_ok member).mp isType
      have each : ∀ home ∈ scope.documents, ∀ other, .constant other ∈ home.definitions →
          scope.Lasts
            (scope.linkConstant fewer (document.qualified definition.name :: above) home other)
            (scope.recalled home other) := by
        intro home isHome other isOther
        exact inductionHypothesis fewer fewer.lt_succ_self isHome isOther
      obtain ⟨groundedNow, ⟨more, rfl⟩, lasts⟩ := lasts_convert member each _ _ grounded isValue
      have origin : scope.Origin (linking.plus more) document definition
          ⟨document.qualified definition.name, type, value⟩ :=
        ⟨member, isDefinition, rfl, resolved, lasts _ (.refl _)⟩
      refine ⟨groundedNow.plus origin, ⟨_, plus_plus _ _ _⟩, fun last precedes => ?_⟩
      exact recalled_eq_ok.mpr ⟨_, precedes.constant? (constant?_plus free), rfl, rfl⟩

/-- The constants among some definitions that are linked one after another are grounded, and each of
them is found behind the last one.

Proof: by induction on the definitions. A constant that is linked keeps the state grounded and adds
constants to it, among them its own, which can be recalled ever after; other definitions are passed
over. -/
theorem grounded_linkConstants {pairs : List (Document × Definition)}
    (known : pairs ⊆ scope.definitions) {linking later : Linking} {result : Unit}
    (grounded : scope.Grounded linking)
    (ran : (pairs.forM fun pair => scope.linkIfConstant pair.1 pair.2) linking =
      .ok (result, later)) :
    scope.Grounded later ∧ (∃ more, later = linking.plus more) ∧
      ∀ document definition, (document, .constant definition) ∈ pairs →
        ∃ linked, later.schema.constant? (document.qualified definition.name) = some linked := by
  induction pairs generalizing linking with
  | nil =>
    obtain ⟨-, rfl⟩ := pure_eq_ok.mp ran
    exact ⟨grounded, ⟨[], by simp⟩, by simp⟩
  | cons pair rest inductionHypothesis =>
    obtain ⟨between, here, there⟩ := forM_cons_eq_ok.mp ran
    obtain ⟨member, isFound⟩ := mem_definitions.mp (known List.mem_cons_self)
    have behind {between : Linking} (grounded : scope.Grounded between) :=
      @inductionHypothesis (List.subset_of_cons_subset known) between grounded
    obtain ⟨document, found⟩ := pair
    cases found with
    | constant definition =>
      obtain ⟨value, _, linked, same⟩ := bind_eq_ok.mp here
      obtain ⟨-, rfl⟩ := pure_eq_ok.mp same
      obtain ⟨groundedNow, ⟨more, rfl⟩, lasts⟩ :=
        lasts_linkConstant member isFound grounded linked
      obtain ⟨groundedLater, ⟨others, rfl⟩, each⟩ := behind groundedNow there
      refine ⟨groundedLater, ⟨more ++ others, by simp⟩, fun home other isThere => ?_⟩
      rcases List.mem_cons.mp isThere with same | isBehind
      · obtain ⟨rfl, sameFound⟩ := Prod.mk.inj same
        obtain rfl := Definition.constant.inj sameFound
        obtain ⟨constant, isConstant, -⟩ := recalled_eq_ok.mp (lasts _ (.plus _ others))
        exact ⟨constant, isConstant⟩
      · exact each home other isBehind
    | _ =>
      obtain ⟨-, rfl⟩ := pure_eq_ok.mp here
      obtain ⟨groundedLater, more, each⟩ := behind grounded there
      refine ⟨groundedLater, more, fun home other isThere => each home other ?_⟩
      simpa using isThere

end Scope

end SchemaCodec
