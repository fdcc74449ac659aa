import SchemaCodec.Proofs.ClosedGraph
import SchemaCodec.Proofs.RoutedDefaults
import SchemaCodec.Proofs.TypedLiterals

/-!
# Constants and defaults are well typed

Every constant holds a value that fits its type, and every default fits the type of its field: each
conversion yields a value of the type that was asked for, and a default comes back to the field for
which it was converted.
-/

namespace SchemaCodec

open Linking

namespace Scope

/-- A default of a field fits the field's type, and the literal of a default means it that waited
for the field of the owner. -/
def Supplied (base linking : Linking) (owner : String) (field : Field) : Prop :=
  ∀ value ∈ field.default, linking.schema.Fits value field.type ∧
    ∃ pending ∈ base.pending, pending.owner = owner ∧ pending.id = field.id ∧
      pending.literal.Means value

/-- A document writes a constant, and its literal means the value. The constant goes by its
qualified name, and nothing is said about the order in which documents or definitions are linked. -/
def WritesConstant (documents : List Document) (constant : Constant) : Prop :=
  ∃ document ∈ documents, ∃ definition, .constant definition ∈ document.definitions ∧
    document.qualified definition.name = constant.name ∧ definition.value.Means constant.value

/-- A state in which all constants and all defaults fit. It completes the one behind the first
pass. -/
structure Typed (scope : Scope) (base linking : Linking) : Prop where
  sound : scope.Sound linking
  completes : base.Completes linking
  constants : ∀ constant ∈ linking.schema.constants,
    linking.schema.Fits constant.value constant.type ∧ WritesConstant scope.documents constant
  fields : ∀ declared ∈ linking.schema.types, ∀ fields, declared.fields? = some fields →
    ∀ field ∈ fields, Supplied base linking declared.name field
  arguments : ∀ service ∈ linking.schema.services, ∀ method ∈ service.methods,
    ∀ field ∈ method.arguments, Supplied base linking method.argumentsStruct field

variable {scope : Scope} {base linking later : Linking}

/-- A default keeps fitting. -/
theorem Supplied.completes {owner : String} {field : Field}
    (supplied : Supplied base linking owner field) (completes : linking.Completes later) :
    Supplied base later owner field := fun value isDefault =>
  ⟨completes.survives.fits (supplied value isDefault).1, (supplied value isDefault).2⟩

/-- All constants and defaults keep fitting when typedefs are added.

Proof: typedefs have neither fields nor values, so the constants, the fields and the arguments are
those of before. They fit as before, since types that were there survive. -/
theorem Typed.gains (typed : scope.Typed base linking) (advance : scope.Advance linking later)
    (gains : scope.Gains linking later {}) : scope.Typed base later := by
  have completes := Linking.Completes.of_gains gains
  refine ⟨advance.sound typed.sound, typed.completes.trans completes, ?_, ?_, ?_⟩
  · intro constant isConstant
    rw [gains.constants] at isConstant
    obtain ⟨fits, written⟩ := typed.constants constant isConstant
    exact ⟨completes.survives.fits fits, written⟩
  · intro declared isDeclared fields isFields field isField
    obtain ⟨types, same, -, origin⟩ := gains.types
    rw [same] at isDeclared
    rcases List.mem_append.mp isDeclared with before | added
    · exact (typed.fields declared before fields isFields field isField).completes completes
    · rcases origin declared added with nothing | ⟨_, _, _, _, _, _, rfl⟩
      · simp at nothing
      · simp [TypeDeclaration.fields?] at isFields
  · intro service isService method isMethod field isField
    rw [gains.services, List.append_nil] at isService
    exact (typed.arguments service isService method isMethod field isField).completes completes

/-- A constant that fits may be added. -/
theorem Typed.addConstant (typed : scope.Typed base linking) {document : Document} {span : Span}
    {constant : Constant} {result : Unit} (proceeds : scope.Proceeds linking later)
    (ran : insertConstant document span constant linking = .ok (result, later))
    (fits : linking.schema.Fits constant.value constant.type)
    (written : WritesConstant scope.documents constant) : scope.Typed base later := by
  have completes := proceeds.completes
  obtain ⟨-, rfl⟩ := insertConstant_eq_ok.mp ran
  refine ⟨proceeds.advance.sound typed.sound, typed.completes.trans completes, ?_, ?_, ?_⟩
  · intro other isOther
    rcases List.mem_append.mp isOther with before | here
    · obtain ⟨otherFits, alsoWritten⟩ := typed.constants other before
      exact ⟨completes.survives.fits otherFits, alsoWritten⟩
    · obtain rfl := List.mem_singleton.mp here
      exact ⟨completes.survives.fits fits, written⟩
  · intro declared isDeclared fields isFields field isField
    exact (typed.fields declared isDeclared fields isFields field isField).completes completes
  · intro service isService method isMethod field isField
    exact (typed.arguments service isService method isMethod field isField).completes completes

section Filling

variable {pending : PendingDefault} {value : Value}

/-- A field that takes a default of its own type, or none, is supplied. -/
theorem Supplied.withDefault {owner : String} {field : Field}
    (supplied : Supplied base linking owner field) (waits : pending ∈ base.pending)
    (isOwner : pending.owner = owner) (sameType : field.id = pending.id → field.type = pending.type)
    (fits : linking.schema.Fits value pending.type) (means : pending.literal.Means value) :
    Supplied base linking owner (field.withDefault pending.id value) := by
  unfold Field.withDefault
  split
  · next sameId =>
    intro held isDefault
    obtain rfl := Option.some.inj isDefault
    exact ⟨sameType sameId ▸ fits, pending, waits, isOwner, sameId.symm, means⟩
  · exact supplied

/-- A default reaches all fields of a declared type. -/
theorem fields?_withDefault (id : Int16) (value : Value) (declared : TypeDeclaration) :
    (declared.withDefault id value).fields? =
      declared.fields?.map (List.map (Field.withDefault id value)) := by
  cases declared <;> rfl

/-- A default that fits may be filled in where it is routed.

Proof: constants keep fitting, since a default changes no type. A field of the owner was without a
default or is the one that takes it, and then the default fits the type of the field; likewise for
the arguments of the method to which it is addressed. All others are as before. -/
theorem Typed.withDefault (typed : scope.Typed base linking) (waits : pending ∈ base.pending)
    (routed : linking.Routed pending) (fits : linking.schema.Fits value pending.type)
    (means : pending.literal.Means value) : scope.Typed base
      { linking with schema := linking.schema.withDefault pending value } := by
  have completes := completes_withDefault linking pending value
  refine ⟨⟨typed.sound.schema.withDefault pending value, typed.sound.pending⟩,
    typed.completes.trans completes, fun constant isConstant => ?_,
    fun declared isDeclared fields isFields field isField => ?_,
    fun service isService method isMethod field isField => ?_⟩
  · obtain ⟨isFit, written⟩ := typed.constants constant isConstant
    exact ⟨completes.survives.fits isFit, written⟩
  · rw [typed.sound.schema.indexed.types_withDefault] at isDeclared
    obtain ⟨before, isBefore, rfl⟩ := List.mem_map.mp isDeclared
    by_cases owns : before.name = pending.owner
    · rw [if_pos owns] at isFields ⊢
      rw [fields?_withDefault] at isFields
      obtain ⟨others, isOthers, rfl⟩ := Option.map_eq_some_iff.mp isFields
      obtain ⟨other, isOther, rfl⟩ := List.mem_map.mp isField
      rw [Schema.name_withDefault]
      have supplied := typed.fields before isBefore others isOthers other isOther
      exact (supplied.withDefault waits owns.symm
        (routed.field before isBefore owns others isOthers other isOther) fits means).completes
          completes
    · rw [if_neg owns] at isFields ⊢
      exact (typed.fields before isBefore fields isFields field isField).completes completes
  · have unchanged {service : Service} (isService : service ∈ linking.schema.services)
        {method : Method} (isMethod : method ∈ service.methods) {field : Field}
        (isField : field ∈ method.arguments) :
        Supplied base { linking with schema := linking.schema.withDefault pending value }
          method.argumentsStruct field :=
      (typed.arguments service isService method isMethod field isField).completes completes
    rw [typed.sound.schema.indexed.services_withDefault] at isService
    split at isService
    · exact unchanged isService isMethod isField
    · next name called isCalled =>
      obtain ⟨before, isBefore, rfl⟩ := List.mem_map.mp isService
      by_cases owns : before.name = name
      · rw [if_pos owns] at isMethod
        obtain ⟨old, isOld, rfl⟩ := List.mem_map.mp isMethod
        by_cases named : old.name = called
        · rw [if_pos named] at isField ⊢
          obtain ⟨other, isOther, rfl⟩ := List.mem_map.mp isField
          obtain ⟨isOwner, among⟩ :=
            routed.argument before isBefore old isOld (by rw [owns, named, isCalled])
          have supplied := typed.arguments before isBefore old isOld other isOther
          exact (supplied.withDefault waits isOwner (among other isOther) fits means).completes
            completes
        · rw [if_neg named] at isField ⊢
          exact unchanged isBefore isOld isField
      · rw [if_neg owns] at isMethod
        exact unchanged isBefore isMethod isField

end Filling

/-- A step of constants and defaults that keeps all of them fitting. -/
structure Retains (scope : Scope) (base linking later : Linking) : Prop where
  proceeds : scope.Proceeds linking later
  typed : scope.Typed base linking → scope.Typed base later

/-- Steps that keep all constants and defaults fitting do so one behind another. -/
instance : IsPreorder Linking (scope.Retains base) where
  refl linking := ⟨refl_of scope.Proceeds linking, id⟩
  trans _ _ _ first second :=
    ⟨trans_of scope.Proceeds first.proceeds second.proceeds, second.typed ∘ first.typed⟩

/-- A constant that is added keeps all constants and defaults fitting.

Proof: the run refers to the type, converts the literal and adds the constant. The first two keep
what was there, and what the literal became fits the type and means the literal, so the constant
that is added does too. -/
theorem retains_addConstant {constant : Document → ConstantDefinition → LinkM Value}
    (linked : ∀ home ∈ scope.documents, ∀ definition, .constant definition ∈ home.definitions →
      Stepwise (scope.Retains base) (constant home definition))
    (document : Document) (member : document ∈ scope.documents)
    (definition : ConstantDefinition) (isDefinition : .constant definition ∈ document.definitions) :
    Stepwise (scope.Retains base) (addConstant scope constant document definition) := by
  have proceeding : ∀ home ∈ scope.documents, ∀ definition,
      .constant definition ∈ home.definitions →
        Stepwise scope.Proceeds (constant home definition) :=
    fun home isHome other isOther linking result later ran =>
      (linked home isHome other isOther linking result later ran).proceeds
  intro linking result later ran
  simp only [addConstant, bind_eq_ok, pure_eq_ok] at ran
  obtain ⟨type, referred, isType, value, between, isValue, _, last, added, -, rfl⟩ := ran
  obtain ⟨advance, offered⟩ := advance_linkReference member isType
  obtain ⟨-, gains⟩ := gains_linkReference member isType
  have first : scope.Retains base linking referred :=
    ⟨⟨advance, .of_gains gains⟩, fun typed => typed.gains advance gains⟩
  have second := stepwise_convert member linked _ _ _ _ _ isValue
  have third : scope.Proceeds between last :=
    ⟨advance_insertConstant added offered, completes_insertConstant added⟩
  have both := trans_of (scope.Retains base) first second
  refine ⟨trans_of scope.Proceeds both.proceeds third, fun typed => ?_⟩
  obtain ⟨fits, means⟩ :=
    typed_convert member proceeding _ _ (advance.sound typed.sound) isValue
  exact (both.typed typed).addConstant third added fits
    ⟨document, member, definition, isDefinition, rfl, means⟩

/-- The constants of all documents fit. -/
theorem retains_linkConstants : Stepwise (scope.Retains base) (scope.documents.forM fun document =>
    document.definitions.forM (scope.linkIfConstant document)) :=
  stepwise_linkConstants retains_addConstant

/-- A default that is converted and filled in where it is routed keeps all of them fitting.

Proof: the literal is converted, which keeps everything fitting, and what it becomes fits the type
for which it waits. It is then filled in where it is routed, and routing lasts while declarations
are added. -/
theorem retains_linkDefault {typed settled last : Linking}
    (passes : scope.Passes typed settled last)
    {pending : PendingDefault} (waits : pending ∈ typed.pending)
    (linked : ∀ home ∈ scope.documents, ∀ definition, .constant definition ∈ home.definitions →
      Stepwise (scope.Retains typed) (scope.linkConstant (scope.size + 1) [] home definition))
    {value : Value} (ran : scope.convertDefault pending linking = .ok (value, later)) :
    scope.Retains typed linking
      { later with schema := later.schema.withDefault pending value } := by
  have proceeding : ∀ home ∈ scope.documents, ∀ definition,
      .constant definition ∈ home.definitions →
        Stepwise scope.Proceeds (scope.linkConstant (scope.size + 1) [] home definition) :=
    fun home isHome other isOther linking result later ran =>
      (linked home isHome other isOther linking result later ran).proceeds
  have member := passes.typedSound.pending pending waits
  have first := stepwise_convert member linked _ _ _ _ _ ran
  have second : scope.Proceeds later
      { later with schema := later.schema.withDefault pending value } :=
    ⟨advance_withDefault later pending value, completes_withDefault later pending value⟩
  refine ⟨trans_of scope.Proceeds first.proceeds second, fun isTyped => ?_⟩
  obtain ⟨fits, means⟩ := typed_convert member proceeding _ _ isTyped.sound ran
  have typedLater := first.typed isTyped
  have routed := (passes.routed waits).1.completes typedLater.completes
  exact typedLater.withDefault waits routed fits means

/-- Fields that follow their definitions have no defaults yet. -/
theorem FieldsFollow.noDefault {document : Document} {allOptional : Bool}
    {definitions : List FieldDefinition} {fields : List Field}
    (follow : scope.FieldsFollow document allOptional definitions fields) :
    ∀ field ∈ fields, field.default = none := by
  intro field isField
  obtain ⟨_, -, follows⟩ := Pairing.exists_of_mem_right follow.each isField
  exact follows.default

/-- The structs in which a method travels have no defaults yet. -/
theorem MethodFollows.noDefault {document : Document} {service : String}
    {definition : FunctionDefinition} {method : Method}
    (follows : scope.MethodFollows document service definition method) :
    ∀ declared ∈ method.structs, ∀ fields, declared.fields? = some fields →
      ∀ field ∈ fields, field.default = none := by
  intro declared isStruct fields isFields field isField
  rcases List.mem_cons.mp isStruct with rfl | isResult
  · obtain rfl := Option.some.inj isFields
    exact follows.arguments.noDefault field isField
  · obtain ⟨result, -, rfl⟩ := Option.map_eq_some_iff.mp (Option.mem_toList.mp isResult)
    obtain rfl := Option.some.inj isFields
    unfold resultFields at isField
    split at isField
    · exact follows.throws.noDefault field isField
    · rcases List.mem_cons.mp isField with rfl | isThrown
      · rfl
      · exact follows.throws.noDefault field isThrown

/-- What a definition adds has no defaults yet.

Proof: by the kind of the definition. The fields that follow from definitions of fields have no
defaults yet, and these are the fields of records and the arguments and exceptions of methods. -/
theorem Declares.noDefault {document : Document} {found : Definition} {added : Additions}
    (declares : scope.Declares document found added) :
    (∀ declared ∈ added.types, ∀ fields, declared.fields? = some fields →
      ∀ field ∈ fields, field.default = none) ∧
    ∀ service ∈ added.services, ∀ method ∈ service.methods,
      ∀ field ∈ method.arguments ++ method.throws, field.default = none := by
  cases declares with
  | constant | typedef => simp
  | enum => simp [TypeDeclaration.fields?]
  | struct definition fields follow | exception definition fields follow
  | union definition fields follow =>
    simpa [TypeDeclaration.fields?] using follow.noDefault
  | service definition parent methods extended follow =>
    constructor
    · intro declared isDeclared
      simp only [Additions.append, List.append_nil, methodsAdditions, Additions.all,
        List.mem_flatMap, List.mem_map] at isDeclared
      obtain ⟨_, ⟨⟨function, method⟩, beside, rfl⟩, isStruct⟩ := isDeclared
      exact ((List.forall₂_iff_zip.mp follow.each).2 beside).noDefault declared isStruct
    · intro service isService method isMethod
      simp only [Additions.append, services_methodsAdditions, List.nil_append,
        List.mem_singleton] at isService
      subst isService
      obtain ⟨function, -, follows⟩ := Pairing.exists_of_mem_right follow.each isMethod
      exact List.forall_mem_append.mpr ⟨follows.arguments.noDefault, follows.throws.noDefault⟩

/-- After the first pass no field has a default.

Proof: what the first pass leaves was added by the definitions, or is a typedef. No definition adds
a field with a default, and a typedef has no fields. -/
theorem Passes.noDefault {typed settled last : Linking}
    (passes : scope.Passes typed settled last) :
    (∀ declared ∈ typed.schema.types, ∀ fields, declared.fields? = some fields →
      ∀ field ∈ fields, field.default = none) ∧
    ∀ service ∈ typed.schema.services, ∀ method ∈ service.methods,
      ∀ field ∈ method.arguments ++ method.throws, field.default = none := by
  obtain ⟨additions, each, gains⟩ := passes.gains
  constructor
  · intro declared isDeclared fields isFields field isField
    obtain ⟨types, same, -, origin⟩ := gains.types
    rw [same] at isDeclared
    rcases origin declared isDeclared with added | ⟨_, _, _, _, _, _, rfl⟩
    · obtain ⟨addition, isAddition, here⟩ := List.mem_flatMap.mp added
      obtain ⟨_, -, declares⟩ := Pairing.exists_of_mem_right each isAddition
      exact declares.noDefault.1 declared here fields isFields field isField
    · simp [TypeDeclaration.fields?] at isFields
  · intro service isService
    rw [gains.services] at isService
    obtain ⟨addition, isAddition, here⟩ := List.mem_flatMap.mp isService
    obtain ⟨_, -, declares⟩ := Pairing.exists_of_mem_right each isAddition
    exact declares.noDefault.2 service here

/-- After the first pass no field has a default, and there are no constants. -/
theorem Passes.typedTyped {typed settled last : Linking}
    (passes : scope.Passes typed settled last) :
    scope.Typed typed typed := by
  obtain ⟨additions, -, gains⟩ := passes.gains
  obtain ⟨inTypes, inServices⟩ := passes.noDefault
  have supplied {owner : String} {field : Field} (noDefault : field.default = none) :
      Supplied typed typed owner field := by
    simp [Supplied, noDefault]
  refine ⟨passes.typedSound, .refl typed, ?_,
    fun declared isDeclared fields isFields field isField =>
      supplied (inTypes declared isDeclared fields isFields field isField),
    fun service isService method isMethod field isField =>
      supplied (inServices service isService method isMethod field
        (List.mem_append_left _ isField))⟩
  rw [gains.constants]
  simp

/-- After the last pass all constants and all defaults fit. -/
theorem Passes.lastTyped {typed settled last : Linking} (passes : scope.Passes typed settled last) :
    scope.Typed typed last := by
  have isSettled := (retains_linkConstants _ _ _ passes.constants).typed passes.typedTyped
  have defaults := passes.defaults
  rw [isSettled.completes.pending] at defaults
  refine (stepwise_linkDefaults retains_addConstant ?_ _ _ _ defaults).typed isSettled
  exact fun pending waits linked linking value later ran =>
    retains_linkDefault passes waits linked ran

end Scope

/-- A value is accepted for a type under every limit on depth that its nesting leaves room for. -/
def Schema.Accepts (schema : Schema) (value : Value) (type : DataType) : Prop :=
  ∀ limit, value.nesting ≤ limit → schema.checkValue limit value type 0 = .ok ()

/-- A document writes a default for the field of an owner, and its literal means the value. -/
def WritesDefault (documents : List Document) (owner : String) (id : Int16) (value : Value) :
    Prop :=
  ∃ document ∈ documents, ∃ field, document.WritesField owner field ∧ field.id = id ∧
    ∃ literal, field.default = some literal ∧ literal.Means value

/-- The values in a linked schema are well typed and say what the documents mean. Every constant and
every default of a field or argument is accepted for its type, and integers in them, at any depth,
are exactly those of the literals.

Proof: each pass keeps all values typed: a constant or a default is typed when it is converted, and
it stays so while declarations are added. A value that fits is accepted at every depth that its
nesting leaves room for, and a default comes from the definition that it waited for. -/
theorem linked_values_are_typed {documents : List Document} {schema : Schema}
    (linked : link documents = .ok schema) :
    (∀ constant ∈ schema.constants, schema.Accepts constant.value constant.type ∧
      Scope.WritesConstant documents constant) ∧
    (∀ declared ∈ schema.types, ∀ fields, declared.fields? = some fields → ∀ field ∈ fields,
      ∀ value ∈ field.default, schema.Accepts value field.type ∧
        WritesDefault documents declared.name field.id value) ∧
    ∀ service ∈ schema.services, ∀ method ∈ service.methods, ∀ argument ∈ method.arguments,
      ∀ value ∈ argument.default, schema.Accepts value argument.type ∧
        WritesDefault documents method.argumentsStruct argument.id value := by
  obtain ⟨scope, formed, typed, settled, last, passes, rfl⟩ := Scope.link_eq_ok.mp linked
  have isTyped := passes.lastTyped
  have accepts {value : Value} {type : DataType} (fits : last.schema.Fits value type) :
      last.schema.Accepts value type := fun limit room => fits.checkValue (by omega)
  obtain ⟨-, -, rfl⟩ := Scope.ofDocuments_eq_ok.mp formed
  have written {owner : String} {field : Field} {value : Value}
      (origin : ∃ pending ∈ typed.pending, pending.owner = owner ∧ pending.id = field.id ∧
        pending.literal.Means value) : WritesDefault documents owner field.id value := by
    obtain ⟨pending, waits, rfl, sameId, means⟩ := origin
    obtain ⟨-, document, isDocument, written, isWritten, isId, isDefault⟩ := passes.routed waits
    exact ⟨document, Scope.mem_of_mem_firstOfPaths isDocument, written, isWritten,
      isId.trans sameId, pending.literal, isDefault, means⟩
  refine ⟨fun constant isConstant => ?_,
    fun declared isDeclared fields isFields field isField value isDefault => ?_,
    fun service isService method isMethod argument isArgument value isDefault => ?_⟩
  · obtain ⟨fits, document, isDocument, written⟩ := isTyped.constants constant isConstant
    exact ⟨accepts fits, document, Scope.mem_of_mem_firstOfPaths isDocument, written⟩
  · obtain ⟨fits, origin⟩ :=
      isTyped.fields declared isDeclared fields isFields field isField value isDefault
    exact ⟨accepts fits, written origin⟩
  · obtain ⟨fits, origin⟩ :=
      isTyped.arguments service isService method isMethod argument isArgument value isDefault
    exact ⟨accepts fits, written origin⟩

/-- In the schema of the two documents, the limit is accepted as the default of the argument, as is
the color of items, and the bolt as an item. -/
theorem storeSchema_is_typed :
    storeSchema.Accepts (.i32 7) .i32 ∧
      storeSchema.Accepts (.enum 2 (some "BLUE")) (.enum "b.Color") ∧
        storeSchema.Accepts (.struct [(1, .string "bolt"), (2, .enum 1 (some "RED"))])
          (.struct "a.Item") := by
  obtain ⟨constants, fields, arguments⟩ := linked_values_are_typed link_storeDocument
  refine ⟨?_, ?_, ?_⟩
  · exact (arguments _ List.mem_cons_self _ List.mem_cons_self _ List.mem_cons_self _ rfl).1
  · have isItem := List.mem_of_getElem? (l := storeSchema.types) (i := 4) rfl
    exact (fields _ isItem _ rfl _ (List.mem_of_getElem? (i := 1) rfl) _ rfl).1
  · exact (constants _ List.mem_cons_self).1

end SchemaCodec
