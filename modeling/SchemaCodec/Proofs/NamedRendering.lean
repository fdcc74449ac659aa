import SchemaCodec.Proofs.ClosedGraph
import SchemaCodec.Proofs.Fitting
import SchemaCodec.Schema.Rendering

/-!
# Renderings by name

A rendering follows the schema when every value in it is shown as its type asks for: fields under
the names that are declared for their ids, the parts of containers as their own types ask for, and
enums as a member that has the number, or as the number where there is none. There is no rule for a
field without a name or a value in another form than that of its type. What fits a type is always
rendered so, on one line and over several.
-/

namespace SchemaCodec

/-- The text of a value without parts and names; the other values have none. -/
def Value.plainText? : Value → Option String
  | .bool held => some (if held then "true" else "false")
  | .byte number => some (toString number.toInt)
  | .i16 number => some (toString number.toInt)
  | .i32 number => some (toString number.toInt)
  | .i64 number => some (toString number.toInt)
  | .double number => some number.display
  | .string text => some (quoted text)
  | .binary bytes => some ("hex(" ++ hexPairs bytes ++ ")")
  | .list _ | .set _ | .map _ | .struct _ | .union _ _ | .enum _ _ => none

/-- A value that is kept on one line: no struct, no union, and no list with items. -/
def Value.OnOneLine : Value → Prop
  | .struct _ | .union _ _ | .list (_ :: _) => False
  | _ => True

/-- A number is shown as a member that has it, or as it is where no member has it. -/
def EnumType.Shows (declared : EnumType) (number : Int32) (text : String) : Prop :=
  (∃ member ∈ declared.members, member.number = number ∧ text = member.name) ∨
    (∀ member ∈ declared.members, member.number ≠ number) ∧ text = toString number.toInt

namespace Schema

variable {schema : Schema}

section OneLine

mutual

/-- The texts that show a value of a type on one line. There are rules for all kinds of values and
none for a raw form, so in a text that is shown all names are those of the schema. A number stands
for an enum only where no member has it. -/
inductive Shows (schema : Schema) : DataType → Value → String → Prop
  | plain {type value text} : value.plainText? = some text → Shows schema type value text
  | list {type element items texts} : schema.canonical type = .ok (.list element) →
      ShowsItems schema element items texts →
        Shows schema type (.list items) ("[" ++ ", ".intercalate texts ++ "]")
  | set {type element elements texts} : schema.canonical type = .ok (.set element) →
      ShowsItems schema element elements texts →
        Shows schema type (.set elements) ("\x7b" ++ ", ".intercalate texts ++ "\x7d")
  | map {type keyType valueType entries texts} :
      schema.canonical type = .ok (.map keyType valueType) →
        ShowsEntries schema keyType valueType entries texts →
          Shows schema type (.map entries) ("\x7b" ++ ", ".intercalate texts ++ "\x7d")
  | struct {type name declared fields texts} : schema.canonical type = .ok (.struct name) →
      schema.structType name = .ok declared → ShowsFields schema declared.fields fields texts →
        Shows schema type (.struct fields)
          (shortName name ++ " \x7b" ++ ", ".intercalate texts ++ "\x7d")
  | union {type name declared field id held text} : schema.canonical type = .ok (.union name) →
      schema.unionType name = .ok declared → field ∈ declared.fields → field.id = id →
        Shows schema field.type held text →
          Shows schema type (.union id held)
            (shortName name ++ " \x7b" ++ (field.name ++ ": " ++ text) ++ "\x7d")
  | enum {type name declared number label text} : schema.canonical type = .ok (.enum name) →
      schema.enumType name = .ok declared → declared.Shows number text →
        Shows schema type (.enum number label) text

/-- The texts that show values of one type. -/
inductive ShowsItems (schema : Schema) : DataType → List Value → List String → Prop
  | nil {type} : ShowsItems schema type [] []
  | cons {type item rest text texts} : Shows schema type item text →
      ShowsItems schema type rest texts → ShowsItems schema type (item :: rest) (text :: texts)

/-- The texts that show the entries of a map. -/
inductive ShowsEntries (schema : Schema) :
    DataType → DataType → List (Value × Value) → List String → Prop
  | nil {keyType valueType} : ShowsEntries schema keyType valueType [] []
  | cons {keyType valueType key value rest keyText valueText texts} :
      Shows schema keyType key keyText → Shows schema valueType value valueText →
        ShowsEntries schema keyType valueType rest texts →
          ShowsEntries schema keyType valueType ((key, value) :: rest)
            ((keyText ++ ": " ++ valueText) :: texts)

/-- The texts that show the fields of a struct, each under its declared name. -/
inductive ShowsFields (schema : Schema) :
    List Field → List (Int16 × Value) → List String → Prop
  | nil {declared} : ShowsFields schema declared [] []
  | cons {declared field id value rest text texts} : field ∈ declared → field.id = id →
      Shows schema field.type value text → ShowsFields schema declared rest texts →
        ShowsFields schema declared ((id, value) :: rest) ((field.name ++ ": " ++ text) :: texts)

end

/-- The fields of a known struct are those that it declares. -/
theorem structFields_eq {name : String} {declared : StructType}
    (named : schema.structType name = .ok declared) :
    schema.structFields name = declared.fields := by
  rw [structFields, named]

/-- The field of a known union is found among those that it declares. -/
theorem fieldById?_unionFields {name : String} {declared : UnionType} {id : Int16}
    (named : schema.unionType name = .ok declared) :
    fieldById? (schema.unionFields name) id = fieldById? declared.fields id := by
  rw [unionFields, named]

/-- An enum whose label passes the check is shown by a member of its number wherever there is one.

Proof: by the label and what is found for it. A label that passes the check is the name of a member
of the number. Without a label the first member of the number is shown, and where there is none, the
number is. -/
theorem shows_formatEnum {name : String} {declared : EnumType}
    (named : schema.enumType name = .ok declared) {number : Int32} {label : Option String}
    (checked : checkLabel declared number label = .ok ()) :
    declared.Shows number (schema.formatEnum name number label) := by
  unfold formatEnum
  rw [named]
  cases label with
  | some label =>
    unfold checkLabel at checked
    cases known : declared.memberByName? label with
    | none => simp [known] at checked
    | some member =>
      simp only [known, ite_eq_left_iff, reduceCtorEq, imp_false, not_not] at checked
      have sameName : member.name = label := by simpa using List.find?_some known
      exact .inl ⟨member, List.mem_of_find?_eq_some known, checked, sameName.symm⟩
  | none =>
    cases known : declared.memberByNumber? number with
    | some member =>
      have sameNumber : member.number = number := by simpa using List.find?_some known
      exact .inl ⟨member, List.mem_of_find?_eq_some known, sameNumber, by simp [known]⟩
    | none =>
      refine .inr ⟨fun member isMember => ?_, by simp [known]⟩
      simpa using List.find?_eq_none.mp known member isMember

section Equations

variable {type : DataType} {name : String}

/-- A list on one line, where its type is known to be one of lists. -/
theorem format_list {element : DataType} {items : List Value}
    (canonical : schema.canonical type = .ok (.list element)) :
    schema.format (.list items) type =
      "[" ++ ", ".intercalate (schema.formatItems items element) ++ "]" := by
  rw [Schema.format]
  rw [canonical]
  rfl

/-- A set on one line, where its type is known to be one of sets. -/
theorem format_set {element : DataType} {elements : List Value}
    (canonical : schema.canonical type = .ok (.set element)) :
    schema.format (.set elements) type =
      "\x7b" ++ ", ".intercalate (schema.formatItems elements element) ++ "\x7d" := by
  rw [Schema.format]
  rw [canonical]
  rfl

/-- A map on one line, where its type is known to be one of maps. -/
theorem format_map {keyType valueType : DataType} {entries : List (Value × Value)}
    (canonical : schema.canonical type = .ok (.map keyType valueType)) :
    schema.format (.map entries) type =
      "\x7b" ++ ", ".intercalate (schema.formatEntries entries keyType valueType) ++ "\x7d" := by
  rw [Schema.format]
  rw [canonical]
  rfl

/-- A struct on one line, where its type is known to be a struct. -/
theorem format_struct {declared : StructType} {fields : List (Int16 × Value)}
    (canonical : schema.canonical type = .ok (.struct name))
    (named : schema.structType name = .ok declared) :
    schema.format (.struct fields) type = shortName name ++ " \x7b" ++
      ", ".intercalate (schema.formatFields fields declared.fields) ++ "\x7d" := by
  rw [← structFields_eq named, Schema.format]
  rw [canonical]
  rfl

/-- A union on one line, where its type is known to be a union with the field. -/
theorem format_union {declared : UnionType} {id : Int16} {field : Field} {held : Value}
    (canonical : schema.canonical type = .ok (.union name))
    (named : schema.unionType name = .ok declared)
    (isField : fieldById? declared.fields id = some field) :
    schema.format (.union id held) type = shortName name ++ " \x7b" ++
      (field.name ++ ": " ++ schema.format held field.type) ++ "\x7d" := by
  have known := (fieldById?_unionFields named).trans isField
  conv_lhs => unfold Schema.format
  rw [canonical]
  simp only [Except.toOption, known]

/-- An enum on one line, where its type is known to be an enum. -/
theorem format_enum {number : Int32} {label : Option String}
    (canonical : schema.canonical type = .ok (.enum name)) :
    schema.format (.enum number label) type = schema.formatEnum name number label := by
  rw [Schema.format]
  rw [canonical]
  rfl

end Equations

mutual

/-- A value that fits its type is shown on one line as the schema says. The induction is on the
value. -/
theorem shows_format {limit : Nat} : ∀ {value : Value} {type : DataType} {depth : Nat},
    schema.checkValue limit value type depth = .ok () →
      schema.Shows type value (schema.format value type)
  | .bool _, _, _, _ | .byte _, _, _, _ | .i16 _, _, _, _ | .i32 _, _, _, _ | .i64 _, _, _, _
  | .double _, _, _, _ | .string _, _, _, _ | .binary _, _, _, _ => by
    rw [Schema.format]
    exact .plain rfl
  | .list items, type, depth, checked => by
    obtain ⟨-, behind, canonical, element, rfl, each⟩ := checkValue_eq_ok.mp checked
    rw [format_list canonical]
    exact .list canonical (shows_formatItems each)
  | .set elements, type, depth, checked => by
    obtain ⟨-, behind, canonical, element, rfl, each⟩ := checkValue_eq_ok.mp checked
    rw [format_set canonical]
    exact .set canonical (shows_formatItems each)
  | .map entries, type, depth, checked => by
    obtain ⟨-, behind, canonical, keyType, valueType, rfl, each⟩ := checkValue_eq_ok.mp checked
    rw [format_map canonical]
    exact .map canonical (shows_formatEntries each)
  | .struct fields, type, depth, checked => by
    obtain ⟨-, behind, canonical, name, declared, rfl, named, -, each⟩ :=
      checkValue_eq_ok.mp checked
    rw [format_struct canonical named]
    exact .struct canonical named (shows_formatFields each)
  | .union id held, type, depth, checked => by
    obtain ⟨-, behind, canonical, name, declared, field, rfl, named, known, fits⟩ :=
      checkValue_eq_ok.mp checked
    obtain ⟨member, sameId⟩ := mem_of_fieldById? known
    rw [format_union canonical named known]
    exact .union canonical named member sameId (shows_format fits)
  | .enum number label, type, depth, checked => by
    obtain ⟨-, behind, canonical, name, declared, rfl, named, labelled⟩ :=
      checkValue_eq_ok.mp checked
    rw [format_enum canonical]
    exact .enum canonical named (shows_formatEnum named labelled)

/-- Items that fit are each shown as the schema says. -/
theorem shows_formatItems {limit : Nat} : ∀ {items : List Value} {type : DataType} {depth : Nat},
    (∀ item ∈ items, schema.checkValue limit item type depth = .ok ()) →
      schema.ShowsItems type items (schema.formatItems items type)
  | [], _, _, _ => .nil
  | _ :: _, _, _, each =>
    have ⟨here, others⟩ := List.forall_mem_cons.mp each
    .cons (shows_format here) (shows_formatItems others)

/-- Entries that fit are each shown as the schema says. -/
theorem shows_formatEntries {limit : Nat} :
    ∀ {entries : List (Value × Value)} {keyType valueType : DataType} {depth : Nat},
      (∀ entry ∈ entries, schema.checkValue limit entry.1 keyType depth = .ok () ∧
        schema.checkValue limit entry.2 valueType depth = .ok ()) →
          schema.ShowsEntries keyType valueType entries
            (schema.formatEntries entries keyType valueType)
  | [], _, _, _, _ => .nil
  | (_, _) :: _, _, _, _, each =>
    have ⟨⟨key, value⟩, others⟩ := List.forall_mem_cons.mp each
    .cons (shows_format key) (shows_format value) (shows_formatEntries others)

/-- Fields that are declared and fit are each shown under their names. -/
theorem shows_formatFields {limit : Nat} :
    ∀ {fields : List (Int16 × Value)} {declared : List Field} {depth : Nat},
      (∀ field ∈ fields, ∃ found, fieldById? declared field.1 = some found ∧
        schema.checkValue limit field.2 found.type depth = .ok ()) →
          schema.ShowsFields declared fields (schema.formatFields fields declared)
  | [], _, _, _ => .nil
  | (id, value) :: rest, declared, depth, each => by
    obtain ⟨⟨field, known, fits⟩, others⟩ := List.forall_mem_cons.mp each
    obtain ⟨member, sameId⟩ := mem_of_fieldById? known
    rw [formatFields]
    simp only at known
    rw [known]
    exact .cons member sameId (shows_format fits) (shows_formatFields others)

end

end OneLine

section Lines

mutual

/-- The texts that show a value of a type over several lines. -/
inductive Dumps (schema : Schema) : DataType → Value → Nat → String → Prop
  | line {type value indent text} : value.OnOneLine → schema.Shows type value text →
      Dumps schema type value indent (padding indent ++ text)
  | list {type element item rest indent lines} : schema.canonical type = .ok (.list element) →
      DumpsItems schema element (item :: rest) indent 0 lines →
        Dumps schema type (.list (item :: rest)) indent
          ("\n".intercalate ((padding indent ++ "[") :: lines ++ [padding indent ++ "]"]))
  | struct {type name declared fields indent lines} :
      schema.canonical type = .ok (.struct name) → schema.structType name = .ok declared →
        DumpsFields schema declared.fields fields (indent + 1) lines →
          Dumps schema type (.struct fields) indent
            ("\n".intercalate ((padding indent ++ shortName name ++ " \x7b") :: lines ++
              [padding indent ++ "\x7d"]))
  | union {type name declared field id held indent text} :
      schema.canonical type = .ok (.union name) → schema.unionType name = .ok declared →
        field ∈ declared.fields → field.id = id →
          Dumps schema field.type held (indent + 1) text →
            Dumps schema type (.union id held) indent
              ("\n".intercalate [padding indent ++ shortName name ++ " \x7b",
                padding (indent + 1) ++ (field.name ++ ": " ++ trimStart text),
                padding indent ++ "\x7d"])

/-- The lines that show the items of a list from a position on. -/
inductive DumpsItems (schema : Schema) : DataType → List Value → Nat → Nat → List String → Prop
  | nil {type indent position} : DumpsItems schema type [] indent position []
  | cons {type item rest indent position text lines} :
      Dumps schema type item (indent + 1) text →
        DumpsItems schema type rest indent (position + 1) lines →
          DumpsItems schema type (item :: rest) indent position
            ((padding indent ++ "  [" ++ toString position ++ "] " ++ trimStart text) :: lines)

/-- The lines that show the fields of a struct, each under its declared name. -/
inductive DumpsFields (schema : Schema) :
    List Field → List (Int16 × Value) → Nat → List String → Prop
  | nil {declared indent} : DumpsFields schema declared [] indent []
  | cons {declared field id value rest indent text lines} : field ∈ declared → field.id = id →
      Dumps schema field.type value indent text → DumpsFields schema declared rest indent lines →
        DumpsFields schema declared ((id, value) :: rest) indent
          ((padding indent ++ field.name ++ ": " ++ trimStart text) :: lines)

end

section Equations

variable {type : DataType} {name : String} {indent : Nat}

/-- What is kept on one line is shown as on one line, behind the padding. -/
theorem dump_line {value : Value} (short : value.OnOneLine) :
    schema.dump value type indent = padding indent ++ schema.format value type := by
  cases value with
  | struct fields | union id held => exact short.elim
  | list items =>
    cases items with
    | nil => rw [Schema.dump] <;> nofun
    | cons item rest => exact short.elim
  | _ => rw [Schema.dump] <;> nofun

/-- A list over several lines, where its type is known to be one of lists. -/
theorem dump_list {element : DataType} {item : Value} {rest : List Value}
    (canonical : schema.canonical type = .ok (.list element)) :
    schema.dump (.list (item :: rest)) type indent =
      "\n".intercalate ((padding indent ++ "[") ::
        schema.dumpItems (item :: rest) element indent 0 ++ [padding indent ++ "]"]) := by
  rw [Schema.dump]
  rw [canonical]
  rfl

/-- A struct over several lines, where its type is known to be a struct. -/
theorem dump_struct {declared : StructType} {fields : List (Int16 × Value)}
    (canonical : schema.canonical type = .ok (.struct name))
    (named : schema.structType name = .ok declared) :
    schema.dump (.struct fields) type indent =
      "\n".intercalate ((padding indent ++ shortName name ++ " \x7b") ::
        schema.dumpFields fields declared.fields (indent + 1) ++ [padding indent ++ "\x7d"]) := by
  rw [← structFields_eq named, Schema.dump]
  rw [canonical]
  rfl

/-- A union over several lines, where its type is known to be a union with the field. -/
theorem dump_union {declared : UnionType} {id : Int16} {field : Field} {held : Value}
    (canonical : schema.canonical type = .ok (.union name))
    (named : schema.unionType name = .ok declared)
    (isField : fieldById? declared.fields id = some field) :
    schema.dump (.union id held) type indent =
      "\n".intercalate [padding indent ++ shortName name ++ " \x7b",
        padding (indent + 1) ++
          (field.name ++ ": " ++ trimStart (schema.dump held field.type (indent + 1))),
        padding indent ++ "\x7d"] := by
  have known := (fieldById?_unionFields named).trans isField
  conv_lhs => unfold Schema.dump
  rw [canonical]
  simp only [Except.toOption, known]

end Equations

/-- What is kept on one line is shown as the schema says where it fits. -/
theorem dumps_line {limit depth indent : Nat} {value : Value} {type : DataType}
    (short : value.OnOneLine) (checked : schema.checkValue limit value type depth = .ok ()) :
    schema.Dumps type value indent (schema.dump value type indent) := by
  rw [dump_line short]
  exact .line short (shows_format checked)

mutual

/-- A value that fits its type is shown over several lines as the schema says. The induction is on
the value. -/
theorem dumps_dump {limit : Nat} : ∀ {value : Value} {type : DataType} {depth indent : Nat},
    schema.checkValue limit value type depth = .ok () →
      schema.Dumps type value indent (schema.dump value type indent)
  | .bool _, _, _, _, checked | .byte _, _, _, _, checked | .i16 _, _, _, _, checked
  | .i32 _, _, _, _, checked | .i64 _, _, _, _, checked | .double _, _, _, _, checked
  | .string _, _, _, _, checked | .binary _, _, _, _, checked | .set _, _, _, _, checked
  | .map _, _, _, _, checked | .enum _ _, _, _, _, checked | .list [], _, _, _, checked =>
    dumps_line trivial checked
  | .list (item :: rest), type, depth, indent, checked => by
    obtain ⟨-, behind, canonical, element, rfl, each⟩ := checkValue_eq_ok.mp checked
    rw [dump_list canonical]
    exact .list canonical (dumps_dumpItems each)
  | .struct fields, type, depth, indent, checked => by
    obtain ⟨-, behind, canonical, name, declared, rfl, named, -, each⟩ :=
      checkValue_eq_ok.mp checked
    rw [dump_struct canonical named]
    exact .struct canonical named (dumps_dumpFields each)
  | .union id held, type, depth, indent, checked => by
    obtain ⟨-, behind, canonical, name, declared, field, rfl, named, known, fits⟩ :=
      checkValue_eq_ok.mp checked
    obtain ⟨member, sameId⟩ := mem_of_fieldById? known
    rw [dump_union canonical named known]
    exact .union canonical named member sameId (dumps_dump fits)

/-- Items that fit are each shown as the schema says. -/
theorem dumps_dumpItems {limit : Nat} :
    ∀ {items : List Value} {type : DataType} {depth indent position : Nat},
      (∀ item ∈ items, schema.checkValue limit item type depth = .ok ()) →
        schema.DumpsItems type items indent position (schema.dumpItems items type indent position)
  | [], _, _, _, _, _ => .nil
  | _ :: _, _, _, _, _, each =>
    have ⟨here, others⟩ := List.forall_mem_cons.mp each
    .cons (dumps_dump here) (dumps_dumpItems others)

/-- Fields that are declared and fit are each shown under their names. -/
theorem dumps_dumpFields {limit : Nat} :
    ∀ {fields : List (Int16 × Value)} {declared : List Field} {depth indent : Nat},
      (∀ field ∈ fields, ∃ found, fieldById? declared field.1 = some found ∧
        schema.checkValue limit field.2 found.type depth = .ok ()) →
          schema.DumpsFields declared fields indent (schema.dumpFields fields declared indent)
  | [], _, _, _, _ => .nil
  | (id, value) :: rest, declared, depth, indent, each => by
    obtain ⟨⟨field, known, fits⟩, others⟩ := List.forall_mem_cons.mp each
    obtain ⟨member, sameId⟩ := mem_of_fieldById? known
    rw [dumpFields]
    simp only at known
    rw [known]
    exact .cons member sameId (dumps_dump fits) (dumps_dumpFields others)

end

end Lines

end Schema

/-- Valid values are rendered by name. Whatever fits a type is shown as its schema says, on one line
and over several with any indentation: at no depth is a field without its declared name, a value in
another form than that of its type, or an enum as a number that some member has.

Proof: a valid value fits its type, so at each level the names that rendering looks up are there;
the induction is on the nesting of the value. -/
theorem valid_values_are_rendered_by_name {schema : Schema} {type : DataType} {value : Value}
    (valid : schema.validate type value = .ok ()) :
    schema.Shows type value (schema.format value type) ∧
      ∀ indent, schema.Dumps type value indent (schema.dump value type indent) :=
  ⟨schema.shows_format valid, fun _ => schema.dumps_dump valid⟩

/-- An item with a color that has no label and a part with a color that no member has. -/
def boltItem : Value := .struct [(1, .string "bolt"), (2, .enum 1 none),
  (3, .list [.struct [(1, .string "nut"), (2, .enum 9 none)]])]

/-- The item of the linked documents is rendered by name, its part inside it. -/
theorem boltItem_is_rendered_by_name :
    link [storeDocument, partsDocument] = .ok storeSchema ∧
      storeSchema.validate (.struct "a.Item") boltItem = .ok () ∧
      storeSchema.format boltItem (.struct "a.Item") =
        "Item \x7blabel: \"bolt\", color: RED, parts: [Item \x7blabel: \"nut\", color: 9\x7d]\x7d" ∧
      storeSchema.Shows (.struct "a.Item") boltItem
        (storeSchema.format boltItem (.struct "a.Item")) ∧
      storeSchema.Dumps (.struct "a.Item") boltItem 3
        (storeSchema.dump boltItem (.struct "a.Item") 3) := by
  have valid : storeSchema.validate (.struct "a.Item") boltItem = .ok () := by cbv
  obtain ⟨shown, dumped⟩ := valid_values_are_rendered_by_name valid
  exact ⟨link_storeDocument, valid, by decide +kernel, shown, dumped 3⟩

end SchemaCodec
