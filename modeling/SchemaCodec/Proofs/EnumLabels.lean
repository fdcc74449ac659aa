import SchemaCodec.Proofs.Places
import SchemaCodec.Proofs.WrittenLength
import SchemaCodec.Schema.Construction

/-!
# Labels of enums

An enum value is a number, together with the name of a member when some member has the number. What
is read has such labels throughout: whatever lies inside a value that was read was read itself, from
bytes of its own and for the type at its place, and a number that is read for an enum is labelled by
the enum.
-/

namespace SchemaCodec

open Decoder (FieldSequence)

/-- A number is labelled with the name of a member that has it. It goes without a label only where
no member has it. -/
def EnumType.Labels (declared : EnumType) (number : Int32) : Option String → Prop
  | some label => ∃ enumMember ∈ declared.members,
      enumMember.name = label ∧ enumMember.number = number
  | none => ∀ enumMember ∈ declared.members, enumMember.number ≠ number

/-- The name of the first member that has the number labels it. -/
theorem EnumType.labels_memberByNumber? (declared : EnumType) (number : Int32) :
    declared.Labels number ((declared.memberByNumber? number).map (·.name)) := by
  cases found : declared.memberByNumber? number with
  | none =>
    intro enumMember isMember
    simpa using List.find?_eq_none.mp found enumMember isMember
  | some enumMember =>
    have sameNumber : enumMember.number = number := by simpa using List.find?_some found
    exact ⟨enumMember, List.mem_of_find?_eq_some found, rfl, sameNumber⟩

/-- A label that is checked names a member that has the number. -/
theorem EnumType.labels_of_checkLabel {declared : EnumType} {number : Int32} {label : String}
    (checked : Schema.checkLabel declared number (some label) = .ok ()) :
    declared.Labels number (some label) := by
  unfold Schema.checkLabel at checked
  cases found : declared.memberByName? label with
  | none => simp [found] at checked
  | some enumMember =>
    have sameName : enumMember.name = label := by simpa using List.find?_some found
    have sameNumber : enumMember.number = number := by
      by_contra differs
      simp [found, differs] at checked
    exact ⟨enumMember, List.mem_of_find?_eq_some found, sameName, sameNumber⟩

namespace Schema

/-- Every enum inside a value stands at a place of an enum type, and its number and its label are
right for the enum that is declared there. -/
def EnumsAre (schema : Schema) (right : EnumType → Int32 → Option String → Prop) (value : Value)
    (type : DataType) : Prop :=
  ∀ path number label, value.walk path = some (.enum number label) →
    ∃ inner declared, schema.typeWalk type path = some inner ∧
      schema.enumBehind inner = .ok declared ∧ right declared number label

/-- The enum behind a type is the declared one that the type stands for. -/
theorem enumBehind_eq_ok_iff {schema : Schema} {type : DataType} {declared : EnumType} :
    schema.enumBehind type = .ok declared ↔
      ∃ name, schema.canonical type = .ok (.enum name) ∧ schema.enumType name = .ok declared := by
  unfold enumBehind
  rw [Outcome.bind_eq_ok]
  simp only [lookedUp_eq_ok]
  constructor
  · rintro ⟨behind, followed, found⟩
    cases behind with
    | enum name => exact ⟨name, followed, lookedUp_eq_ok.mp found⟩
    | _ => simp at found
  · rintro ⟨name, followed, named⟩
    exact ⟨_, followed, lookedUp_eq_ok.mpr named⟩

end Schema

section Reading

variable {schema : Schema} {limits : Limits}

section Layer

variable {below : DataType → Bytes → Value → Prop} {passed : WireTag → Bytes → Prop}
  {behind : DataType} {taken : Bytes} {value part : Value} {step : PathStep}

/-- Each item of a list or set was read from some bytes. -/
theorem SequenceForm.exists_below {element : DataType} {items : List Value}
    (form : SequenceForm schema limits element below taken items) {item : Value}
    (member : item ∈ items) : ∃ bytes, below element bytes item := by
  obtain ⟨_, _, -, -, -, -, pieces, each, -⟩ := form
  obtain ⟨piece, -, here⟩ := Pairing.exists_of_mem_right each member
  exact ⟨piece, here⟩

/-- The key and the value of each entry of a map were read from some bytes. -/
theorem EntriesForm.exists_below {keyType valueType : DataType} {entries : List (Value × Value)}
    (form : EntriesForm schema limits keyType valueType below taken entries)
    {entry : Value × Value} (member : entry ∈ entries) :
    (∃ bytes, below keyType bytes entry.1) ∧ ∃ bytes, below valueType bytes entry.2 := by
  obtain ⟨_, _, _, -, -, -, -, -, pieces, each, -⟩ := form
  obtain ⟨_, -, head, tail, -, key, held⟩ := Pairing.exists_of_mem_right each member
  exact ⟨⟨head, key⟩, tail, held⟩

/-- Each field that was read is declared, and it was read from some bytes for its type. -/
theorem exists_below_of_mem_read {declared : List Field} {read : List (Int16 × Value)}
    (formed : FieldSequence (FieldForm schema declared below passed) taken read)
    {field : Int16 × Value} (member : field ∈ read) :
    ∃ found bytes, fieldById? declared field.1 = some found ∧ below found.type bytes field.2 := by
  obtain ⟨tag, body, form⟩ := exists_of_mem_kept formed member
  obtain ⟨found, known, -, here⟩ := form.exists_field
  exact ⟨found, body, known, here⟩

/-- What lies one step inside a value that was read was read one level below.

Proof: by the kinds of containers that a step may enter. For each of them the layer tells the type
behind the typedefs, and what is held came in by insertion, so it is one of the values that were
read from a piece of the bytes. -/
theorem DenotesLayer.at? (denotes : DenotesLayer schema limits below passed behind taken value)
    (reached : value.at? step = some part) :
    ∃ inner bytes, schema.partType? behind step = some inner ∧ below inner bytes part := by
  unfold Value.at? at reached
  split at reached
  · next items position =>
    have isItem := List.mem_of_getElem? reached
    cases behind <;>
      simp only [DenotesLayer, reduceCtorEq, and_false, exists_false] at denotes
    case list element =>
      obtain ⟨_, form, same⟩ := denotes
      obtain rfl := Value.list.inj same
      obtain ⟨bytes, here⟩ := form.exists_below isItem
      exact ⟨element, bytes, rfl, here⟩
  · next elements position =>
    have isElement := List.mem_of_getElem? reached
    cases behind <;>
      simp only [DenotesLayer, reduceCtorEq, and_false, exists_false] at denotes
    case set element =>
      obtain ⟨items, form, same⟩ := denotes
      obtain rfl := Value.set.inj same
      obtain ⟨bytes, here⟩ := form.exists_below (Value.mem_of_mem_elementsOf isElement)
      exact ⟨element, bytes, rfl, here⟩
  · next entries position =>
    obtain ⟨entry, isEntry, rfl⟩ := Option.map_eq_some_iff.mp reached
    cases behind <;>
      simp only [DenotesLayer, reduceCtorEq, and_false, exists_false] at denotes
    case map keyType valueType =>
      obtain ⟨read, form, same⟩ := denotes
      obtain rfl := Value.map.inj same
      obtain ⟨⟨held, isRead⟩, -⟩ := Value.mem_of_mem_entriesOf (List.mem_of_getElem? isEntry)
      obtain ⟨⟨bytes, here⟩, -⟩ := form.exists_below isRead
      exact ⟨keyType, bytes, rfl, here⟩
  · next entries position =>
    obtain ⟨entry, isEntry, rfl⟩ := Option.map_eq_some_iff.mp reached
    cases behind <;>
      simp only [DenotesLayer, reduceCtorEq, and_false, exists_false] at denotes
    case map keyType valueType =>
      obtain ⟨read, form, same⟩ := denotes
      obtain rfl := Value.map.inj same
      obtain ⟨-, key, isRead⟩ := Value.mem_of_mem_entriesOf (List.mem_of_getElem? isEntry)
      obtain ⟨-, bytes, here⟩ := form.exists_below isRead
      exact ⟨valueType, bytes, rfl, here⟩
  · next fields id =>
    have isField := Value.mem_of_get? reached
    cases behind <;>
      simp only [DenotesLayer, reduceCtorEq, and_false, exists_false] at denotes
    case struct name =>
      obtain ⟨declared, named, read, formed, -, same⟩ := denotes
      obtain rfl := Value.struct.inj same
      obtain ⟨found, bytes, known, here⟩ :=
        exists_below_of_mem_read formed (Value.Fields.mem_of_mem_ofList isField)
      exact ⟨found.type, bytes,
        Schema.partType?_struct.mpr ⟨declared, found, named, known, rfl⟩, here⟩
  · next id held wanted =>
    obtain ⟨rfl, same⟩ := Option.ite_none_right_eq_some.mp reached
    obtain rfl := Option.some.inj same
    cases behind <;>
      simp only [DenotesLayer, reduceCtorEq, and_false, exists_false] at denotes
    case union name =>
      obtain ⟨declared, named, read, formed, _, _, kept, same⟩ := denotes
      obtain ⟨rfl, rfl⟩ := Value.union.inj same
      have isField : (wanted, held) ∈ Value.Fields.ofList read := kept ▸ List.mem_cons_self
      obtain ⟨found, bytes, known, here⟩ :=
        exists_below_of_mem_read formed (Value.Fields.mem_of_mem_ofList isField)
      exact ⟨found.type, bytes,
        Schema.partType?_union.mpr ⟨declared, found, named, known, rfl⟩, here⟩
  · simp at reached

end Layer

/-- Whatever lies inside a value that was read was read itself. The induction is on the path, which
goes down one level with each step. -/
theorem Denotes.walk {path : FieldPath} {levels : Nat} {type : DataType} {taken : Bytes}
    {value part : Value} (denotes : Denotes schema limits levels type taken value)
    (reached : value.walk path = some part) :
    ∃ inner fewer bytes, schema.typeWalk type path = some inner ∧
      Denotes schema limits fewer inner bytes part := by
  induction path generalizing levels type taken value with
  | nil =>
    obtain rfl := Option.some.inj reached
    exact ⟨type, levels, taken, rfl, denotes⟩
  | cons step rest inductionHypothesis =>
    obtain ⟨inside, first, onwards⟩ := Value.walk_cons_eq_some.mp reached
    cases levels with
    | zero => exact denotes.elim
    | succ levels =>
      obtain ⟨behind, followed, layer⟩ := denotes
      obtain ⟨between, bytes, isBetween, denotesInside⟩ := layer.at? first
      obtain ⟨inner, fewer, others, isInner, denotesPart⟩ :=
        inductionHypothesis denotesInside onwards
      exact ⟨inner, fewer, others, Schema.typeWalk_cons followed isBetween isInner, denotesPart⟩

/-- Only for an enum type an enum is read, and the enum labels it. -/
theorem Denotes.labels {levels : Nat} {type : DataType} {taken : Bytes} {number : Int32}
    {label : Option String}
    (denotes : Denotes schema limits levels type taken (.enum number label)) :
    ∃ declared, schema.enumBehind type = .ok declared ∧ declared.Labels number label := by
  cases levels with
  | zero => exact denotes.elim
  | succ levels =>
    obtain ⟨behind, followed, layer⟩ := denotes
    cases behind <;> simp only [DenotesLayer, reduceCtorEq, and_false, exists_false] at layer
    case enum name =>
      obtain ⟨declared, named, _, -, same⟩ := layer
      obtain ⟨rfl, rfl⟩ := Value.enum.inj same
      exact ⟨declared, Schema.enumBehind_eq_ok_iff.mpr ⟨name, followed, named⟩,
        declared.labels_memberByNumber? number⟩

/-- All enums in a value that was read are labelled. -/
theorem Denotes.enumsAre {levels : Nat} {type : DataType} {taken : Bytes} {value : Value}
    (denotes : Denotes schema limits levels type taken value) :
    schema.EnumsAre EnumType.Labels value type := by
  intro path number label reached
  obtain ⟨inner, fewer, bytes, isInner, denotesPart⟩ := denotes.walk reached
  obtain ⟨declared, behind, labels⟩ := denotesPart.labels
  exact ⟨inner, declared, isInner, behind, labels⟩

end Reading

end SchemaCodec
