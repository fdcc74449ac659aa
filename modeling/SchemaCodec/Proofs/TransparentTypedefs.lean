import SchemaCodec.Proofs.ClosedGraph
import SchemaCodec.Proofs.FieldLaw
import SchemaCodec.Proofs.FittingDepth
import SchemaCodec.Proofs.RoundTrip
import SchemaCodec.Schema.Rendering

/-!
# Typedefs are transparent

A typedef may be replaced by its target wherever it stands in a type. Whatever works on typed values
looks behind the typedefs of a type by itself and only where it stands, so a typedef inside a
container is met again as the type of an element. Hence two types that differ in such replacements
are of one kind behind their typedefs, and their parts differ in such replacements again. Along this
step readers agree level by level, and writers, checks and texts value by value.
-/

namespace SchemaCodec

namespace Schema

variable {schema : Schema}

/-- A type with some of its typedefs replaced by their targets, at the root or inside containers. -/
inductive Unfolds (schema : Schema) : DataType → DataType → Prop where
  | same (type : DataType) : Unfolds schema type type
  | typedef {name : String} {target other : DataType}
      (isTarget : schema.typedefTarget name = .ok target) (onwards : Unfolds schema target other) :
      Unfolds schema (.typedef name) other
  | list {element other : DataType} (inside : Unfolds schema element other) :
      Unfolds schema (.list element) (.list other)
  | set {element other : DataType} (inside : Unfolds schema element other) :
      Unfolds schema (.set element) (.set other)
  | map {keyType otherKey valueType otherValue : DataType} (key : Unfolds schema keyType otherKey)
      (value : Unfolds schema valueType otherValue) :
      Unfolds schema (.map keyType valueType) (.map otherKey otherValue)

/-- Two types that are no typedefs: the same, or containers of one kind with related parts. -/
inductive SameShape (related : DataType → DataType → Prop) : DataType → DataType → Prop where
  | same (type : DataType) : SameShape related type type
  | list {element other : DataType} (inside : related element other) :
      SameShape related (.list element) (.list other)
  | set {element other : DataType} (inside : related element other) :
      SameShape related (.set element) (.set other)
  | map {keyType otherKey valueType otherValue : DataType} (key : related keyType otherKey)
      (value : related valueType otherValue) :
      SameShape related (.map keyType valueType) (.map otherKey otherValue)

/-- A registered type and the type that it becomes when some typedefs are replaced. -/
structure Unfolding (schema : Schema) (type other : DataType) : Prop where
  closed : schema.Closed type
  unfolds : schema.Unfolds type other

/-- Behind their typedefs the two types of an unfolding have one shape, in which the parts are
unfoldings again. The induction is on the replacements; where a typedef is replaced at the root, its
chain and that of its target have the same end. -/
theorem Unfolding.behind (linked : schema.Linked) {type other : DataType}
    (unfolding : schema.Unfolding type other) :
    ∃ behind otherBehind, schema.canonical type = .ok behind ∧
      schema.canonical other = .ok otherBehind ∧
        SameShape schema.Unfolding behind otherBehind := by
  obtain ⟨closed, unfolds⟩ := unfolding
  induction unfolds with
  | same type =>
    obtain ⟨behind, followed, -⟩ := linked.canonical closed
    exact ⟨behind, behind, followed, followed, .same behind⟩
  | @typedef name target other isTarget onwards inductionHypothesis =>
    obtain ⟨declared, isDeclared, rfl⟩ := typedefTarget_eq_ok.mp isTarget
    have targetClosed : schema.Closed declared.target :=
      linked.types _ (mem_of_declaration? isDeclared)
    obtain ⟨behind, otherBehind, followed, otherFollowed, shape⟩ :=
      inductionHypothesis targetClosed
    obtain ⟨last, followedHere, -⟩ := linked.canonical closed
    obtain ⟨target, isTargetToo, fromTarget⟩ := Outcome.bind_eq_ok.mp followedHere
    obtain rfl := Except.ok.inj (isTarget.symm.trans isTargetToo)
    obtain rfl := canonicalWithin_unique fromTarget followed
    exact ⟨_, otherBehind, followedHere, otherFollowed, shape⟩
  | list inside => exact ⟨_, _, rfl, rfl, .list ⟨closed, inside⟩⟩
  | set inside => exact ⟨_, _, rfl, rfl, .set ⟨closed, inside⟩⟩
  | map key value => exact ⟨_, _, rfl, rfl, .map ⟨closed.1, key⟩ ⟨closed.2, value⟩⟩

/-- The values of both types have one tag. -/
theorem Unfolding.wireTag (linked : schema.Linked) {type other : DataType}
    (unfolding : schema.Unfolding type other) : schema.wireTag type = schema.wireTag other := by
  obtain ⟨behind, otherBehind, followed, otherFollowed, shape⟩ := unfolding.behind linked
  rw [Schema.wireTag, Schema.wireTag, followed, otherFollowed]
  cases shape <;> rfl

end Schema

namespace Decoder

/-- Readers of both types are one, at every level.

Proof: by induction on the levels. Both types lead to types of one shape. The header of a container
tells the tags of its parts only, which are the same, and the parts are read alike one level below.
-/
theorem valueWithin_of_unfolding {schema : Schema} (linked : schema.Linked) (limits : Limits)
    (levels : Nat) {type other : DataType} (unfolding : schema.Unfolding type other) :
    valueWithin schema limits levels type = valueWithin schema limits levels other := by
  induction levels generalizing type other with
  | zero => rfl
  | succ levels inductionHypothesis =>
    obtain ⟨behind, otherBehind, followed, otherFollowed, shape⟩ := unfolding.behind linked
    have sequence {element inner : DataType} (inside : schema.Unfolding element inner) :
        sequenceHeader schema limits element = sequenceHeader schema limits inner := by
      rw [sequenceHeader, sequenceHeader, inside.wireTag linked]
    simp only [valueWithin, lookup_bind_of_ok followed, lookup_bind_of_ok otherFollowed]
    cases shape with
    | same => rfl
    | list inside | set inside => simp only [sequence inside, inductionHypothesis inside]
    | map key value =>
      simp only [key.wireTag linked, value.wireTag linked, inductionHypothesis key,
        inductionHypothesis value]

end Decoder

/-- Items are numbered alike when each of them has the same forms. -/
theorem Numbered.congr {α : Type} {form other : Bytes → α → Prop} {taken : Bytes} {items : List α}
    (each : ∀ item ∈ items, ∀ piece, form piece item ↔ other piece item) :
    Numbered form taken items ↔ Numbered other taken items := by
  constructor
  · intro numbered
    exact numbered.imp_of_mem fun piece item member => (each item member piece).mp
  · intro numbered
    exact numbered.imp_of_mem fun piece item member => (each item member piece).mpr

namespace Schema

section Values

variable {schema : Schema} {related : DataType → DataType → Prop} {behind otherBehind : DataType}
  {value : Value}

/-- Types of one shape are fitted by the same values, when this is so of the parts.

Proof: by the shape. A container fits a type of containers exactly if its parts fit the types of the
parts, and this is alike for both; a value of another kind fits neither. -/
theorem SameShape.fitsLayer_iff {below : Value → DataType → Prop}
    (shape : SameShape related behind otherBehind)
    (parts : ∀ {part : Value} {type other : DataType}, part.nesting < value.nesting →
      related type other → (below part type ↔ below part other)) :
    FitsLayer schema below value behind ↔ FitsLayer schema below value otherBehind := by
  cases shape with
  | same => rfl
  | list inside =>
    cases value with
    | list items =>
      simp only [FitsLayer, DataType.list.injEq, exists_eq_left']
      exact forall₂_congr fun item member => parts (Value.nesting_lt_of_mem_items member) inside
    | _ => simp [FitsLayer]
  | set inside =>
    cases value with
    | set elements =>
      simp only [FitsLayer, DataType.set.injEq, exists_eq_left']
      exact forall₂_congr fun item member => parts (Value.nesting_lt_of_mem_items member) inside
    | _ => simp [FitsLayer]
  | map keys values =>
    cases value with
    | map entries =>
      simp only [FitsLayer, DataType.map.injEq, and_assoc, exists_and_left, exists_eq_left']
      refine forall₂_congr fun entry member => ?_
      obtain ⟨keyBelow, valueBelow⟩ := Value.nesting_lt_of_mem_entries member
      exact and_congr (parts keyBelow keys) (parts valueBelow values)
    | _ => simp [FitsLayer]

/-- Types of one shape have the same bytes for the same values, when this is so of the parts and of
their tags.

Proof: by the shape. Containers of one shape announce the same tags and the same number of parts,
and each part has the same bytes for both types. A value of another kind is written for neither. -/
theorem SameShape.writesLayer_iff {below : DataType → Bytes → Value → Prop} {bytes : Bytes}
    (shape : SameShape related behind otherBehind)
    (tags : ∀ {type other : DataType}, related type other →
      schema.wireTag type = schema.wireTag other)
    (parts : ∀ {part : Value} {type other : DataType} (piece : Bytes),
      part.nesting < value.nesting → related type other →
        (below type piece part ↔ below other piece part)) :
    WritesLayer schema below value behind bytes ↔
      WritesLayer schema below value otherBehind bytes := by
  have numbered {items : List Value} {element other : DataType} (inside : related element other)
      (shallower : ∀ item ∈ items, item.nesting < value.nesting) (body : Bytes) :
      Numbered (below element) body items ↔ Numbered (below other) body items :=
    Numbered.congr fun item member piece => parts piece (shallower item member) inside
  cases shape with
  | same => rfl
  | list inside =>
    cases value with
    | list items =>
      simp only [WritesLayer, DataType.list.injEq, exists_and_left, exists_eq_left', tags inside,
        numbered inside fun item member => Value.nesting_lt_of_mem_items member]
    | _ => simp [WritesLayer]
  | set inside =>
    cases value with
    | set elements =>
      simp only [WritesLayer, DataType.set.injEq, exists_and_left, exists_eq_left', tags inside,
        numbered inside fun item member => Value.nesting_lt_of_mem_items member]
    | _ => simp [WritesLayer]
  | @map keyType otherKey valueType otherValue keys values =>
    cases value with
    | map entries =>
      have entryAlike (body : Bytes) :
          Numbered (fun piece entry =>
            Joined (below keyType · entry.1) (below valueType · entry.2) piece) body entries ↔
          Numbered (fun piece entry =>
            Joined (below otherKey · entry.1) (below otherValue · entry.2) piece) body entries := by
        refine Numbered.congr fun entry member piece => ?_
        obtain ⟨keyBelow, valueBelow⟩ := Value.nesting_lt_of_mem_entries member
        simp only [Joined, parts _ keyBelow keys, parts _ valueBelow values]
      simp only [WritesLayer, DataType.map.injEq, and_assoc, exists_and_left, exists_eq_left',
        tags keys, tags values, entryAlike]
    | _ => simp [WritesLayer]

end Values

section Transparency

variable {schema : Schema} {type other : DataType}

/-- Both types of an unfolding are fitted by the same values, at every depth. The induction is on
the nesting of the value. -/
theorem Unfolding.checkValue_iff (linked : schema.Linked) (unfolding : schema.Unfolding type other)
    {limit depth : Nat} {value : Value} :
    schema.checkValue limit value type depth = .ok () ↔
      schema.checkValue limit value other depth = .ok () := by
  induction nested : value.nesting using Nat.strongRecOn generalizing value type other depth with
  | ind nesting inductionHypothesis =>
    obtain ⟨behind, otherBehind, followed, otherFollowed, shape⟩ := unfolding.behind linked
    rw [checkValue_eq_ok, checkValue_eq_ok, followed, otherFollowed]
    simp only [Except.ok.injEq, exists_eq_left']
    refine and_congr_right fun _ => shape.fitsLayer_iff fun shallower inside => ?_
    exact inductionHypothesis _ (nested ▸ shallower) inside rfl

/-- Values have the same bytes for both types of an unfolding. The induction is on the nesting of
the value. -/
theorem Unfolding.encodeValue_iff (linked : schema.Linked) (unfolding : schema.Unfolding type other)
    {value : Value} {bytes : Bytes} :
    schema.encodeValue value type = .ok bytes ↔ schema.encodeValue value other = .ok bytes := by
  induction nested : value.nesting using Nat.strongRecOn generalizing value type other bytes with
  | ind nesting inductionHypothesis =>
    obtain ⟨behind, otherBehind, followed, otherFollowed, shape⟩ := unfolding.behind linked
    rw [encodeValue_eq_ok, encodeValue_eq_ok, followed, otherFollowed]
    simp only [Except.ok.injEq, exists_eq_left']
    refine shape.writesLayer_iff (·.wireTag linked) fun piece shallower inside => ?_
    exact inductionHypothesis _ (nested ▸ shallower) inside rfl

/-- The text of a value depends on its type by what is behind all typedefs. -/
theorem format_of_canonical (same : schema.canonical type = schema.canonical other)
    (value : Value) : schema.format value type = schema.format value other := by
  rw [format.eq_def, format.eq_def]
  simp only [same]

/-- The text of a value over several lines depends on its type by what is behind all typedefs. -/
theorem dump_of_canonical (same : schema.canonical type = schema.canonical other)
    (value : Value) (indent : Nat) :
    schema.dump value type indent = schema.dump value other indent := by
  rw [dump.eq_def, dump.eq_def]
  simp only [same, format_of_canonical same]

/-- Items have the same texts when each of them has. -/
theorem formatItems_congr {items : List Value}
    (each : ∀ item ∈ items, schema.format item type = schema.format item other) :
    schema.formatItems items type = schema.formatItems items other := by
  induction items with
  | nil => rfl
  | cons item rest inductionHypothesis =>
    obtain ⟨here, there⟩ := List.forall_mem_cons.mp each
    rw [formatItems, formatItems, here, inductionHypothesis there]

/-- Entries have the same texts when each key and each value has. -/
theorem formatEntries_congr {entries : List (Value × Value)} {valueType otherValue : DataType}
    (each : ∀ entry ∈ entries, schema.format entry.1 type = schema.format entry.1 other ∧
      schema.format entry.2 valueType = schema.format entry.2 otherValue) :
    schema.formatEntries entries type valueType =
      schema.formatEntries entries other otherValue := by
  induction entries with
  | nil => rfl
  | cons entry rest inductionHypothesis =>
    obtain ⟨⟨key, value⟩, there⟩ := List.forall_mem_cons.mp each
    rw [formatEntries, formatEntries, key, value, inductionHypothesis there]

/-- Items have the same lines when each of them has, wherever the list begins. -/
theorem dumpItems_congr {items : List Value} {indent : Nat}
    (each : ∀ item ∈ items,
      schema.dump item type (indent + 1) = schema.dump item other (indent + 1))
    (position : Nat) :
    schema.dumpItems items type indent position = schema.dumpItems items other indent position := by
  induction items generalizing position with
  | nil => rfl
  | cons item rest inductionHypothesis =>
    obtain ⟨here, there⟩ := List.forall_mem_cons.mp each
    rw [dumpItems, dumpItems, here, inductionHypothesis there]

/-- A value has one text for both types of an unfolding.

Proof: by induction on the nesting of the value. Behind their typedefs both types have one shape; if
it is the same type, so is the text, and otherwise the parts have one text each for the types of the
parts. -/
theorem Unfolding.format (linked : schema.Linked) (unfolding : schema.Unfolding type other)
    (value : Value) : schema.format value type = schema.format value other := by
  induction nested : value.nesting using Nat.strongRecOn generalizing value type other with
  | ind nesting inductionHypothesis =>
    obtain ⟨behind, otherBehind, followed, otherFollowed, shape⟩ := unfolding.behind linked
    have part {part : Value} {element inner : DataType} (shallower : part.nesting < value.nesting)
        (inside : schema.Unfolding element inner) :
        schema.format part element = schema.format part inner :=
      inductionHypothesis _ (nested ▸ shallower) inside part rfl
    cases shape with
    | same => exact format_of_canonical (followed.trans otherFollowed.symm) value
    | list inside | set inside =>
      simp only [Schema.format.eq_def schema value type, Schema.format.eq_def schema value other,
        followed, otherFollowed, Except.toOption]
      cases value with
      | list items | set items =>
        simp only [formatItems_congr fun item member =>
          part (Value.nesting_lt_of_mem_items member) inside]
      | _ => rfl
    | map keys values =>
      simp only [Schema.format.eq_def schema value type, Schema.format.eq_def schema value other,
        followed, otherFollowed, Except.toOption]
      cases value with
      | map entries =>
        simp only [formatEntries_congr fun entry member =>
          have below := Value.nesting_lt_of_mem_entries member
          ⟨part below.1 keys, part below.2 values⟩]
      | _ => rfl

/-- A value has one text over several lines for both types of an unfolding.

Proof: by induction on the nesting of the value. Only lists and records take several lines. The
items of a list are dumped alike for both types, and sets and maps stand on one line, which is the
same. -/
theorem Unfolding.dump (linked : schema.Linked) (unfolding : schema.Unfolding type other)
    (value : Value) (indent : Nat) :
    schema.dump value type indent = schema.dump value other indent := by
  induction nested : value.nesting using Nat.strongRecOn generalizing value type other indent with
  | ind nesting inductionHypothesis =>
    obtain ⟨behind, otherBehind, followed, otherFollowed, shape⟩ := unfolding.behind linked
    have onOneLine := unfolding.format linked value
    cases shape with
    | same => exact dump_of_canonical (followed.trans otherFollowed.symm) value indent
    | list inside =>
      simp only [Schema.dump.eq_def schema value type, Schema.dump.eq_def schema value other,
        followed, otherFollowed, Except.toOption, onOneLine]
      cases value with
      | list items =>
        have each := dumpItems_congr fun item member =>
          inductionHypothesis _ (nested ▸ Value.nesting_lt_of_mem_items member) inside item
            (indent + 1) rfl
        cases items with
        | nil => rfl
        | cons item rest => simp only [each]
      | _ => rfl
    | set inside | map keys values =>
      simp only [Schema.dump.eq_def schema value type, Schema.dump.eq_def schema value other,
        followed, otherFollowed, Except.toOption, onOneLine]

end Transparency

end Schema

/-- In a schema that was linked, typedefs may be replaced by their targets anywhere in a registered
type. Its values have the same tag, the same values pass the check at every depth and under every
limit, the same bytes are written, readers do the same on every source, and the texts on one line
and over several are the same.

Proof: both types lead to types of one shape behind their typedefs, which differ at most in the
types of their parts, and those are related in the same way. Each of the six laws follows by
induction, on the nesting of the value or on the levels of the reader. -/
theorem typedefs_are_transparent {documents : List Document} {schema : Schema}
    (returned : link documents = .ok schema) {type other : DataType} (closed : schema.Closed type)
    (unfolds : schema.Unfolds type other) :
    schema.wireTag type = schema.wireTag other ∧
    (∀ limit value depth, schema.checkValue limit value type depth = .ok () ↔
      schema.checkValue limit value other depth = .ok ()) ∧
    (∀ limits value bytes, schema.encode limits type value = .ok bytes ↔
      schema.encode limits other value = .ok bytes) ∧
    (∀ limits source, (Decoder.value schema limits type).run source =
      (Decoder.value schema limits other).run source) ∧
    (∀ value, schema.format value type = schema.format value other) ∧
    ∀ value indent, schema.dump value type indent = schema.dump value other indent := by
  have linked := linked_of_link returned
  have unfolding : schema.Unfolding type other := ⟨closed, unfolds⟩
  refine ⟨unfolding.wireTag linked, fun _ _ _ => unfolding.checkValue_iff linked, ?_, ?_,
    unfolding.format linked, unfolding.dump linked⟩
  · intro limits value bytes
    rw [Schema.encode_eq_ok, Schema.encode_eq_ok, unfolding.checkValue_iff linked,
      unfolding.encodeValue_iff linked]
  · intro limits source
    rw [Decoder.value, Decoder.value, Decoder.valueWithin_of_unfolding linked limits _ unfolding]

/-- A document with a typedef that is recursive through a list, and a typedef of it. -/
def treeDocument : Document where
  path := "t.thrift"
  module := "t"
  definitions := [
    .typedef { name := "Tree", target := .list (.named "Tree" {}) },
    .typedef { name := "Wood", target := .map (.base .i32) (.named "Tree" {}) }]

/-- The qualified name of the typedef that is recursive. -/
def treeName : String := "t.Tree"

/-- The qualified name of the other one. -/
def woodName : String := "t.Wood"

/-- The schema of that document. -/
def treeSchema : Schema :=
  .ofEntries [
    .typedef { name := treeName, target := .list (.typedef treeName) },
    .typedef { name := woodName, target := .map .i32 (.typedef treeName) }] [] []

/-- A wood with one tree, which has two branches. -/
def grove : Value := .map [(.i32 1, .list [.list [], .list []])]

/-- The bytes of that wood. -/
def groveBytes : Bytes :=
  [8, 15, 0, 0, 0, 1, 0, 0, 0, 1, 15, 0, 0, 0, 2, 15, 0, 0, 0, 0, 15, 0, 0, 0, 0]

/-- A wood is a map of lists of trees: both are written alike, though the trees in the lists are
still behind their typedef. -/
theorem wood_is_transparent :
    treeSchema.Unfolds (.typedef woodName) (.map .i32 (.list (.list (.typedef treeName)))) ∧
      treeSchema.encode {} (.typedef woodName) grove = .ok groveBytes ∧
      treeSchema.encode {} (.map .i32 (.list (.list (.typedef treeName)))) grove =
        .ok groveBytes := by
  have returned : link [treeDocument] = .ok treeSchema := by cbv
  have isTree : treeSchema.typedefTarget treeName = .ok (.list (.typedef treeName)) := by cbv
  have isWood : treeSchema.typedefTarget woodName = .ok (.map .i32 (.typedef treeName)) := by cbv
  have tree : treeSchema.Unfolds (.typedef treeName) (.list (.list (.typedef treeName))) :=
    .typedef isTree (.list (.typedef isTree (.same _)))
  have unfolds := Schema.Unfolds.typedef isWood (.map (.same .i32) tree)
  have closed : treeSchema.Closed (.typedef woodName) := by
    change treeSchema.resolve woodName = .ok (.typedef woodName)
    cbv
  have written : treeSchema.encode {} (.typedef woodName) grove = .ok groveBytes := by cbv
  have alike := (typedefs_are_transparent returned closed unfolds).2.2.1
  exact ⟨unfolds, written, (alike {} grove groveBytes).mp written⟩

end SchemaCodec
