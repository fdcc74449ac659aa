import SchemaCodec.Proofs.ValueEquality
import SchemaCodec.Value.Content

/-!
# What the order on values tells apart

Without the labels of its enums a value is nothing but its kind and its content. Main statement: the
order on values is a total order that tells any two of these apart, down to each bit of a double and
each byte of a text; and what structs, unions and enums hold is ordered like the values around it.
-/

namespace SchemaCodec.Value

mutual

/-- The same value with no enum named, at any depth. Two values that become the same in this way
differ at most in labels. -/
def withoutLabels : Value → Value
  | list items => list (withoutLabelsInItems items)
  | set elements => set (withoutLabelsInItems elements)
  | map entries => map (withoutLabelsInEntries entries)
  | struct fields => struct (withoutLabelsInFields fields)
  | union id held => union id held.withoutLabels
  | enum number _ => enum number none
  | value => value
termination_by structural value => value

/-- Items or elements with no enum named. -/
def withoutLabelsInItems : List Value → List Value
  | [] => []
  | item :: rest => item.withoutLabels :: withoutLabelsInItems rest
termination_by structural items => items

/-- Entries with no enum named. -/
def withoutLabelsInEntries : List (Value × Value) → List (Value × Value)
  | [] => []
  | (key, held) :: rest =>
    (key.withoutLabels, held.withoutLabels) :: withoutLabelsInEntries rest
termination_by structural entries => entries

/-- Fields with no enum named. -/
def withoutLabelsInFields : List (Int16 × Value) → List (Int16 × Value)
  | [] => []
  | (id, held) :: rest => (id, held.withoutLabels) :: withoutLabelsInFields rest
termination_by structural fields => fields

end

/-- Items lose their labels one by one. -/
theorem withoutLabelsInItems_eq (items : List Value) :
    withoutLabelsInItems items = items.map withoutLabels := by
  induction items with
  | nil => rfl
  | cons item rest inductionHypothesis =>
    rw [withoutLabelsInItems, inductionHypothesis, List.map_cons]

/-- Entries lose their labels one by one. -/
theorem withoutLabelsInEntries_eq (entries : List (Value × Value)) :
    withoutLabelsInEntries entries =
      entries.map fun entry => (entry.1.withoutLabels, entry.2.withoutLabels) := by
  induction entries with
  | nil => rfl
  | cons entry rest inductionHypothesis =>
    rw [withoutLabelsInEntries, inductionHypothesis, List.map_cons]

/-- Fields lose their labels one by one. -/
theorem withoutLabelsInFields_eq (fields : List (Int16 × Value)) :
    withoutLabelsInFields fields = fields.map fun field => (field.1, field.2.withoutLabels) := by
  induction fields with
  | nil => rfl
  | cons field rest inductionHypothesis =>
    rw [withoutLabelsInFields, inductionHypothesis, List.map_cons]

/-- A value keeps its kind without labels. -/
theorem rank_withoutLabels (value : Value) : value.withoutLabels.rank = value.rank := by
  cases value <;> rfl

/-- Values that are one without labels are of one kind. -/
theorem sameKind_of_withoutLabels_eq {first second : Value}
    (same : first.withoutLabels = second.withoutLabels) : SameKind first second := by
  refine sameKind_of_rank_eq ?_
  rw [← rank_withoutLabels first, same, rank_withoutLabels]

/-- Sequences are related place by place exactly when a view of them is one sequence, if the view
tells this of each item. -/
theorem forall₂_iff_map_eq {related : α → α → Prop} {view : α → β} {items others : List α}
    (each : ∀ item ∈ items, ∀ other, related item other ↔ view item = view other) :
    List.Forall₂ related items others ↔ items.map view = others.map view := by
  induction items generalizing others with
  | nil => cases others <;> simp
  | cons item rest inductionHypothesis =>
    cases others with
    | nil => simp
    | cons other tail =>
      rw [List.forall₂_cons, List.map_cons, List.map_cons, List.cons.injEq,
        each item List.mem_cons_self, inductionHypothesis fun item member =>
          each item (List.mem_cons_of_mem _ member)]

/-- Two conditions that both need values of one kind are equivalent if they are so for such
values. -/
theorem iff_of_sameKind {first second : Value} {condition other : Prop}
    (needs : condition → SameKind first second) (alsoNeeds : other → SameKind first second)
    (equivalent : SameKind first second → (condition ↔ other)) : condition ↔ other :=
  ⟨fun holds => (equivalent (needs holds)).mp holds,
    fun holds => (equivalent (alsoNeeds holds)).mpr holds⟩

/-- Two values are equal exactly when they are one value without the labels of enums: they have the
same kind and, at every depth, the same content.

Proof: by induction on the first value. Equal values are of one kind in either sense, so the second
one has the same constructor. Lists of parts are equal if they are so place by place, and text is
compared by its bytes, which determine it. -/
theorem order_eq_iff_withoutLabels {first second : Value} :
    order first second = .eq ↔ first.withoutLabels = second.withoutLabels := by
  induction first using Value.induction generalizing second
  all_goals
    refine iff_of_sameKind sameKind_of_order_eq sameKind_of_withoutLabels_eq fun kind => ?_
  case list items inside =>
    obtain ⟨⟩ := kind
    rw [order_list_eq, withoutLabels, withoutLabels, list.injEq, withoutLabelsInItems_eq,
      withoutLabelsInItems_eq]
    exact forall₂_iff_map_eq fun item member other => inside item member
  case set elements inside =>
    obtain ⟨⟩ := kind
    rw [order_set_eq, withoutLabels, withoutLabels, set.injEq, withoutLabelsInItems_eq,
      withoutLabelsInItems_eq]
    exact forall₂_iff_map_eq fun element member other => inside element member
  case map entries inside =>
    obtain ⟨⟩ := kind
    rw [order_map_eq, withoutLabels, withoutLabels, map.injEq, withoutLabelsInEntries_eq,
      withoutLabelsInEntries_eq]
    refine forall₂_iff_map_eq fun entry member other => ?_
    rw [(inside entry member).1, (inside entry member).2, Prod.mk.injEq]
  case struct fields inside =>
    obtain ⟨⟩ := kind
    rw [order_struct_eq, withoutLabels, withoutLabels, struct.injEq, withoutLabelsInFields_eq,
      withoutLabelsInFields_eq]
    refine forall₂_iff_map_eq fun field member other => ?_
    rw [inside field member, Prod.mk.injEq]
  case union id held inside =>
    obtain ⟨⟩ := kind
    rw [order_union_eq, withoutLabels, withoutLabels, union.injEq, inside]
  case string text =>
    cases kind with
    | string _ other =>
      have bytewise : order (string text) (string other) = .eq ↔
          Utf8.encode text = Utf8.encode other := Std.LawfulEqOrd.compare_eq_iff_eq
      rw [bytewise]
      exact ⟨fun same => congrArg string (Utf8.eq_of_encode_eq same), fun same =>
        congrArg Utf8.encode (string.inj same)⟩
  all_goals
    obtain ⟨⟩ := kind
    simp [order, withoutLabels]

/-- Two values are equal when neither precedes the other. -/
theorem beq_iff_order_eq {first second : Value} :
    (first == second) = true ↔ order first second = .eq :=
  Ordering.isEq_iff_eq_eq

end SchemaCodec.Value

namespace SchemaCodec

open Value (order order_struct_eq order_union_eq beq_iff_order_eq)

/-- What structs hold is ordered like the structs. -/
theorem StructContent.compare_eq (first second : StructContent) :
    compare first second = order first.toValue second.toValue :=
  (Value.orderFields_eq first.fields second.fields).symm

/-- What structs hold is equal exactly when the structs are. -/
theorem StructContent.beq_eq (first second : StructContent) :
    (first == second) = (first.toValue == second.toValue) := by
  rw [Bool.eq_iff_iff, beq_iff_order_eq, toValue, toValue, order_struct_eq,
    List.forall₂_iff_zip]
  change ((first.fields.length == second.fields.length &&
    (first.fields.zip second.fields).all _) = true) ↔ _
  simp only [Bool.and_eq_true, beq_iff_eq, List.all_eq_true, beq_iff_order_eq, Prod.forall]

/-- What unions hold is ordered like the unions. -/
theorem UnionContent.compare_eq (first second : UnionContent) :
    compare first second = order first.toValue second.toValue := rfl

/-- What unions hold is equal exactly when the unions are. -/
theorem UnionContent.beq_eq (first second : UnionContent) :
    (first == second) = (first.toValue == second.toValue) := by
  rw [Bool.eq_iff_iff, beq_iff_order_eq, toValue, toValue, order_union_eq]
  change ((first.id == second.id && first.value == second.value) = true) ↔ _
  rw [Bool.and_eq_true, beq_iff_eq, beq_iff_order_eq]

/-- What enums hold is ordered like the enums. -/
theorem EnumContent.compare_eq (first second : EnumContent) :
    compare first second = order first.toValue second.toValue := rfl

/-- What enums hold is equal exactly when the enums are. -/
theorem EnumContent.beq_eq (first second : EnumContent) :
    (first == second) = (first.toValue == second.toValue) := by
  rw [Bool.eq_iff_iff, beq_iff_order_eq, Value.order_eq_iff_withoutLabels]
  change ((first.number == second.number) = true) ↔ _
  simp [toValue, Value.withoutLabels]

/-- The order on values is total: swapping two values swaps their order, and steps that do not
descend compose, for values of any kinds and any nesting. Values are equal exactly when they are one
value once the labels of enums are left out: kind and content agree at every depth, doubles to their
last bit and texts to their last byte. What structs, unions and enums hold is ordered, and is equal,
as the values around it are.

Proof: the laws of the order were proved by induction on values, and so was that equality is
identity up to labels. The wrappers of contents compare what they wrap as values. -/
theorem values_are_totally_ordered :
    (∀ first second : Value, order second first = (order first second).swap) ∧
    (∀ first second third : Value, (order first second).isLE → (order second third).isLE →
      (order first third).isLE) ∧
    (∀ first second : Value, (order first second = .eq ↔
        first.withoutLabels = second.withoutLabels) ∧
      ((first == second) = true ↔ first.withoutLabels = second.withoutLabels)) ∧
    (∀ first second : StructContent, compare first second = order first.toValue second.toValue ∧
      (first == second) = (first.toValue == second.toValue)) ∧
    (∀ first second : UnionContent, compare first second = order first.toValue second.toValue ∧
      (first == second) = (first.toValue == second.toValue)) ∧
    (∀ first second : EnumContent, compare first second = order first.toValue second.toValue ∧
      (first == second) = (first.toValue == second.toValue)) := by
  refine ⟨fun first second => Std.OrientedCmp.eq_swap, fun first second third =>
    Std.TransCmp.isLE_trans, fun first second => ⟨Value.order_eq_iff_withoutLabels, ?_⟩,
    fun first second => ⟨first.compare_eq second, first.beq_eq second⟩,
    fun first second => ⟨first.compare_eq second, first.beq_eq second⟩,
    fun first second => ⟨first.compare_eq second, first.beq_eq second⟩⟩
  rw [beq_iff_order_eq, Value.order_eq_iff_withoutLabels]

/-- A map from a set of one double to an enum. -/
def measurement (bits : UInt64) (label : Option String) : Value :=
  .map [(.set [.double ⟨bits⟩], .enum 1 label)]

/-- Inside a set inside a map both zeros and a NaN are in their order, and only the label of an enum
makes no difference. -/
theorem measurements_are_ordered :
    (order (measurement 0x8000000000000000 none) (measurement 0x7FF8000000000001 none)).isLE ∧
      order (measurement 0x7FF8000000000001 none) (measurement 0x8000000000000000 none) = .gt ∧
      (measurement 0 none == measurement 0 (some "BOILING")) = true ∧
      ¬(measurement 0x8000000000000000 none == measurement 0 none) = true := by
  obtain ⟨swap, compose, same, -⟩ := values_are_totally_ordered
  have ascends : (order (measurement 0x8000000000000000 none) (measurement 0 none)).isLE := by
    decide
  have continues : (order (measurement 0 none) (measurement 0x7FF8000000000001 none)).isLE := by
    decide
  refine ⟨compose _ _ _ ascends continues, ?_, (same _ _).2.mpr rfl, fun equal => ?_⟩
  · rw [swap (measurement 0x8000000000000000 none)]
    decide
  · have content := (same _ _).2.mp equal
    simp [measurement, Value.withoutLabels, Value.withoutLabelsInEntries,
      Value.withoutLabelsInItems] at content

end SchemaCodec
