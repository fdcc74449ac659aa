import SchemaCodec.Proofs.Fitting

/-!
# Fitting at any depth

The limit on depth cuts off values that are nested too deeply and plays no other part: a value that
fits a type somewhere fits it wherever its own nesting has room.
-/

namespace SchemaCodec

namespace Value

mutual

/-- How many levels of values lie below a value: none below a value without parts, and none below an
empty container either. It is the depth that a check needs, whatever the type. -/
def nesting : Value → Nat
  | list items => nestingOfItems items
  | set elements => nestingOfItems elements
  | map entries => nestingOfEntries entries
  | struct fields => nestingOfFields fields
  | union _ held => held.nesting + 1
  | _ => 0
termination_by structural value => value

/-- How many levels items or elements make up. -/
def nestingOfItems : List Value → Nat
  | [] => 0
  | item :: rest => max (item.nesting + 1) (nestingOfItems rest)
termination_by structural items => items

/-- How many levels keys and the values under them make up. -/
def nestingOfEntries : List (Value × Value) → Nat
  | [] => 0
  | (key, held) :: rest => max (max (key.nesting + 1) (held.nesting + 1)) (nestingOfEntries rest)
termination_by structural entries => entries

/-- How many levels fields make up. -/
def nestingOfFields : List (Int16 × Value) → Nat
  | [] => 0
  | (_, held) :: rest => max (held.nesting + 1) (nestingOfFields rest)
termination_by structural fields => fields

end

/-- An item lies one level below its container. -/
theorem nesting_lt_of_mem_items {items : List Value} {item : Value} (member : item ∈ items) :
    item.nesting < nestingOfItems items := by
  induction items with
  | nil => simp at member
  | cons head rest inductionHypothesis =>
    rw [nestingOfItems]
    rcases List.mem_cons.mp member with rfl | behind
    · omega
    · have below := inductionHypothesis behind
      omega

/-- A key and its value lie one level below their map. -/
theorem nesting_lt_of_mem_entries {entries : List (Value × Value)} {entry : Value × Value}
    (member : entry ∈ entries) :
    entry.1.nesting < nestingOfEntries entries ∧ entry.2.nesting < nestingOfEntries entries := by
  induction entries with
  | nil => simp at member
  | cons head rest inductionHypothesis =>
    rw [nestingOfEntries]
    rcases List.mem_cons.mp member with rfl | behind
    · omega
    · have below := inductionHypothesis behind
      omega

/-- The value of a field lies one level below its struct. -/
theorem nesting_lt_of_mem_fields {fields : List (Int16 × Value)} {field : Int16 × Value}
    (member : field ∈ fields) : field.2.nesting < nestingOfFields fields := by
  induction fields with
  | nil => simp at member
  | cons head rest inductionHypothesis =>
    rw [nestingOfFields]
    rcases List.mem_cons.mp member with rfl | behind
    · omega
    · have below := inductionHypothesis behind
      omega

end Value

namespace Schema

variable {schema : Schema}

/-- What is known of the parts of a value may be told in other words of these parts alone, all of
which are nested less.

Proof: by the constructor of the value, each part of which is nested less than the whole. -/
theorem FitsLayer.imp_shallower {below other : Value → DataType → Prop} {value : Value}
    {behind : DataType} (fits : FitsLayer schema below value behind)
    (weaken : ∀ {part type}, part.nesting < value.nesting → below part type → other part type) :
    FitsLayer schema other value behind := by
  cases value with
  | list items | set elements =>
    obtain ⟨element, rfl, each⟩ := fits
    exact ⟨element, rfl, fun item member =>
      weaken (Value.nesting_lt_of_mem_items member) (each item member)⟩
  | map entries =>
    obtain ⟨keyType, valueType, rfl, each⟩ := fits
    refine ⟨keyType, valueType, rfl, fun entry member => ?_⟩
    obtain ⟨keyBelow, valueBelow⟩ := Value.nesting_lt_of_mem_entries member
    exact ⟨weaken keyBelow (each entry member).1, weaken valueBelow (each entry member).2⟩
  | struct fields =>
    obtain ⟨name, declared, rfl, named, complete, each⟩ := fits
    refine ⟨name, declared, rfl, named, complete, fun field member => ?_⟩
    obtain ⟨found, known, here⟩ := each field member
    exact ⟨found, known, weaken (Value.nesting_lt_of_mem_fields member) here⟩
  | union id held =>
    obtain ⟨name, declared, found, rfl, named, known, here⟩ := fits
    exact ⟨name, declared, found, rfl, named, known, weaken (Nat.lt_succ_self _) here⟩
  | _ => exact fits

/-- A value fits a type at some depth within some limit. -/
def Fits (schema : Schema) (value : Value) (type : DataType) : Prop :=
  ∃ limit depth, schema.checkValue limit value type depth = .ok ()

/-- A value that fits a type fits it wherever there is room for its nesting. The induction is on the
nesting: the parts of a value are nested less. -/
theorem Fits.checkValue {value : Value} {type : DataType} (fits : schema.Fits value type)
    {limit depth : Nat} (room : depth + value.nesting ≤ limit) :
    schema.checkValue limit value type depth = .ok () := by
  induction nested : value.nesting using Nat.strongRecOn generalizing value type depth with
  | ind nesting inductionHypothesis =>
    obtain ⟨somewhere, level, checked⟩ := fits
    obtain ⟨-, behind, followed, layer⟩ := checkValue_eq_ok.mp checked
    refine checkValue_eq_ok.mpr ⟨by omega, behind, followed, layer.imp_shallower ?_⟩
    intro part type shallower partChecked
    exact inductionHypothesis part.nesting (by omega) ⟨_, _, partChecked⟩ (by omega) rfl

/-- A value fits a type when it fits the type behind all typedefs, and its parts those of their
places. -/
theorem fits_iff {value : Value} {type : DataType} : schema.Fits value type ↔
    ∃ behind, schema.canonical type = .ok behind ∧ FitsLayer schema schema.Fits value behind := by
  constructor
  · rintro ⟨limit, depth, checked⟩
    obtain ⟨-, behind, followed, layer⟩ := checkValue_eq_ok.mp checked
    exact ⟨behind, followed, layer.imp fun partChecked => ⟨_, _, partChecked⟩⟩
  · rintro ⟨behind, followed, layer⟩
    refine ⟨value.nesting, 0, checkValue_eq_ok.mpr ⟨Nat.zero_le _, behind, followed, ?_⟩⟩
    exact layer.imp_shallower fun shallower fits => fits.checkValue (by omega)

/-- A value that passes the check of a whole value fits. -/
theorem fits_of_validate {value : Value} {type : DataType}
    (checked : schema.validate type value = .ok ()) : schema.Fits value type :=
  ⟨_, _, checked⟩

end Schema

end SchemaCodec
