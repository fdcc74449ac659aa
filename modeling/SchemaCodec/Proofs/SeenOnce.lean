import Mathlib.Data.List.Nodup

/-!
# Keys seen once

A list is checked for repeated keys from front to back: each key is compared with those seen before
it. The check succeeds exactly when all keys are distinct and none of them was seen at the start.
-/

namespace SchemaCodec

variable {key : α → β} {seen : List β}

/-- The items have distinct keys, and none of these was seen before. -/
def SeenOnce (key : α → β) (seen : List β) (items : List α) : Prop :=
  (items.map key).Nodup ∧ ∀ item ∈ items, key item ∉ seen

/-- No item repeats a key. -/
theorem seenOnce_nil : SeenOnce key seen [] := ⟨List.nodup_nil, by simp⟩

/-- The first key is new, and the others are new behind it. -/
theorem seenOnce_cons {item : α} {rest : List α} :
    SeenOnce key seen (item :: rest) ↔
      key item ∉ seen ∧ SeenOnce key (key item :: seen) rest := by
  unfold SeenOnce
  rw [List.map_cons, List.nodup_cons, List.forall_mem_cons]
  simp only [List.mem_cons, not_or]
  constructor
  · rintro ⟨⟨absent, distinct⟩, new, others⟩
    exact ⟨new, distinct, fun other member =>
      ⟨fun same => absent (List.mem_map.mpr ⟨other, member, same⟩), others other member⟩⟩
  · rintro ⟨new, distinct, others⟩
    refine ⟨⟨fun taken => ?_, distinct⟩, new, fun other member => (others other member).2⟩
    obtain ⟨other, member, same⟩ := List.mem_map.mp taken
    exact (others other member).1 same

/-- Where nothing was seen, distinct keys are all that is asked for. -/
theorem seenOnce_start {items : List α} : SeenOnce key [] items ↔ (items.map key).Nodup := by
  simp [SeenOnce]

/-- Where keys are distinct, looking for a key finds the one item that has it. -/
theorem find?_key_eq_some [DecidableEq β] {items : List α} (distinct : (items.map key).Nodup)
    {wanted : β} {item : α} :
    items.find? (key · = wanted) = some item ↔ item ∈ items ∧ key item = wanted := by
  constructor
  · intro found
    exact ⟨List.mem_of_find?_eq_some found, by simpa using List.find?_some found⟩
  · rintro ⟨member, rfl⟩
    have isThere : (items.find? (key · = key item)).isSome :=
      List.find?_isSome.mpr ⟨item, member, decide_eq_true rfl⟩
    obtain ⟨other, found⟩ := Option.isSome_iff_exists.mp isThere
    have sameKey : key other = key item := by simpa using List.find?_some found
    rw [found, List.inj_on_of_nodup_map distinct (List.mem_of_find?_eq_some found) member sameKey]

/-- Items with distinct keys are found by their keys in any order. -/
theorem find?_key_perm [DecidableEq β] {items others : List α} (distinct : (items.map key).Nodup)
    (permuted : items.Perm others) (wanted : β) :
    others.find? (key · = wanted) = items.find? (key · = wanted) := by
  refine Option.ext fun item => ?_
  rw [find?_key_eq_some distinct, find?_key_eq_some ((permuted.map key).nodup_iff.mp distinct),
    permuted.mem_iff]

end SchemaCodec
