import Mathlib.Data.List.Forall2
import SchemaCodec.Proofs.ValueOrder

/-!
# Equal values

Two values are equal when neither precedes the other. Equal containers hold equal parts in the same
places, and equal fields stand under the same ids; only the labels of enums may differ.
-/

namespace SchemaCodec.Value

/-- Sequences compare equal when they do place by place. -/
theorem compareLex_eq_eq {comparison : α → α → Ordering} {first second : List α} :
    List.compareLex comparison first second = .eq ↔
      List.Forall₂ (fun left right => comparison left right = .eq) first second := by
  induction first generalizing second with
  | nil => cases second <;> simp [List.compareLex]
  | cons head rest inductionHypothesis =>
    cases second with
    | nil => simp [List.compareLex]
    | cons other others =>
      rw [List.compareLex_cons_cons, Ordering.then_eq_eq, List.forall₂_cons,
        inductionHypothesis]

/-- Lists are equal when their items are. -/
theorem order_list_eq {items others : List Value} : order (list items) (list others) = .eq ↔
    List.Forall₂ (fun left right => order left right = .eq) items others := by
  rw [order, orderList_eq, compareLex_eq_eq]

/-- Sets are equal when their elements are, place by place. -/
theorem order_set_eq {elements others : List Value} : order (set elements) (set others) = .eq ↔
    List.Forall₂ (fun left right => order left right = .eq) elements others := by
  rw [order, orderList_eq, compareLex_eq_eq]

/-- Maps are equal when their keys and values are, place by place. -/
theorem order_map_eq {entries others : List (Value × Value)} :
    order (map entries) (map others) = .eq ↔ List.Forall₂ (fun left right =>
      order left.1 right.1 = .eq ∧ order left.2 right.2 = .eq) entries others := by
  rw [order, orderEntries_eq, compareLex_eq_eq]
  simp only [orderEntry, Ordering.then_eq_eq]

/-- Structs are equal when the same fields are set and their values are equal. -/
theorem order_struct_eq {fields others : List (Int16 × Value)} :
    order (struct fields) (struct others) = .eq ↔ List.Forall₂ (fun left right =>
      left.1 = right.1 ∧ order left.2 right.2 = .eq) fields others := by
  rw [order, orderFields_eq, compareLex_eq_eq]
  simp only [orderField, Ordering.then_eq_eq, Std.LawfulEqOrd.compare_eq_iff_eq]

/-- Unions are equal when the same field is set to an equal value. -/
theorem order_union_eq {id other : Int16} {held content : Value} :
    order (union id held) (union other content) = .eq ↔ id = other ∧ order held content = .eq := by
  rw [order, Ordering.then_eq_eq, Std.LawfulEqOrd.compare_eq_iff_eq]

/-- A value is equal to itself. -/
theorem order_self (value : Value) : order value value = .eq :=
  Std.ReflCmp.compare_self

/-- Values that are equal are of one kind. -/
theorem sameKind_of_order_eq {first second : Value} (equal : order first second = .eq) :
    SameKind first second := by
  by_cases same : first.rank = second.rank
  · exact sameKind_of_rank_eq same
  · rw [order_of_rank_ne same, Nat.compare_eq_eq] at equal
    exact absurd equal same

end SchemaCodec.Value
