import SchemaCodec.Proofs.Ascending
import SchemaCodec.Proofs.ValueIdentity

/-!
# The order of insertion leaves no trace

A set is told by its elements, a map by its entries and a struct by its fields. Whoever inserts
equal parts in another order, or names the members of enums otherwise, builds an equal value: an
ascending list has only one arrangement.
-/

namespace SchemaCodec.Value

/-- What is in a set stays there. -/
theorem mem_insertElement_of_mem {element kept : Value} {held : List Value} (member : kept ∈ held) :
    kept ∈ insertElement element held := by
  induction held with
  | nil => cases member
  | cons head rest inductionHypothesis =>
    rw [insertElement]
    split
    · exact List.mem_cons_of_mem _ member
    · exact member
    · rcases List.mem_cons.mp member with rfl | behind
      · exact List.mem_cons_self
      · exact List.mem_cons_of_mem _ (inductionHypothesis behind)

/-- An inserted element is in the set, in its own form or in that of an equal one. -/
theorem exists_mem_insertElement (element : Value) (held : List Value) :
    ∃ kept ∈ insertElement element held, order element kept = .eq := by
  induction held with
  | nil => exact ⟨element, List.mem_singleton_self _, order_self element⟩
  | cons head rest inductionHypothesis =>
    rw [insertElement]
    split
    · exact ⟨element, List.mem_cons_self, order_self element⟩
    · exact ⟨head, List.mem_cons_self, ‹_›⟩
    · obtain ⟨kept, member, same⟩ := inductionHypothesis
      exact ⟨kept, List.mem_cons_of_mem _ member, same⟩

/-- A set filled by insertion has an equal of everything that was inserted.

Proof: said of any set into which the elements are inserted, by induction on them: an equal that is
in the set stays there, and an element that is inserted is in the set or has an equal there. -/
theorem exists_mem_elementsOf {elements : List Value} {element : Value}
    (member : element ∈ elements) : ∃ kept ∈ elementsOf elements, order element kept = .eq := by
  have filled (held : List Value) (known : (∃ kept ∈ held, order element kept = .eq) ∨
      element ∈ elements) : ∃ kept ∈ elements.foldl (fun held element =>
        insertElement element held) held, order element kept = .eq := by
    clear member
    induction elements generalizing held with
    | nil => simpa using known
    | cons head rest inductionHypothesis =>
      refine inductionHypothesis (insertElement head held) ?_
      rcases known with ⟨kept, inHeld, same⟩ | given
      · exact .inl ⟨kept, mem_insertElement_of_mem inHeld, same⟩
      · rcases List.mem_cons.mp given with rfl | behind
        · exact .inl (exists_mem_insertElement element held)
        · exact .inr behind
  exact filled [] (.inr member)

/-- Every value of the first list has an equal in the second one. -/
def Covers (elements others : List Value) : Prop :=
  ∀ element ∈ elements, ∃ other ∈ others, order element other = .eq

/-- Elements behind the first one of an ascending list are covered by those behind an equal first
one. -/
theorem Covers.tail {head other : Value} {rest others : List Value}
    (ascending : ElementsAscend (head :: rest)) (same : order head other = .eq)
    (covers : Covers (head :: rest) (other :: others)) : Covers rest others := by
  intro element member
  obtain ⟨found, among, equal⟩ := covers element (List.mem_cons_of_mem _ member)
  rcases List.mem_cons.mp among with rfl | behind
  · have before : order head element = .lt := (List.pairwise_cons.mp ascending).1 element member
    rw [Std.TransCmp.congr_right equal, same] at before
    cases before
  · exact ⟨found, behind, equal⟩

/-- The first elements of ascending lists that cover each other do not descend from one list to the
other. -/
theorem Covers.head {head other : Value} {rest others : List Value}
    (ascending : ElementsAscend (head :: rest)) (covers : Covers (other :: others) (head :: rest)) :
    order head other ≠ .gt := by
  intro descends
  obtain ⟨found, among, equal⟩ := covers other List.mem_cons_self
  have reversed : order other head = .lt := Std.OrientedCmp.lt_of_gt descends
  rcases List.mem_cons.mp among with rfl | behind
  · rw [equal] at reversed
    cases reversed
  · have before : order head found = .lt := (List.pairwise_cons.mp ascending).1 found behind
    rw [← Std.TransCmp.congr_right equal, descends] at before
    cases before

/-- Ascending lists that cover each other are equal place by place.

Proof: by induction on the elements. The first elements are equal, because either one below the
other would have no equal in the other list, and without them the lists cover each other still. -/
theorem forall₂_of_covers {elements others : List Value} (ascending : ElementsAscend elements)
    (alsoAscending : ElementsAscend others) (covers : Covers elements others)
    (covered : Covers others elements) :
    List.Forall₂ (fun first second => order first second = .eq) elements others := by
  induction elements generalizing others with
  | nil =>
    cases others with
    | nil => exact .nil
    | cons other rest =>
      obtain ⟨_, among, -⟩ := covered other List.mem_cons_self
      cases among
  | cons head rest inductionHypothesis =>
    cases others with
    | nil =>
      obtain ⟨_, among, -⟩ := covers head List.mem_cons_self
      cases among
    | cons other others =>
      have same : order head other = .eq := by
        have notAbove : order head other ≠ .gt := covered.head ascending
        have notBelow : order other head ≠ .gt := covers.head alsoAscending
        have swapped : order other head = (order head other).swap := Std.OrientedCmp.eq_swap
        rw [swapped] at notBelow
        cases step : order head other <;> simp_all
      have reversed : order other head = .eq := Std.OrientedCmp.eq_symm same
      exact .cons same (inductionHypothesis (List.pairwise_cons.mp ascending).2
        (List.pairwise_cons.mp alsoAscending).2 (covers.tail ascending same)
        (covered.tail alsoAscending reversed))

/-- Two ways to build one value. Its parts may be given in another order, and each part may have
been built in another way itself. -/
inductive BuiltAlike : Value → Value → Prop where
  /-- Equal elements, in any order and any number of times. -/
  | set {elements others : List Value} (covers : Covers elements others)
      (covered : Covers others elements) :
    BuiltAlike (set (elementsOf elements)) (set (elementsOf others))
  /-- Equal entries in any order, where no key is given twice. -/
  | map {entries arranged others : List (Value × Value)}
      (distinct : entries.Pairwise fun first second => order first.1 second.1 ≠ .eq)
      (rearranged : entries.Perm arranged) (equal : List.Forall₂ (fun first second =>
        order first.1 second.1 = .eq ∧ order first.2 second.2 = .eq) arranged others) :
    BuiltAlike (map (entriesOf entries)) (map (entriesOf others))
  /-- Equal fields in any order, where no id is given twice. -/
  | struct {fields arranged others : List (Int16 × Value)}
      (distinct : (fields.map (·.1)).Nodup) (rearranged : fields.Perm arranged)
      (equal : List.Forall₂ (fun first second =>
        first.1 = second.1 ∧ order first.2 second.2 = .eq) arranged others) :
    BuiltAlike (struct (Fields.ofList fields)) (struct (Fields.ofList others))
  /-- Another name for the number of an enum, or none. -/
  | enum (number : Int32) (label other : Option String) :
    BuiltAlike (enum number label) (enum number other)

/-- Values that are built alike are equal. -/
theorem BuiltAlike.order_eq {first second : Value} (alike : BuiltAlike first second) :
    order first second = .eq := by
  cases alike with
  | @set elements others covers covered =>
    have given {sources targets : List Value} (covers : Covers sources targets) :
        Covers (elementsOf sources) (elementsOf targets) := by
      intro element member
      obtain ⟨other, among, same⟩ := covers element (mem_of_mem_elementsOf member)
      obtain ⟨kept, inSet, alsoSame⟩ := exists_mem_elementsOf among
      exact ⟨kept, inSet, Std.TransCmp.eq_trans same alsoSame⟩
    exact order_set_eq.mpr (forall₂_of_covers (elementsAscend_elementsOf elements)
      (elementsAscend_elementsOf others) (given covers) (given covered))
  | @map entries arranged others distinct rearranged equal =>
    have once : (upsertAll order [] entries).Perm entries :=
    upsertAll_perm order entries [] distinct
    have same : entriesOf arranged = entriesOf entries := by
      rw [entriesOf_eq, entriesOf_eq]
      exact upsertAll_of_perm order (rearranged.symm.trans once.symm)
        (keysAscend_upsertAll order entries [] .nil)
    rw [← same]
    exact order_map_eq.mpr (entriesOf_congr equal)
  | @struct fields arranged others distinct rearranged equal =>
    have apart : fields.Pairwise fun first second => compare first.1 second.1 ≠ .eq :=
      (List.pairwise_map.mp distinct).imp fun different same =>
        different (Std.LawfulEqOrd.eq_of_compare same)
    have once : (upsertAll compare [] fields).Perm fields := upsertAll_perm compare fields [] apart
    have same : Fields.ofList arranged = Fields.ofList fields := by
      rw [Fields.ofList_eq fields]
      exact Fields.ofList_of_perm (rearranged.symm.trans once.symm)
        (keysAscend_upsertAll compare fields [] .nil)
    rw [← same]
    exact order_struct_eq.mpr (Fields.ofList_congr equal)
  | enum number label other =>
    exact order_eq_iff_withoutLabels.mpr rfl

end SchemaCodec.Value
