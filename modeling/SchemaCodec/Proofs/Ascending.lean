import Mathlib.Algebra.Order.BigOperators.Group.List
import Mathlib.Algebra.Order.Ring.Nat
import Mathlib.Data.List.Dedup
import Mathlib.Data.List.Forall2
import Mathlib.Data.List.Nodup
import Mathlib.Data.List.Perm.Subperm
import SchemaCodec.Proofs.ValueOrder
import SchemaCodec.Value.Collection

/-!
# Ascending collections rebuilt by insertion

Sets, maps and structs are filled by one insertion: a new key goes to its place, and a key that is
there keeps its own form and takes the new value. A set is such a list without values, and a struct
one whose keys are ids. What insertion keeps and what it rebuilds is proved once, for keys of any
totally ordered kind.

Main statements: inserting leaves the list ascending, an ascending list is rebuilt as it is, equal
input gives equal results, and nothing in the result is without an origin in the input.
-/

namespace SchemaCodec.Value

section Keyed

variable {κ ν : Type} (comparison : κ → κ → Ordering)

/-- Put a value under a key: an equal key stays and takes the value. -/
def upsert (key : κ) (value : ν) : List (κ × ν) → List (κ × ν)
  | [] => [(key, value)]
  | (head, held) :: rest =>
    match comparison key head with
    | .lt => (key, value) :: (head, held) :: rest
    | .eq => (head, value) :: rest
    | .gt => (head, held) :: upsert key value rest

/-- Insert pairs one after another. -/
def upsertAll (held pairs : List (κ × ν)) : List (κ × ν) :=
  pairs.foldl (fun held pair => upsert comparison pair.1 pair.2 held) held

/-- Keys strictly ascend from left to right, so each key stands once. What stands under the keys is
not compared. -/
def KeysAscend (pairs : List (κ × ν)) : Prop :=
  pairs.Pairwise fun first second => comparison first.1 second.1 = .lt

/-- Whatever is found behind an insertion was there before or is new; an equal key keeps its form
while the value under it is the new one.

Proof: by induction on the pairs that are held, with the three outcomes of the comparison as cases:
the pair stands in front, takes the place of an equal key, or is inserted further behind. -/
theorem mem_upsert {key : κ} {value : ν} {held : List (κ × ν)} {pair : κ × ν}
    (member : pair ∈ upsert comparison key value held) :
    pair ∈ held ∨ pair = (key, value) ∨
      (pair.2 = value ∧ comparison key pair.1 = .eq ∧ ∃ old, (pair.1, old) ∈ held) := by
  induction held with
  | nil => exact .inr (.inl (List.mem_singleton.mp member))
  | cons head rest inductionHypothesis =>
    obtain ⟨headKey, old⟩ := head
    cases step : comparison key headKey <;> simp only [upsert, step, List.mem_cons] at member
    · rcases member with new | here | there
      · exact .inr (.inl new)
      · exact .inl (List.mem_cons.mpr (.inl here))
      · exact .inl (List.mem_cons_of_mem _ there)
    · rcases member with rfl | there
      · exact .inr (.inr ⟨rfl, step, old, List.mem_cons_self⟩)
      · exact .inl (List.mem_cons_of_mem _ there)
    · rcases member with here | there
      · exact .inl (List.mem_cons.mpr (.inl here))
      · rcases inductionHypothesis there with before | new | ⟨sameValue, sameKey, origin, present⟩
        · exact .inl (List.mem_cons_of_mem _ before)
        · exact .inr (.inl new)
        · exact .inr (.inr ⟨sameValue, sameKey, origin, List.mem_cons_of_mem _ present⟩)

/-- An insertion keeps the keys strictly ascending.

Proof: by induction on the pairs that are held. A key in front is below all others by transitivity,
an equal one keeps the key that is there, and what is inserted further behind is above the first
key. -/
theorem keysAscend_upsert [Std.TransCmp comparison] {key : κ} {value : ν} {held : List (κ × ν)}
    (ascending : KeysAscend comparison held) :
    KeysAscend comparison (upsert comparison key value held) := by
  induction held with
  | nil => exact List.pairwise_singleton _ _
  | cons head rest inductionHypothesis =>
    obtain ⟨headKey, old⟩ := head
    obtain ⟨below, restAscends⟩ := List.pairwise_cons.mp ascending
    cases step : comparison key headKey <;> simp only [upsert, step]
    · refine List.pairwise_cons.mpr ⟨fun other member => ?_, ascending⟩
      rcases List.mem_cons.mp member with rfl | member
      · exact step
      · exact Std.TransCmp.lt_trans step (below other member)
    · exact List.pairwise_cons.mpr ⟨below, restAscends⟩
    · refine List.pairwise_cons.mpr ⟨fun other member => ?_, inductionHypothesis restAscends⟩
      rcases mem_upsert comparison member with before | rfl | ⟨-, -, origin, present⟩
      · exact below other before
      · exact Std.OrientedCmp.lt_of_gt step
      · exact below (other.1, origin) present

/-- Insertion one after another keeps the keys strictly ascending. -/
theorem keysAscend_upsertAll [Std.TransCmp comparison] (pairs held : List (κ × ν))
    (ascending : KeysAscend comparison held) :
    KeysAscend comparison (upsertAll comparison held pairs) := by
  induction pairs generalizing held with
  | nil => exact ascending
  | cons pair rest inductionHypothesis =>
    exact inductionHypothesis _ (keysAscend_upsert comparison ascending)

/-- A key above all others goes to the end. -/
theorem upsert_above [Std.TransCmp comparison] {key : κ} {value : ν} {held : List (κ × ν)}
    (above : ∀ pair ∈ held, comparison pair.1 key = .lt) :
    upsert comparison key value held = held ++ [(key, value)] := by
  induction held with
  | nil => rfl
  | cons head rest inductionHypothesis =>
    have later : comparison key head.1 = .gt :=
      Std.OrientedCmp.gt_of_lt (above head List.mem_cons_self)
    have continued := inductionHypothesis fun pair member =>
      above pair (List.mem_cons_of_mem _ member)
    simp only [upsert, later, continued, List.cons_append]

/-- Pairs whose keys ascend are appended as they are. -/
theorem upsertAll_ascending [Std.TransCmp comparison] (pairs held : List (κ × ν))
    (ascending : KeysAscend comparison (held ++ pairs)) :
    upsertAll comparison held pairs = held ++ pairs := by
  induction pairs generalizing held with
  | nil => exact (List.append_nil held).symm
  | cons pair rest inductionHypothesis =>
    have above : ∀ earlier ∈ held, comparison earlier.1 pair.1 = .lt := fun earlier member =>
      (List.pairwise_append.mp ascending).2.2 earlier member pair List.mem_cons_self
    have regrouped : held ++ pair :: rest = (held ++ [pair]) ++ rest := by simp
    rw [regrouped] at ascending ⊢
    rw [← inductionHypothesis (held ++ [pair]) ascending, upsertAll, List.foldl_cons,
      upsert_above comparison above]
    rfl

/-- Every key of the result was given, and so was every value, under an equal key.

Proof: by induction on the pairs, where a pair that is found behind the first insertion is traced
back through that insertion. An equal key keeps its form, so key and value of a pair may have
different origins and are followed apart. -/
theorem mem_upsertAll [Std.TransCmp comparison] (pairs held : List (κ × ν)) {pair : κ × ν}
    (member : pair ∈ upsertAll comparison held pairs) :
    (∃ value, (pair.1, value) ∈ held ++ pairs) ∧
      ∃ key, (key, pair.2) ∈ held ++ pairs ∧ comparison key pair.1 = .eq := by
  induction pairs generalizing held with
  | nil =>
    have present : pair ∈ held ++ [] := List.mem_append_left [] member
    exact ⟨⟨pair.2, present⟩, pair.1, present, Std.ReflCmp.compare_self⟩
  | cons head rest inductionHypothesis =>
    obtain ⟨⟨value, keyOrigin⟩, key, valueOrigin, same⟩ := inductionHypothesis _ member
    have origin : ∀ {other : κ × ν}, other ∈ upsert comparison head.1 head.2 held ++ rest →
        (∃ value, (other.1, value) ∈ held ++ head :: rest) ∧
          ∃ key, (key, other.2) ∈ held ++ head :: rest ∧ comparison key other.1 = .eq := by
      intro other present
      rcases List.mem_append.mp present with inserted | later
      · rcases mem_upsert comparison inserted with before | rfl | ⟨newValue, sameKey, old, kept⟩
        · have found : other ∈ held ++ head :: rest := List.mem_append_left _ before
          exact ⟨⟨_, found⟩, _, found, Std.ReflCmp.compare_self⟩
        · have found : head ∈ held ++ head :: rest := by simp
          exact ⟨⟨_, found⟩, _, found, Std.ReflCmp.compare_self⟩
        · refine ⟨⟨old, List.mem_append_left _ kept⟩, head.1, ?_, sameKey⟩
          rw [newValue]
          simp
      · have found : other ∈ held ++ head :: rest := by simp [later]
        exact ⟨⟨_, found⟩, _, found, Std.ReflCmp.compare_self⟩
    obtain ⟨earlier, earlierOrigin, earlierSame⟩ := (origin valueOrigin).2
    exact ⟨(origin keyOrigin).1, earlier, earlierOrigin, Std.TransCmp.eq_trans earlierSame same⟩

/-- Equal keys with related values lead to equal keys with related values. -/
theorem upsert_congr [Std.TransCmp comparison] {related : ν → ν → Prop} {key other : κ}
    {value content : ν} {held kept : List (κ × ν)} (sameKey : comparison key other = .eq)
    (relatedValue : related value content)
    (pairwise : List.Forall₂ (fun first second => comparison first.1 second.1 = .eq ∧
      related first.2 second.2) held kept) :
    List.Forall₂ (fun first second => comparison first.1 second.1 = .eq ∧
      related first.2 second.2) (upsert comparison key value held)
        (upsert comparison other content kept) := by
  induction pairwise with
  | nil => exact .cons ⟨sameKey, relatedValue⟩ .nil
  | @cons first second rest tail heads tails inductionHypothesis =>
    have sameStep : comparison key first.1 = comparison other second.1 :=
      (Std.TransCmp.congr_left sameKey).trans (Std.TransCmp.congr_right heads.1)
    cases step : comparison other second.1 <;> simp only [upsert, sameStep, step]
    · exact .cons ⟨sameKey, relatedValue⟩ (.cons heads tails)
    · exact .cons ⟨heads.1, relatedValue⟩ tails
    · exact .cons heads inductionHypothesis

/-- Inserting equal keys with related values one after another gives related lists. -/
theorem upsertAll_congr [Std.TransCmp comparison] (related : ν → ν → Prop)
    {pairs others held kept : List (κ × ν)}
    (relatedHeld : List.Forall₂ (fun first second => comparison first.1 second.1 = .eq ∧
      related first.2 second.2) held kept)
    (relatedPairs : List.Forall₂ (fun first second => comparison first.1 second.1 = .eq ∧
      related first.2 second.2) pairs others) :
    List.Forall₂ (fun first second => comparison first.1 second.1 = .eq ∧
      related first.2 second.2) (upsertAll comparison held pairs)
        (upsertAll comparison kept others) := by
  induction relatedPairs generalizing held kept with
  | nil => exact relatedHeld
  | cons heads _ inductionHypothesis =>
    exact inductionHypothesis (upsert_congr comparison heads.1 heads.2 relatedHeld)

/-- A new key only adds its pair. -/
theorem upsert_perm {key : κ} {value : ν} {held : List (κ × ν)}
    (absent : ∀ pair ∈ held, comparison key pair.1 ≠ .eq) :
    (upsert comparison key value held).Perm ((key, value) :: held) := by
  induction held with
  | nil => exact List.Perm.refl _
  | cons head rest inductionHypothesis =>
    have continued := inductionHypothesis fun pair member =>
      absent pair (List.mem_cons_of_mem _ member)
    cases step : comparison key head.1 <;> simp only [upsert, step]
    · exact List.Perm.refl _
    · exact absurd step (absent head List.mem_cons_self)
    · exact (continued.cons head).trans (List.Perm.swap (key, value) head rest)

/-- Pairs with distinct keys are all kept. -/
theorem upsertAll_perm [Std.OrientedCmp comparison] (pairs held : List (κ × ν))
    (distinct : (held ++ pairs).Pairwise fun first second => comparison first.1 second.1 ≠ .eq) :
    (upsertAll comparison held pairs).Perm (held ++ pairs) := by
  induction pairs generalizing held with
  | nil => exact List.Perm.of_eq (List.append_nil held).symm
  | cons pair rest inductionHypothesis =>
    have absent : ∀ earlier ∈ held, comparison pair.1 earlier.1 ≠ .eq := by
      intro earlier member same
      exact (List.pairwise_append.mp distinct).2.2 earlier member pair List.mem_cons_self
        (Std.OrientedCmp.eq_symm same)
    have moved : (upsert comparison pair.1 pair.2 held ++ rest).Perm (held ++ pair :: rest) :=
      ((upsert_perm comparison absent).append_right rest).trans List.perm_middle.symm
    have stillDistinct := (moved.pairwise_iff fun different same =>
      different (Std.OrientedCmp.eq_symm same)).mpr distinct
    exact (inductionHypothesis _ stillDistinct).trans moved

/-- The pairs of an ascending list give that list back in whatever order they are inserted. -/
theorem upsertAll_of_perm [Std.TransCmp comparison] {pairs target : List (κ × ν)}
    (rearranged : pairs.Perm target) (ascending : KeysAscend comparison target) :
    upsertAll comparison [] pairs = target := by
  have distinct : pairs.Pairwise fun first second => comparison first.1 second.1 ≠ .eq := by
    refine (rearranged.pairwise_iff fun different same =>
      different (Std.OrientedCmp.eq_symm same)).mpr (ascending.imp fun before same => ?_)
    simp [same] at before
  have kept : (upsertAll comparison [] pairs).Perm target :=
    (upsertAll_perm comparison pairs [] distinct).trans rearranged
  refine kept.eq_of_pairwise (fun first second _ _ before after => ?_)
    (keysAscend_upsertAll comparison pairs [] .nil) ascending
  exact absurd after (Std.OrientedCmp.not_lt_of_lt before)

/-- The weight of pairs: of each key and of each value under it. -/
def weight (ofKey : κ → Nat) (ofValue : ν → Nat) (pairs : List (κ × ν)) : Nat :=
  (pairs.map fun pair => ofKey pair.1 + ofValue pair.2).sum

/-- An insertion adds no more than the weight of its pair. -/
theorem weight_upsert_le (ofKey : κ → Nat) (ofValue : ν → Nat) (key : κ) (value : ν)
    (held : List (κ × ν)) :
    weight ofKey ofValue (upsert comparison key value held) ≤
      weight ofKey ofValue held + (ofKey key + ofValue value) := by
  induction held with
  | nil => simp [upsert, weight]
  | cons head rest inductionHypothesis =>
    cases step : comparison key head.1 <;>
      simp only [upsert, step, weight, List.map_cons, List.sum_cons] at inductionHypothesis ⊢ <;>
      omega

/-- What is dropped or replaced on the way only makes the result lighter. -/
theorem weight_upsertAll_le (ofKey : κ → Nat) (ofValue : ν → Nat) (pairs held : List (κ × ν)) :
    weight ofKey ofValue (upsertAll comparison held pairs) ≤
      weight ofKey ofValue held + weight ofKey ofValue pairs := by
  induction pairs generalizing held with
  | nil => simp [upsertAll, weight]
  | cons pair rest inductionHypothesis =>
    have step := weight_upsert_le comparison ofKey ofValue pair.1 pair.2 held
    have continued := inductionHypothesis (upsert comparison pair.1 pair.2 held)
    simp only [upsertAll, List.foldl_cons] at continued ⊢
    simp only [weight, List.map_cons, List.sum_cons] at step continued ⊢
    omega

end Keyed

/-- A map is filled by the common insertion, its keys in the order on values. -/
theorem entriesOf_eq (entries : List (Value × Value)) :
    entriesOf entries = upsertAll order [] entries := by
  have step (key value : Value) (held : List (Value × Value)) :
      insertEntry key value held = upsert order key value held := by
    induction held with
    | nil => rfl
    | cons head rest inductionHypothesis =>
      cases place : order key head.1 <;> simp only [insertEntry, upsert, place, inductionHypothesis]
  simp only [entriesOf, upsertAll, step]

/-- A field is set by the common insertion, its id in numeric order. -/
theorem Fields.insert_eq (held : Fields) (id : Int16) (value : Value) :
    held.insert id value = upsert compare id value held := by
  induction held with
  | nil => rfl
  | cons head rest inductionHypothesis =>
    obtain ⟨headId, old⟩ := head
    cases place : compare id headId <;>
      simp only [Fields.insert, upsert, place, inductionHypothesis]
    rw [Std.LawfulEqOrd.eq_of_compare place]

/-- A struct is filled by the common insertion, its ids in numeric order. -/
theorem Fields.ofList_eq (fields : List (Int16 × Value)) :
    Fields.ofList fields = upsertAll compare [] fields := by
  simp only [Fields.ofList, upsertAll, insert_eq]

/-- A set is filled by the common insertion, its elements as keys without values.

Proof: one insertion of an element is one insertion of it as a key, by induction on the set that is
there; the fold over all elements follows by induction on them. -/
theorem elementsOf_eq (elements : List Value) :
    (elementsOf elements).map (fun element => (element, ())) =
      upsertAll order [] (elements.map fun element => (element, ())) := by
  have step (element : Value) (held : List Value) :
      (insertElement element held).map (fun element => (element, ())) =
        upsert order element () (held.map fun element => (element, ())) := by
    induction held with
    | nil => rfl
    | cons head rest inductionHypothesis =>
      cases place : order element head <;>
        simp [insertElement, upsert, place, inductionHypothesis]
  have walk (held : List Value) :
      (elements.foldl (fun held element => insertElement element held) held).map
          (fun element => (element, ())) =
        upsertAll order (held.map fun element => (element, ()))
          (elements.map fun element => (element, ())) := by
    induction elements generalizing held with
    | nil => rfl
    | cons element rest inductionHypothesis =>
      rw [List.foldl_cons, inductionHypothesis, step]
      rfl
  exact walk []

/-- Elements strictly ascend from left to right. -/
def ElementsAscend (elements : List Value) : Prop :=
  elements.Pairwise fun first second => order first second = .lt

/-- Elements ascend exactly when they do as keys. -/
theorem elementsAscend_iff (elements : List Value) :
    ElementsAscend elements ↔ KeysAscend order (elements.map fun element => (element, ())) := by
  simp only [ElementsAscend, KeysAscend, List.pairwise_map]

/-- Ascending entries form the map that they are. -/
theorem entriesOf_of_ascending {entries : List (Value × Value)}
    (ascending : KeysAscend order entries) : entriesOf entries = entries := by
  rw [entriesOf_eq]
  exact upsertAll_ascending order entries [] ascending

/-- A set filled by insertion ascends. -/
theorem elementsAscend_elementsOf (elements : List Value) :
    ElementsAscend (elementsOf elements) := by
  rw [elementsAscend_iff, elementsOf_eq]
  exact keysAscend_upsertAll order _ _ .nil

/-- Ascending elements form the set that they are. -/
theorem elementsOf_of_ascending {elements : List Value} (ascending : ElementsAscend elements) :
    elementsOf elements = elements := by
  have asKeys := upsertAll_ascending order (elements.map fun element => (element, ())) []
    ((elementsAscend_iff elements).mp ascending)
  rw [← elementsOf_eq, List.nil_append] at asKeys
  exact List.map_injective_iff.mpr (fun _ _ same => congrArg Prod.fst same) asKeys

/-- Every element of a set was given. -/
theorem mem_of_mem_elementsOf {elements : List Value} {element : Value}
    (member : element ∈ elementsOf elements) : element ∈ elements := by
  have asKey : (element, ()) ∈ upsertAll order [] (elements.map fun element => (element, ())) := by
    rw [← elementsOf_eq]
    exact List.mem_map_of_mem member
  obtain ⟨⟨_, origin⟩, -⟩ := mem_upsertAll order _ _ asKey
  simpa using origin

/-- Equal elements form equal sets. -/
theorem elementsOf_congr {elements others : List Value}
    (equal : List.Forall₂ (fun first second => order first second = .eq) elements others) :
    List.Forall₂ (fun first second => order first second = .eq)
      (elementsOf elements) (elementsOf others) := by
  have asKeys : List.Forall₂ (fun first second : Value × Unit =>
      order first.1 second.1 = .eq ∧ first.2 = second.2)
      (elements.map fun element => (element, ())) (others.map fun element => (element, ())) := by
    rw [List.forall₂_map_left_iff, List.forall₂_map_right_iff]
    exact equal.imp fun _ _ same => ⟨same, rfl⟩
  have filled := upsertAll_congr order Eq .nil asKeys
  rw [← elementsOf_eq, ← elementsOf_eq, List.forall₂_map_left_iff,
    List.forall₂_map_right_iff] at filled
  exact filled.imp fun _ _ same => same.1

/-- A set weighs no more than the elements that were given. -/
theorem weight_elementsOf_le (ofElement : Value → Nat) (elements : List Value) :
    ((elementsOf elements).map ofElement).sum ≤ (elements.map ofElement).sum := by
  have bound := weight_upsertAll_le order ofElement (fun _ : Unit => 0)
    (elements.map fun element => (element, ())) []
  rw [← elementsOf_eq] at bound
  simpa [weight, Function.comp_def] using bound

/-- Fields whose ids ascend are given back by any rearrangement of them. -/
theorem Fields.ofList_of_perm {fields target : List (Int16 × Value)}
    (rearranged : fields.Perm target) (ascending : KeysAscend compare target) :
    Fields.ofList fields = target := by
  rw [Fields.ofList_eq]
  exact upsertAll_of_perm compare rearranged ascending

/-- Fields under the same ids with equal values make structs with the same ids and equal values. -/
theorem Fields.ofList_congr {fields others : List (Int16 × Value)}
    (equal : List.Forall₂ (fun first second => first.1 = second.1 ∧
      order first.2 second.2 = .eq) fields others) :
    List.Forall₂ (fun first second => first.1 = second.1 ∧ order first.2 second.2 = .eq)
      (Fields.ofList fields) (Fields.ofList others) := by
  simp only [← Std.LawfulEqOrd.compare_eq_iff_eq (α := Int16)] at equal ⊢
  rw [Fields.ofList_eq, Fields.ofList_eq]
  exact upsertAll_congr compare (fun first second => order first second = .eq) .nil equal

/-- Entries with equal keys and equal values make maps with equal keys and equal values. -/
theorem entriesOf_congr {entries others : List (Value × Value)}
    (equal : List.Forall₂ (fun first second => order first.1 second.1 = .eq ∧
      order first.2 second.2 = .eq) entries others) :
    List.Forall₂ (fun first second => order first.1 second.1 = .eq ∧
      order first.2 second.2 = .eq) (entriesOf entries) (entriesOf others) := by
  rw [entriesOf_eq, entriesOf_eq]
  exact upsertAll_congr order (fun first second => order first second = .eq) .nil equal

/-- Ascending ids are distinct. -/
theorem Fields.nodup_of_ascending {fields : List (Int16 × Value)}
    (ascending : KeysAscend compare fields) : (fields.map (·.1)).Nodup := by
  refine List.pairwise_map.mpr (ascending.imp fun before same => ?_)
  rw [same, Std.ReflOrd.compare_self] at before
  simp at before

/-- Every field of a struct was given as it is. -/
theorem Fields.mem_of_mem_ofList {fields : List (Int16 × Value)} {field : Int16 × Value}
    (member : field ∈ Fields.ofList fields) : field ∈ fields := by
  rw [Fields.ofList_eq] at member
  obtain ⟨-, id, origin, same⟩ := mem_upsertAll compare _ _ member
  rw [Std.LawfulEqOrd.eq_of_compare same] at origin
  exact origin

/-- The ids of a struct ascend. -/
theorem Fields.keysAscend_ofList (fields : List (Int16 × Value)) :
    KeysAscend compare (Fields.ofList fields) := by
  rw [Fields.ofList_eq]
  exact keysAscend_upsertAll compare fields [] .nil

/-- Setting a field keeps the ids ascending. -/
theorem Fields.keysAscend_insert {fields : Fields} (ascending : KeysAscend compare fields)
    (id : Int16) (value : Value) : KeysAscend compare (fields.insert id value) := by
  rw [insert_eq]
  exact keysAscend_upsert compare ascending

/-- Setting a field decides what is found under its id, and under no other.

Proof: by induction on the fields, with the comparison of the inserted id and the first one as
cases. Ids that compare equal are equal, so a lookup stops at the same place before and after. -/
theorem Fields.get?_insert (fields : Fields) (id other : Int16) (value : Value) :
    (fields.insert id value).get? other =
      if id = other then some value else fields.get? other := by
  induction fields with
  | nil => by_cases same : id = other <;> simp [Fields.insert, Fields.get?, same]
  | cons head rest inductionHypothesis =>
    obtain ⟨headId, held⟩ := head
    cases place : compare id headId <;> simp only [Fields.insert, place]
    · by_cases same : id = other <;> simp [Fields.get?, same]
    · obtain rfl := Std.LawfulEqOrd.eq_of_compare place
      by_cases same : id = other <;> simp [Fields.get?, same]
    · have different : id ≠ headId := by
        rintro rfl
        simp [Std.ReflOrd.compare_self] at place
      by_cases first : headId = other
      · simp [Fields.get?, first, first ▸ different]
      · simpa [Fields.get?, first] using inductionHypothesis

/-- Under an id a struct holds the last value that was given for it. The induction is on the fields
from the last one to the first. -/
theorem Fields.get?_ofList (fields : List (Int16 × Value)) (id : Int16) :
    (Fields.ofList fields).get? id =
      fields.reverse.findSome? fun field => if field.1 = id then some field.2 else none := by
  rw [← List.reverse_reverse fields]
  induction fields.reverse with
  | nil => rfl
  | cons last earlier inductionHypothesis =>
    have step : Fields.ofList (last :: earlier).reverse =
        (Fields.ofList earlier.reverse).insert last.1 last.2 := by
      simp [Fields.ofList]
    rw [step, get?_insert, inductionHypothesis]
    by_cases same : last.1 = id <;> simp [same]

/-- The ids of a struct are those that were given. -/
theorem Fields.mem_ids_ofList {fields : List (Int16 × Value)} {id : Int16} :
    id ∈ (Fields.ofList fields).map (·.1) ↔ id ∈ fields.map (·.1) := by
  have isSome : id ∈ (Fields.ofList fields).map (·.1) ↔
      ((Fields.ofList fields).get? id).isSome := by
    simp [Fields.get?]
  rw [isSome, get?_ofList]
  simp

/-- A struct has each of the ids that were given once. -/
theorem Fields.ids_ofList_perm (fields : List (Int16 × Value)) :
    ((Fields.ofList fields).map (·.1)).Perm (fields.map (·.1)).dedup := by
  have once := nodup_of_ascending (keysAscend_ofList fields)
  refine (List.perm_ext_iff_of_nodup once (List.nodup_dedup _)).mpr fun id => ?_
  rw [mem_ids_ofList, List.mem_dedup]

/-- A struct weighs no more than the fields that were given: each of its fields is one of them. -/
theorem Fields.sum_ofList_le (weigh : Int16 × Value → Nat) (fields : List (Int16 × Value)) :
    ((Fields.ofList fields).map weigh).sum ≤ (fields.map weigh).sum := by
  have once := List.Nodup.of_map _ (nodup_of_ascending (keysAscend_ofList fields))
  obtain ⟨given, rearranged, among⟩ :=
    List.subperm_of_subset once fun _ member => mem_of_mem_ofList member
  rw [← (rearranged.map weigh).sum_eq]
  exact (among.map weigh).sum_le_sum fun _ _ => Nat.zero_le _

/-- The keys of a map ascend. -/
theorem keysAscend_entriesOf (entries : List (Value × Value)) :
    KeysAscend order (entriesOf entries) := by
  rw [entriesOf_eq]
  exact keysAscend_upsertAll order entries [] .nil

/-- Every key and every value of a map was given, if not both together. -/
theorem mem_of_mem_entriesOf {entries : List (Value × Value)} {entry : Value × Value}
    (member : entry ∈ entriesOf entries) :
    (∃ value, (entry.1, value) ∈ entries) ∧ ∃ key, (key, entry.2) ∈ entries := by
  rw [entriesOf_eq] at member
  obtain ⟨keyOrigin, key, valueOrigin, -⟩ := mem_upsertAll order entries [] member
  exact ⟨keyOrigin, key, valueOrigin⟩

/-- A map weighs no more than the entries that were given. -/
theorem weight_entriesOf_le (ofKey ofValue : Value → Nat) (entries : List (Value × Value)) :
    weight ofKey ofValue (entriesOf entries) ≤ weight ofKey ofValue entries := by
  have bound := weight_upsertAll_le order ofKey ofValue entries []
  rw [← entriesOf_eq] at bound
  simpa [weight] using bound

end SchemaCodec.Value
