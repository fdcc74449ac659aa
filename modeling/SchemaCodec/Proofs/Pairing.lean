import Mathlib.Data.List.Forall2

/-!
# Lists related place by place

What is proved of the bytes of each element, entry or field is carried to the whole list here.
-/

namespace SchemaCodec.Pairing

variable {α β γ : Type*} {first : α → β → Prop} {second : α → β → Prop}

/-- A relation may be weakened with what is known of the members on the right. -/
theorem forall₂_imp_right {items : List α} {others : List β}
    (related : List.Forall₂ first items others)
    (weaken : ∀ item, ∀ other ∈ others, first item other → second item other) :
    List.Forall₂ second items others := by
  induction related with
  | nil => exact .nil
  | @cons item other items others here _ inductionHypothesis =>
    refine .cons (weaken item other List.mem_cons_self here) (inductionHypothesis ?_)
    intro item other member
    exact weaken item other (List.mem_cons_of_mem _ member)

/-- Where each member on the right has a partner, they have them together. -/
theorem exists_partners {others : List β} (each : ∀ other ∈ others, ∃ item, first item other) :
    ∃ items, List.Forall₂ first items others := by
  induction others with
  | nil => exact ⟨[], .nil⟩
  | cons other rest inductionHypothesis =>
    obtain ⟨⟨item, here⟩, there⟩ := List.forall_mem_cons.mp each
    obtain ⟨items, related⟩ := inductionHypothesis there
    exact ⟨item :: items, .cons here related⟩

/-- Where each place has something in between, the places have it together. -/
theorem exists_between {left : α → β → Prop} {right : β → γ → Prop} {items : List α}
    {others : List γ}
    (related : List.Forall₂ (fun item other => ∃ middle, left item middle ∧ right middle other)
      items others) :
    ∃ middles, List.Forall₂ left items middles ∧ List.Forall₂ right middles others := by
  induction related with
  | nil => exact ⟨[], .nil, .nil⟩
  | cons here _ inductionHypothesis =>
    obtain ⟨middle, before, behind⟩ := here
    obtain ⟨middles, allBefore, allBehind⟩ := inductionHypothesis
    exact ⟨middle :: middles, .cons before allBefore, .cons behind allBehind⟩

/-- What a relation tells of its left side holds of every member on the left. -/
theorem forall_left {property : α → Prop} {items : List α} {others : List β}
    (related : List.Forall₂ first items others)
    (tells : ∀ {item other}, first item other → property item) : ∀ item ∈ items, property item := by
  induction related with
  | nil => simp
  | cons here _ inductionHypothesis =>
    exact List.forall_mem_cons.mpr ⟨tells here, inductionHypothesis⟩

/-- A member on the right stands beside its partner on the left. -/
theorem exists_zip_of_mem_right {items : List α} {others : List β}
    (related : List.Forall₂ first items others) {other : β} (member : other ∈ others) :
    ∃ item, (item, other) ∈ items.zip others ∧ first item other := by
  induction related with
  | nil => simp at member
  | @cons head _ _ _ here _ inductionHypothesis =>
    rcases List.mem_cons.mp member with rfl | later
    · exact ⟨head, List.mem_cons_self, here⟩
    · obtain ⟨item, beside, related⟩ := inductionHypothesis later
      exact ⟨item, List.mem_cons_of_mem _ beside, related⟩

/-- A member on the right has a partner on the left. -/
theorem exists_of_mem_right {items : List α} {others : List β}
    (related : List.Forall₂ first items others) {other : β} (member : other ∈ others) :
    ∃ item ∈ items, first item other := by
  obtain ⟨item, beside, here⟩ := exists_zip_of_mem_right related member
  exact ⟨item, (List.of_mem_zip beside).1, here⟩

/-- Where each place contributes the same on both sides, all places contribute the same. -/
theorem flatMap_eq {left : α → List γ} {right : β → List γ} {items : List α} {others : List β}
    (related : List.Forall₂ first items others)
    (same : ∀ {item other}, first item other → left item = right other) :
    items.flatMap left = others.flatMap right := by
  induction related with
  | nil => rfl
  | cons here _ inductionHypothesis =>
    rw [List.flatMap_cons, List.flatMap_cons, same here, inductionHypothesis]

/-- What holds in two steps holds at once. -/
theorem forall₂_compose {last : α → γ → Prop} {following : β → γ → Prop} {items : List α}
    {middles : List β} {others : List γ} (before : List.Forall₂ first items middles)
    (behind : List.Forall₂ following middles others)
    (compose : ∀ {item middle other}, first item middle → following middle other →
      last item other) :
    List.Forall₂ last items others := by
  induction before generalizing others with
  | nil =>
    cases behind with
    | nil => exact .nil
  | cons here _ inductionHypothesis =>
    cases behind with
    | cons next rest => exact .cons (compose here next) (inductionHypothesis rest)

end SchemaCodec.Pairing
