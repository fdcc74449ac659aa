import SchemaCodec.Value.Order

/-!
# The order on values is total

Swapping two values swaps their order, and two comparisons that do not descend compose. Both laws
hold at a value as soon as they hold at the values inside it, so one induction over values carries
them. The containers share one argument: their comparisons are lexicographic.

The instances at the end make the library's theory of comparisons available for values, and with it
every fact about ascending sets and maps.
-/

namespace SchemaCodec.Value

/-- Induction over values with the values inside a container at hand, whatever its nesting. -/
theorem induction {motive : Value → Prop}
    (bool : ∀ value, motive (.bool value)) (byte : ∀ value, motive (.byte value))
    (i16 : ∀ value, motive (.i16 value)) (i32 : ∀ value, motive (.i32 value))
    (i64 : ∀ value, motive (.i64 value)) (double : ∀ value, motive (.double value))
    (string : ∀ text, motive (.string text)) (binary : ∀ bytes, motive (.binary bytes))
    (list : ∀ items, (∀ item ∈ items, motive item) → motive (.list items))
    (set : ∀ elements, (∀ element ∈ elements, motive element) → motive (.set elements))
    (map : ∀ entries, (∀ entry ∈ entries, motive entry.1 ∧ motive entry.2) → motive (.map entries))
    (struct : ∀ fields, (∀ field ∈ fields, motive field.2) → motive (.struct fields))
    (union : ∀ id value, motive value → motive (.union id value))
    (enum : ∀ number label, motive (.enum number label)) (value : Value) : motive value := by
  refine @Value.rec motive (fun items => ∀ item ∈ items, motive item)
    (fun entries => ∀ entry ∈ entries, motive entry.1 ∧ motive entry.2)
    (fun fields => ∀ field ∈ fields, motive field.2)
    (fun entry => motive entry.1 ∧ motive entry.2) (fun field => motive field.2)
    bool byte i16 i32 i64 double string binary list set map struct union enum
    ?_ ?_ ?_ ?_ ?_ ?_ ?_ ?_ value
  all_goals grind

/-- The comparison of two sequences of values is lexicographic. -/
theorem orderList_eq (first second : List Value) :
    orderList first second = List.compareLex order first second := by
  induction first generalizing second with
  | nil => cases second <;> rfl
  | cons head rest inductionHypothesis =>
    cases second with
    | nil => rfl
    | cons other tail =>
      rw [orderList, List.compareLex_cons_cons, inductionHypothesis]

/-- Entries compare by their keys first. -/
def orderEntry (first second : Value × Value) : Ordering :=
  (order first.1 second.1).then (order first.2 second.2)

/-- The comparison of two sequences of entries is lexicographic. -/
theorem orderEntries_eq (first second : List (Value × Value)) :
    orderEntries first second = List.compareLex orderEntry first second := by
  induction first generalizing second with
  | nil => cases second <;> rfl
  | cons head rest inductionHypothesis =>
    cases second with
    | nil => rfl
    | cons other tail =>
      rw [orderEntries, List.compareLex_cons_cons, inductionHypothesis, orderEntry,
        Ordering.then_assoc]

/-- Fields compare by their ids first. -/
def orderField (first second : Int16 × Value) : Ordering :=
  (compare first.1 second.1).then (order first.2 second.2)

/-- The comparison of two sequences of fields is lexicographic. -/
theorem orderFields_eq (first second : List (Int16 × Value)) :
    orderFields first second = List.compareLex orderField first second := by
  induction first generalizing second with
  | nil => cases second <;> rfl
  | cons head rest inductionHypothesis =>
    cases second with
    | nil => rfl
    | cons other tail =>
      rw [orderFields, List.compareLex_cons_cons, inductionHypothesis, orderField,
        Ordering.then_assoc]

/-- Two values of one kind, with what each of them holds. -/
inductive SameKind : Value → Value → Prop where
  | bool first second : SameKind (.bool first) (.bool second)
  | byte first second : SameKind (.byte first) (.byte second)
  | i16 first second : SameKind (.i16 first) (.i16 second)
  | i32 first second : SameKind (.i32 first) (.i32 second)
  | i64 first second : SameKind (.i64 first) (.i64 second)
  | double first second : SameKind (.double first) (.double second)
  | string first second : SameKind (.string first) (.string second)
  | binary first second : SameKind (.binary first) (.binary second)
  | list first second : SameKind (.list first) (.list second)
  | set first second : SameKind (.set first) (.set second)
  | map first second : SameKind (.map first) (.map second)
  | struct first second : SameKind (.struct first) (.struct second)
  | union firstId first secondId second : SameKind (.union firstId first) (.union secondId second)
  | enum first firstLabel second secondLabel :
    SameKind (.enum first firstLabel) (.enum second secondLabel)

/-- Each kind has a rank of its own. -/
theorem sameKind_of_rank_eq {first second : Value} (same : first.rank = second.rank) :
    SameKind first second := by
  cases first <;> cases second <;> first | constructor | simp [rank] at same

/-- Values of different kinds compare as their kinds do. -/
theorem order_of_rank_ne {first second : Value} (different : first.rank ≠ second.rank) :
    order first second = compare first.rank second.rank := by
  cases first <;> cases second <;> first | rfl | exact absurd rfl different

/-- A kind that comes first puts its values first. -/
theorem order_of_rank_lt {first second : Value} (before : first.rank < second.rank) :
    order first second = .lt := by
  rw [order_of_rank_ne (Nat.ne_of_lt before)]
  exact Nat.compare_eq_lt.mpr before

/-- Where the order does not descend, the kinds do not either. -/
theorem rank_le_of_isLE {first second : Value} (ascends : (order first second).isLE) :
    first.rank ≤ second.rank := by
  by_cases same : first.rank = second.rank
  · exact Nat.le_of_eq same
  · rw [order_of_rank_ne same] at ascends
    exact Nat.isLE_compare.mp ascends

/-- The laws of a total order at one left-hand side. Laws at the parts of a value give the laws at
the value, where laws for all values would not be available yet. -/
structure LawfulAt (comparison : α → α → Ordering) (first : α) : Prop where
  /-- Swapping the sides swaps the outcome. -/
  swap : ∀ second, comparison second first = (comparison first second).swap
  /-- Two steps that do not descend make one, which is strict when either of them is. -/
  compose : ∀ second third, (comparison first second).isLE → (comparison second third).isLE →
    comparison first third = (comparison first second).then (comparison second third)

namespace LawfulAt

/-- A total order is lawful at every left-hand side. -/
theorem of_transCmp (comparison : α → α → Ordering) [Std.TransCmp comparison] (first : α) :
    LawfulAt comparison first where
  swap _ := Std.OrientedCmp.eq_swap
  compose second third ascends continues := by
    cases step : comparison first second with
    | lt => exact Std.TransCmp.lt_of_lt_of_isLE step continues
    | eq => exact Std.TransCmp.congr_left step
    | gt => simp [step] at ascends

/-- Of two comparisons, one after the other, both laws hold when they hold of each.

Proof: the first comparison decides unless it finds equality. Three keys in a row either grow at
some step, and then the first and the last differ, or are all equal, and then the second comparison
decides throughout. -/
theorem both {key : α → α → Ordering} {content : β → β → Ordering} {first : α × β}
    (keys : LawfulAt key first.1) (contents : LawfulAt content first.2) :
    LawfulAt (fun left right => (key left.1 right.1).then (content left.2 right.2)) first where
  swap second := by
    rw [keys.swap second.1, contents.swap second.2]
    cases key first.1 second.1 <;> rfl
  compose second third ascends continues := by
    have keyAscends : (key first.1 second.1).isLE := by
      cases step : key first.1 second.1 <;> simp_all
    have keyContinues : (key second.1 third.1).isLE := by
      cases step : key second.1 third.1 <;> simp_all
    rw [keys.compose second.1 third.1 keyAscends keyContinues]
    cases near : key first.1 second.1 with
    | gt => simp [near] at keyAscends
    | lt => rfl
    | eq =>
      cases far : key second.1 third.1 with
      | gt => simp [far] at keyContinues
      | lt =>
        simp only [near, Ordering.eq_then] at ascends
        cases step : content first.2 second.2 <;> simp_all
      | eq =>
        simp only [near, far, Ordering.eq_then] at ascends continues ⊢
        exact contents.compose second.2 third.2 ascends continues

/-- A lexicographic comparison is lawful at a list when the comparison of elements is lawful at its
elements.

Proof: by induction on the list. Two lists that are not empty are compared by their heads and then
by the rest, which is one comparison after another, and both laws hold of these two together. -/
theorem compareLex {comparison : α → α → Ordering} {first : List α}
    (elements : ∀ element ∈ first, LawfulAt comparison element) :
    LawfulAt (List.compareLex comparison) first := by
  induction first with
  | nil =>
    refine ⟨fun second => by cases second <;> rfl, fun second third ascends continues => ?_⟩
    cases second with
    | nil => rfl
    | cons head rest =>
      cases third with
      | nil => simp [List.compareLex] at continues
      | cons => rfl
  | cons head rest inductionHypothesis =>
    have atHead : LawfulAt comparison head := elements head List.mem_cons_self
    have atRest : LawfulAt (List.compareLex comparison) rest :=
      inductionHypothesis fun element member => elements element (List.mem_cons_of_mem _ member)
    have paired : LawfulAt (fun left right : α × List α =>
        (comparison left.1 right.1).then (List.compareLex comparison left.2 right.2))
        (head, rest) :=
      both atHead atRest
    refine ⟨fun second => ?_, fun second third ascends continues => ?_⟩
    · cases second with
      | nil => rfl
      | cons other tail =>
        simpa only [List.compareLex_cons_cons] using paired.swap (other, tail)
    · cases second with
      | nil => simp [List.compareLex] at ascends
      | cons other tail =>
        cases third with
        | nil => simp [List.compareLex] at continues
        | cons last final =>
          simp only [List.compareLex_cons_cons] at ascends continues ⊢
          exact paired.compose (other, tail) (last, final) ascends continues

/-- A value is lawful when its content is: values of other kinds are told apart by their kinds
alone.

Proof: by the ranks of the kinds. Where all values are of one kind, the comparison is that of their
contents. Where two of them differ in kind, their ranks decide, and a rank that has grown once does
not fall again. -/
theorem of_content (wrap : α → Value) {comparison : α → α → Ordering} {content : α}
    (lawful : LawfulAt comparison content)
    (agrees : ∀ first second, order (wrap first) (wrap second) = comparison first second)
    (kind : ∀ value, SameKind (wrap content) value → ∃ other, value = wrap other) :
    LawfulAt order (wrap content) where
  swap second := by
    by_cases same : second.rank = (wrap content).rank
    · obtain ⟨other, rfl⟩ := kind second (sameKind_of_rank_eq same.symm)
      simpa only [agrees] using lawful.swap other
    · rw [order_of_rank_ne same, order_of_rank_ne (Ne.symm same)]
      exact Std.OrientedCmp.eq_swap
  compose second third ascends continues := by
    have kindAscends : (wrap content).rank ≤ second.rank := rank_le_of_isLE ascends
    have kindContinues : second.rank ≤ third.rank := rank_le_of_isLE continues
    by_cases sameSecond : second.rank = (wrap content).rank
    · by_cases sameThird : third.rank = (wrap content).rank
      · obtain ⟨middle, rfl⟩ := kind second (sameKind_of_rank_eq sameSecond.symm)
        obtain ⟨last, rfl⟩ := kind third (sameKind_of_rank_eq sameThird.symm)
        simp only [agrees] at ascends continues ⊢
        exact lawful.compose middle last ascends continues
      · have far : order second third = .lt := order_of_rank_lt (by omega)
        have whole : order (wrap content) third = .lt := order_of_rank_lt (by omega)
        rw [far, whole]
        cases step : order (wrap content) second <;> simp_all
    · have near : order (wrap content) second = .lt := order_of_rank_lt (by omega)
      have whole : order (wrap content) third = .lt := order_of_rank_lt (by omega)
      rw [near, whole]
      rfl

end LawfulAt

/-- Doubles are ordered by their positions, so their order is total. -/
instance : Std.TransOrd Double where
  eq_swap := Std.OrientedOrd.eq_swap (α := Nat)
  isLE_trans := Std.TransOrd.isLE_trans (α := Nat)

/-- Doubles that compare equal are one. -/
instance : Std.LawfulEqOrd Double where
  compare_self := Std.ReflOrd.compare_self (α := Nat)
  eq_of_compare same := Double.orderKey_injective (Nat.compare_eq_eq.mp same)

/-- The laws hold at every value. A container inherits them from the values inside it, by way of the
lexicographic comparison of its parts; an enum is compared by its number alone.

Proof: by induction on the value. Each constructor wraps its content, and the comparison of contents
is lawful there: for numbers and bytes by the order of these, for containers by the values inside.
-/
theorem lawfulAt_order (value : Value) : LawfulAt order value := by
  induction value using Value.induction with
  | bool value =>
    exact .of_content .bool (.of_transCmp compare value) (fun _ _ => rfl)
      (by rintro _ ⟨⟩; exact ⟨_, rfl⟩)
  | byte value =>
    exact .of_content .byte (.of_transCmp compare value) (fun _ _ => rfl)
      (by rintro _ ⟨⟩; exact ⟨_, rfl⟩)
  | i16 value =>
    exact .of_content .i16 (.of_transCmp compare value) (fun _ _ => rfl)
      (by rintro _ ⟨⟩; exact ⟨_, rfl⟩)
  | i32 value =>
    exact .of_content .i32 (.of_transCmp compare value) (fun _ _ => rfl)
      (by rintro _ ⟨⟩; exact ⟨_, rfl⟩)
  | i64 value =>
    exact .of_content .i64 (.of_transCmp compare value) (fun _ _ => rfl)
      (by rintro _ ⟨⟩; exact ⟨_, rfl⟩)
  | double value =>
    exact .of_content .double (.of_transCmp compare value) (fun _ _ => rfl)
      (by rintro _ ⟨⟩; exact ⟨_, rfl⟩)
  | string text =>
    have bytewise := LawfulAt.of_transCmp (compare : Bytes → Bytes → Ordering) (Utf8.encode text)
    exact .of_content .string
      ⟨fun other => bytewise.swap (Utf8.encode other),
        fun second third => bytewise.compose (Utf8.encode second) (Utf8.encode third)⟩
      (fun _ _ => rfl) (by rintro _ ⟨⟩; exact ⟨_, rfl⟩)
  | binary bytes =>
    exact .of_content .binary (.of_transCmp compare bytes) (fun _ _ => rfl)
      (by rintro _ ⟨⟩; exact ⟨_, rfl⟩)
  | list items inside =>
    exact .of_content .list (.compareLex inside) orderList_eq (by rintro _ ⟨⟩; exact ⟨_, rfl⟩)
  | set elements inside =>
    exact .of_content .set (.compareLex inside) orderList_eq (by rintro _ ⟨⟩; exact ⟨_, rfl⟩)
  | map entries inside =>
    have atEntry : ∀ entry ∈ entries, LawfulAt orderEntry entry := fun entry member =>
      .both (inside entry member).1 (inside entry member).2
    exact .of_content .map (.compareLex atEntry) orderEntries_eq (by rintro _ ⟨⟩; exact ⟨_, rfl⟩)
  | struct fields inside =>
    have atField : ∀ field ∈ fields, LawfulAt orderField field := fun field member =>
      .both (.of_transCmp compare field.1) (inside field member)
    exact .of_content .struct (.compareLex atField) orderFields_eq (by rintro _ ⟨⟩; exact ⟨_, rfl⟩)
  | union id value inside =>
    have atField : LawfulAt orderField (id, value) := .both (.of_transCmp compare id) inside
    exact .of_content (fun field : Int16 × Value => .union field.1 field.2) atField
      (fun _ _ => rfl) (by rintro _ ⟨⟩; exact ⟨(_, _), rfl⟩)
  | enum number label =>
    have numbers := LawfulAt.of_transCmp (compare : Int32 → Int32 → Ordering) number
    have labelled : LawfulAt (fun first second : Int32 × Option String =>
        compare first.1 second.1) (number, label) :=
      ⟨fun other => numbers.swap other.1, fun second third => numbers.compose second.1 third.1⟩
    exact .of_content (fun held : Int32 × Option String => .enum held.1 held.2) labelled
      (fun _ _ => rfl) (by rintro _ ⟨⟩; exact ⟨(_, _), rfl⟩)

/-- The order on values is a total order up to equal values. -/
instance : Std.TransCmp order where
  eq_swap {first second} := (lawfulAt_order second).swap first
  isLE_trans {first second third} ascends continues := by
    rw [(lawfulAt_order first).compose second third ascends continues]
    cases step : order first second <;> simp_all

end SchemaCodec.Value
