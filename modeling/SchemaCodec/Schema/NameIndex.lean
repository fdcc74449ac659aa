/-!
# Names and the positions of entries

Entries stand in a list in the order in which they were added. Beside the list an index holds the
position of each name, so that an entry is reached by its name without a search through the list.
The index is only a table: that it and the list tell the same is a property of how the two are
changed together.
-/

namespace SchemaCodec

/-- The positions of names in a list of entries. -/
structure NameIndex where
  positions : List (String × Nat) := []
deriving BEq, Inhabited

namespace NameIndex

/-- The position under which a name is entered. -/
def position? (index : NameIndex) (name : String) : Option Nat :=
  index.positions.lookup name

/-- Whether a name is entered. -/
def contains (index : NameIndex) (name : String) : Bool :=
  (index.position? name).isSome

/-- Enter a name that is free at a position. -/
def add (index : NameIndex) (name : String) (position : Nat) : NameIndex :=
  ⟨index.positions ++ [(name, position)]⟩

/-- The entry at the position of a name. -/
def lookup? (index : NameIndex) (entries : List α) (name : String) : Option α :=
  (index.position? name).bind fun position => entries[position]?

/-- The entries with the one at the position of a name changed, where there is one. -/
def modify (index : NameIndex) (entries : List α) (name : String) (change : α → α) : List α :=
  match index.position? name with
  | some position => entries.modify position change
  | none => entries

/-- Nothing is entered at first. -/
@[simp] theorem position?_empty (name : String) : ({} : NameIndex).position? name = none := rfl

/-- A name is entered at the new position when it is the new name, unless it was entered before. -/
theorem position?_add (index : NameIndex) (name wanted : String) (position : Nat) :
    (index.add name position).position? wanted =
      (index.position? wanted).or (if wanted = name then some position else none) := by
  unfold position? add
  rw [List.lookup_append]
  congr 1
  rw [List.lookup_cons, List.lookup_nil]
  by_cases same : wanted = name
  · simp [same]
  · simp [same, beq_eq_false_iff_ne.mpr same]

/-- An entry is that at the position of its name. -/
theorem lookup?_eq_some {index : NameIndex} {entries : List α} {name : String} {entry : α} :
    index.lookup? entries name = some entry ↔
      ∃ position, index.position? name = some position ∧ entries[position]? = some entry :=
  Option.bind_eq_some_iff

/-- An entry that is found is one of the entries. -/
theorem mem_of_lookup? {index : NameIndex} {entries : List α} {name : String} {entry : α}
    (found : index.lookup? entries name = some entry) : entry ∈ entries := by
  obtain ⟨position, -, isEntry⟩ := lookup?_eq_some.mp found
  exact List.mem_of_getElem? isEntry

/-- An entry that is found is found as well where its name keeps its position and more entries stand
behind. -/
theorem lookup?_append {index other : NameIndex} {entries : List α} {name : String} {entry : α}
    (keeps : ∀ {position}, index.position? name = some position →
      other.position? name = some position)
    (found : index.lookup? entries name = some entry) (more : List α) :
    other.lookup? (entries ++ more) name = some entry := by
  obtain ⟨position, isPlace, isEntry⟩ := lookup?_eq_some.mp found
  obtain ⟨inside, -⟩ := List.getElem?_eq_some_iff.mp isEntry
  refine lookup?_eq_some.mpr ⟨position, keeps isPlace, ?_⟩
  rw [List.getElem?_append_left inside, isEntry]

/-- An entry that is found is found as well when one more is added behind. -/
theorem lookup?_add {index : NameIndex} {entries : List α} {name : String} {entry : α}
    (found : index.lookup? entries name = some entry) (added : String) (position : Nat)
    (more : List α) : (index.add added position).lookup? (entries ++ more) name = some entry :=
  lookup?_append (fun held => by rw [position?_add, held, Option.some_or]) found more

/-- An entry that is added under a free name is found there. -/
theorem lookup?_added {index : NameIndex} {name : String} (free : index.position? name = none)
    (entries : List α) (entry : α) :
    (index.add name entries.length).lookup? (entries ++ [entry]) name = some entry := by
  refine lookup?_eq_some.mpr ⟨entries.length, ?_, List.getElem?_concat_length⟩
  rw [position?_add, free, if_pos rfl, Option.none_or]

/-- What is found among the entries and one more was found before, or it is that one. -/
theorem lookup?_add_cases {index : NameIndex} {entries : List α} {name added : String}
    {entry found : α}
    (isFound : (index.add added entries.length).lookup? (entries ++ [entry]) name = some found) :
    index.lookup? entries name = some found ∨ found = entry := by
  obtain ⟨place, isPlace, isEntry⟩ := lookup?_eq_some.mp isFound
  by_cases inside : place < entries.length
  · rw [List.getElem?_append_left inside] at isEntry
    rw [position?_add] at isPlace
    rcases Option.or_eq_some_iff.mp isPlace with before | ⟨-, new⟩
    · exact .inl (lookup?_eq_some.mpr ⟨place, before, isEntry⟩)
    · have isLast : entries.length = place := by
        simpa using (Option.ite_none_right_eq_some.mp new).2
      exact absurd isLast.symm (Nat.ne_of_lt inside)
  · rw [List.getElem?_append_right (Nat.le_of_not_lt inside)] at isEntry
    exact .inr (List.mem_singleton.mp (List.mem_of_getElem? isEntry))

/-- One property of an entry is found where it is looked up among the properties. -/
theorem lookup?_map (index : NameIndex) (entries : List α) (name : String) (view : α → β) :
    index.lookup? (entries.map view) name = (index.lookup? entries name).map view := by
  unfold lookup?
  cases index.position? name with
  | none => rfl
  | some position => exact List.getElem?_map

/-- What leaves one property of the entries as it is leaves it as it is in all of them. -/
theorem map_modify (index : NameIndex) (entries : List α) (name : String) {change : α → α}
    {view : α → β} (keeps : ∀ entry, view (change entry) = view entry) :
    (index.modify entries name change).map view = entries.map view := by
  unfold modify
  split
  · next position _ =>
    refine List.ext_getElem? fun place => ?_
    simp only [List.getElem?_map, List.getElem?_modify]
    cases entries[place]? with
    | none => rfl
    | some entry => by_cases here : position = place <;> simp [here, keeps]
  · rfl

end NameIndex

end SchemaCodec
