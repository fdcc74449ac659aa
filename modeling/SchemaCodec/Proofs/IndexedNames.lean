import Mathlib.Data.List.Nodup
import SchemaCodec.Schema.Constants

/-!
# The name index and the entries invert each other

A schema reaches its entries through an index of positions. The index and the entries are changed
side by side: an entry is added behind the others together with its position, and only under a name
that is free, and a default leaves the names of the entries as they are. So the index holds a
position for a name exactly when the entry at that position has the name. It follows that no name is
given twice, and that what the index finds is what a search through the entries would find.
-/

namespace SchemaCodec

namespace NameIndex

variable {index : NameIndex}

/-- The index holds a position for a name exactly when the name stands at that position. -/
def Inverts (index : NameIndex) (names : List String) : Prop :=
  ∀ name position, index.position? name = some position ↔ names[position]? = some name

/-- Nothing is entered and nothing stands anywhere. -/
theorem Inverts.empty : ({} : NameIndex).Inverts [] := by
  intro name position
  simp

/-- A name is free exactly when it is none of those that stand in the list. -/
theorem Inverts.position?_eq_none {names : List String} (inverts : index.Inverts names)
    {name : String} : index.position? name = none ↔ name ∉ names := by
  rw [Option.eq_none_iff_forall_ne_some, List.mem_iff_getElem?, not_exists]
  exact forall_congr' fun position => not_congr (inverts name position)

/-- A name that is free may be added behind the others.

Proof: a position that was held before is one inside the list, where nothing changes. The new
position is that behind the list, and the new name had none. -/
theorem Inverts.add {names : List String} (inverts : index.Inverts names) {name : String}
    (free : index.position? name = none) :
    (index.add name names.length).Inverts (names ++ [name]) := by
  intro wanted position
  rw [position?_add]
  by_cases inside : position < names.length
  · rw [List.getElem?_append_left inside, ← inverts wanted position]
    by_cases same : wanted = name
    · subst same
      simp [free, Nat.ne_of_gt inside]
    · simp [same]
  · rw [List.getElem?_append_right (Nat.le_of_not_lt inside)]
    have outside : index.position? wanted ≠ some position := by
      intro held
      obtain ⟨isInside, -⟩ := List.getElem?_eq_some_iff.mp ((inverts wanted position).mp held)
      exact inside isInside
    by_cases same : wanted = name
    · subst same
      simp only [free, if_true, Option.none_or, Option.some.injEq, List.getElem?_singleton,
        Nat.sub_eq_zero_iff_le]
      constructor
      · intro last
        simp [last]
      · intro held
        have few : position ≤ names.length := by simpa using held
        exact Nat.le_antisymm (Nat.le_of_not_lt inside) few
    · simp [same, outside, List.getElem?_singleton, Ne.symm same]

/-- No name stands twice: its two positions would be the one that the index holds. -/
theorem Inverts.nodup {names : List String} (inverts : index.Inverts names) : names.Nodup := by
  rw [List.nodup_iff_getElem?_ne_getElem?]
  intro first second before inside same
  have isSecond : names[second]? = some names[second] := List.getElem?_eq_getElem inside
  have heldFirst := (inverts names[second] first).mpr (same.trans isSecond)
  have heldSecond := (inverts names[second] second).mpr isSecond
  exact Nat.ne_of_lt before (Option.some.inj (heldFirst.symm.trans heldSecond))

section Several

/-- Several names are entered one after another, from a position on. -/
def addAll (index : NameIndex) (names : List String) (position : Nat) : NameIndex :=
  ⟨index.positions ++ names.zipIdx position⟩

/-- No names are entered. -/
@[simp] theorem addAll_nil (index : NameIndex) (position : Nat) :
    index.addAll [] position = index := by
  simp [addAll]

/-- Names are entered, and others behind them. -/
theorem addAll_addAll (index : NameIndex) (names others : List String) (position : Nat) :
    (index.addAll names position).addAll others (position + names.length) =
      index.addAll (names ++ others) position := by
  simp [addAll, List.zipIdx_append]

/-- Several names that are free and distinct may be added behind the others.

Proof: by induction on the names that are added. The first one is free because all are distinct, so
the index inverts the longer list, and the others are added behind it. -/
theorem Inverts.addAll {names added : List String} (inverts : index.Inverts names)
    (distinct : (names ++ added).Nodup) :
    (index.addAll added names.length).Inverts (names ++ added) := by
  induction added generalizing index names with
  | nil => simpa using inverts
  | cons name rest inductionHypothesis =>
    have new : name ∉ names := by
      intro taken
      exact (List.disjoint_of_nodup_append distinct) taken List.mem_cons_self
    have regrouped : names ++ name :: rest = (names ++ [name]) ++ rest := by simp
    have first := inverts.add (inverts.position?_eq_none.mpr new)
    rw [regrouped] at distinct ⊢
    have behind := inductionHypothesis first distinct
    rw [List.length_append, List.length_singleton] at behind
    have entered : (index.add name names.length).addAll rest (names.length + 1) =
        index.addAll (name :: rest) names.length :=
      index.addAll_addAll [name] rest names.length
    rwa [entered] at behind

/-- An entry that is found is found as well when several are added behind. -/
theorem lookup?_addAll {entries : List α} {name : String} {entry : α}
    (found : index.lookup? entries name = some entry) (added : List String) (position : Nat)
    (more : List α) :
    (index.addAll added position).lookup? (entries ++ more) name = some entry := by
  refine lookup?_append (fun {place} held => ?_) found more
  unfold position? addAll
  rw [List.lookup_append]
  exact Option.or_eq_some_iff.mpr (.inl held)

end Several

section Entries

variable {name : α → String} {entries : List α}

/-- An entry is found under its name, and nothing else is. -/
theorem Inverts.lookup?_eq_some (inverts : index.Inverts (entries.map name)) {wanted : String}
    {entry : α} :
    index.lookup? entries wanted = some entry ↔ entry ∈ entries ∧ name entry = wanted := by
  simp only [NameIndex.lookup?_eq_some, inverts wanted, List.getElem?_map, Option.map_eq_some_iff]
  constructor
  · rintro ⟨position, ⟨other, isOther, named⟩, isEntry⟩
    obtain rfl := Option.some.inj (isEntry.symm.trans isOther)
    exact ⟨List.mem_of_getElem? isEntry, named⟩
  · rintro ⟨member, named⟩
    obtain ⟨position, isEntry⟩ := List.mem_iff_getElem?.mp member
    exact ⟨position, ⟨entry, isEntry, named⟩, isEntry⟩

/-- Nothing is found under a name exactly when no entry has it. -/
theorem Inverts.lookup?_eq_none (inverts : index.Inverts (entries.map name)) {wanted : String} :
    index.lookup? entries wanted = none ↔ ∀ entry ∈ entries, name entry ≠ wanted := by
  simp only [Option.eq_none_iff_forall_ne_some, ne_eq, inverts.lookup?_eq_some, not_and]

/-- The index finds what a search through the entries would find. -/
theorem Inverts.lookup?_eq_find? (inverts : index.Inverts (entries.map name)) (wanted : String) :
    index.lookup? entries wanted = entries.find? (name · = wanted) := by
  cases found : entries.find? (name · = wanted) with
  | none =>
    refine inverts.lookup?_eq_none.mpr fun entry member named => ?_
    simpa [named] using List.find?_eq_none.mp found entry member
  | some entry =>
    exact inverts.lookup?_eq_some.mpr
      ⟨List.mem_of_find?_eq_some found, by simpa using List.find?_some found⟩

/-- A name is free exactly when nothing is found under it. -/
theorem Inverts.position?_eq_none_iff (inverts : index.Inverts (entries.map name))
    {wanted : String} :
    index.position? wanted = none ↔ index.lookup? entries wanted = none := by
  rw [inverts.position?_eq_none, inverts.lookup?_eq_none, List.mem_map]
  simp

/-- The entry of a name is changed, and no other one is.

Proof: place by place. The index gives the position of a name exactly if the entry there has it, so
the entry at that position is changed and at every other place the name is another one. -/
theorem Inverts.modify_eq_map (inverts : index.Inverts (entries.map name)) (wanted : String)
    (change : α → α) : index.modify entries wanted change =
      entries.map fun entry => if name entry = wanted then change entry else entry := by
  refine List.ext_getElem? fun place => ?_
  rw [List.getElem?_map]
  have here := inverts wanted place
  rw [List.getElem?_map] at here
  unfold modify
  cases held : index.position? wanted with
  | none =>
    cases isEntry : entries[place]? with
    | none => rfl
    | some entry =>
      have other : name entry ≠ wanted := by simpa [held, isEntry] using here
      simp [other]
  | some position =>
    rw [List.getElem?_modify]
    cases isEntry : entries[place]? with
    | none => rfl
    | some entry =>
      have named : position = place ↔ name entry = wanted := by simpa [held, isEntry] using here
      simp [named]

end Entries

end NameIndex

namespace Schema

variable {schema : Schema}

/-- The indexes and the entries of a schema invert each other. -/
structure Indexed (schema : Schema) : Prop where
  types : schema.typePositions.Inverts (schema.types.map (·.name))
  services : schema.servicePositions.Inverts (schema.services.map (·.name))
  constants : schema.constantPositions.Inverts (schema.constants.map (·.name))

/-- Nothing is there at first. -/
theorem Indexed.empty : Indexed {} := ⟨.empty, .empty, .empty⟩

/-- A type is added with its position. -/
theorem Indexed.addType (indexed : schema.Indexed) {declared : TypeDeclaration}
    (free : schema.typePositions.position? declared.name = none) :
    (schema.addType declared).Indexed where
  types := by simpa [Schema.addType] using indexed.types.add free
  services := indexed.services
  constants := indexed.constants

/-- A service is added with its position. -/
theorem Indexed.addService (indexed : schema.Indexed) {declared : Service}
    (free : schema.servicePositions.position? declared.name = none) :
    (schema.addService declared).Indexed where
  types := indexed.types
  services := by simpa [Schema.addService] using indexed.services.add free
  constants := indexed.constants

/-- A constant is added with its position. -/
theorem Indexed.addConstant (indexed : schema.Indexed) {declared : Constant}
    (free : schema.constantPositions.position? declared.name = none) :
    (schema.addConstant declared).Indexed where
  types := indexed.types
  services := indexed.services
  constants := by simpa [Schema.addConstant] using indexed.constants.add free

/-- A schema of some entries, entered one after another. -/
def ofEntries (types : List TypeDeclaration) (services : List Service)
    (constants : List Constant) : Schema :=
  constants.foldl addConstant (services.foldl addService (types.foldl addType {}))

/-- The types of a schema are those that were entered.

Proof: adding a constant or a service leaves the types as they are, and adding a type puts it behind
them, each by induction on what is added. -/
@[simp] theorem types_ofEntries (types : List TypeDeclaration) (services : List Service)
    (constants : List Constant) : (ofEntries types services constants).types = types := by
  have byConstants (schema : Schema) :
      (constants.foldl addConstant schema).types = schema.types := by
    induction constants generalizing schema with
    | nil => rfl
    | cons constant rest inductionHypothesis => exact inductionHypothesis _
  have byServices (schema : Schema) : (services.foldl addService schema).types = schema.types := by
    induction services generalizing schema with
    | nil => rfl
    | cons service rest inductionHypothesis => exact inductionHypothesis _
  have byTypes (schema : Schema) : (types.foldl addType schema).types = schema.types ++ types := by
    induction types generalizing schema with
    | nil => simp
    | cons declared rest inductionHypothesis =>
      exact (inductionHypothesis _).trans (List.append_assoc ..)
  rw [ofEntries, byConstants, byServices, byTypes]
  rfl

/-- A declared type is found under its name, and no other one is. -/
theorem Indexed.declaration?_eq_some (indexed : schema.Indexed) {name : String}
    {declared : TypeDeclaration} :
    schema.declaration? name = some declared ↔ declared ∈ schema.types ∧ declared.name = name :=
  indexed.types.lookup?_eq_some

/-- A service is found under its name, and no other one is. -/
theorem Indexed.service?_eq_some (indexed : schema.Indexed) {name : String} {declared : Service} :
    schema.service? name = some declared ↔ declared ∈ schema.services ∧ declared.name = name :=
  indexed.services.lookup?_eq_some

/-- A constant is found under its name, and no other one is. -/
theorem Indexed.constant?_eq_some (indexed : schema.Indexed) {name : String}
    {declared : Constant} :
    schema.constant? name = some declared ↔ declared ∈ schema.constants ∧ declared.name = name :=
  indexed.constants.lookup?_eq_some

/-- A default leaves the name of a declaration as it is. -/
@[simp] theorem name_withDefault (id : Int16) (value : Value) (declared : TypeDeclaration) :
    (declared.withDefault id value).name = declared.name := by
  cases declared <;> rfl

/-- A default leaves the name of a service as it is. -/
@[simp] theorem serviceName_withDefault (name : String) (id : Int16) (value : Value)
    (declared : Service) : (declared.withDefault name id value).name = declared.name := rfl

/-- A default leaves the names of all services as they are. -/
theorem map_serviceName_withDefault (schema : Schema) (pending : PendingDefault) (value : Value) :
    (schema.withDefault pending value).services.map (·.name) = schema.services.map (·.name) := by
  unfold withDefault
  cases pending.method with
  | none => rfl
  | some called => exact NameIndex.map_modify _ _ _ (serviceName_withDefault _ _ _)

/-- A default that is filled in moves no entry and renames none. -/
theorem Indexed.withDefault (indexed : schema.Indexed) (pending : PendingDefault) (value : Value) :
    (schema.withDefault pending value).Indexed where
  types := by
    have same : (schema.withDefault pending value).types.map (·.name) =
        schema.types.map (·.name) := NameIndex.map_modify _ _ _ (name_withDefault _ _)
    rw [same]
    exact indexed.types
  services := by
    rw [map_serviceName_withDefault]
    exact indexed.services
  constants := indexed.constants

/-- A default is filled into the type of its owner. -/
theorem Indexed.types_withDefault (indexed : schema.Indexed) (pending : PendingDefault)
    (value : Value) :
    (schema.withDefault pending value).types = schema.types.map fun declared =>
      if declared.name = pending.owner then declared.withDefault pending.id value else declared :=
  indexed.types.modify_eq_map _ _

/-- A default of an argument is filled into the service of its method. -/
theorem Indexed.services_withDefault (indexed : schema.Indexed) (pending : PendingDefault)
    (value : Value) :
    (schema.withDefault pending value).services =
      match pending.method with
      | none => schema.services
      | some (service, method) => schema.services.map fun declared =>
          if declared.name = service then declared.withDefault method pending.id value
          else declared := by
  unfold Schema.withDefault
  cases pending.method with
  | none => rfl
  | some called => exact indexed.services.modify_eq_map _ _

end Schema

end SchemaCodec
