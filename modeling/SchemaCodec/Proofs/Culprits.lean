import SchemaCodec.Proofs.ClosedGraph
import SchemaCodec.Proofs.Places

/-!
# Culprits of failed checks

A check that fails names a fault and a path. The path is made backwards, one step for each value on
the way out, so it is followed here one step at a time: behind its first step the same check fails
with the rest of the path, and all that is looked at before that step is accepted.

Main statement: the path leads to a value that fails by itself with the fault that was reported, and
every value before it is accepted.
-/

namespace SchemaCodec

/-- A check looks behind one step before it looks behind another one: elements by position, entries
by position with each key before its value, and fields by id. Steps into values of different kinds
are not compared, since no value takes both. -/
def PathStep.Precedes : PathStep → PathStep → Prop
  | .index earlier, .index later => earlier < later
  | .key earlier, .key later => earlier < later
  | .key earlier, .value later => earlier ≤ later
  | .value earlier, .key later => earlier < later
  | .value earlier, .value later => earlier < later
  | .field earlier, .field later => earlier < later
  | _, _ => False

/-- Which of two steps comes first can be computed. -/
instance : DecidableRel PathStep.Precedes
  | .index earlier, .index later | .key earlier, .key later | .value earlier, .key later
  | .value earlier, .value later => inferInstanceAs (Decidable (earlier < later))
  | .key earlier, .value later => inferInstanceAs (Decidable (earlier ≤ later))
  | .field earlier, .field later => inferInstanceAs (Decidable (earlier < later))
  | .index _, .key _ | .index _, .value _ | .index _, .field _ | .key _, .index _ | .key _, .field _
  | .value _, .index _ | .value _, .field _ | .field _, .index _ | .field _, .key _
  | .field _, .value _ => .isFalse id

/-- A check looks at the value at the end of one path before it looks at the one at the end of
another. A value and the values inside it precede each other in neither direction. -/
def FieldPath.Precedes : FieldPath → FieldPath → Prop
  | earlier :: inside, later :: behind =>
    earlier.Precedes later ∨ earlier = later ∧ FieldPath.Precedes inside behind
  | _, _ => False

/-- Which of two paths comes first can be computed, step by step. -/
instance FieldPath.decidablePrecedes : DecidableRel FieldPath.Precedes
  | [], _ | _ :: _, [] => .isFalse id
  | earlier :: inside, later :: behind =>
    have := decidablePrecedes inside behind
    inferInstanceAs (Decidable
      (earlier.Precedes later ∨ earlier = later ∧ FieldPath.Precedes inside behind))

/-- What comes before a place comes before everything inside it. -/
theorem FieldPath.Precedes.append {first second : FieldPath} (precedes : first.Precedes second)
    (inside : FieldPath) : first.Precedes (second ++ inside) := by
  induction second generalizing first with
  | nil => cases first <;> exact precedes.elim
  | cons later behind inductionHypothesis =>
    cases first with
    | nil => exact precedes.elim
    | cons earlier rest => exact precedes.imp_right (And.imp_right inductionHypothesis)

/-- Where a check stopped: at the value at fault or, when this is a struct with a field that is not
declared, at the field. -/
def ValueError.stop (error : ValueError) : FieldPath :=
  match error.fault with
  | .undeclaredField _ id => error.path ++ [.field id]
  | _ => error.path

/-- Seen from the value around, a check stopped behind one more step. -/
@[simp] theorem ValueError.stop_within (step : PathStep) (error : ValueError) :
    (error.within step).stop = step :: error.stop := by
  obtain ⟨fault, path⟩ := error
  cases fault <;> rfl

namespace Schema

open Outcome (bind_eq_error mapError_eq_error)

variable {schema : Schema} {limit depth : Nat} {type : DataType} {error : ValueError}

/-- What lies behind a step, if anything, has a type and is accepted one level deeper. -/
def AcceptsInside (schema : Schema) (limit : Nat) (value : Value) (type : DataType) (depth : Nat)
    (step : PathStep) : Prop :=
  ∀ part, value.at? step = some part → ∃ inner, schema.typeAt? type step = some inner ∧
    schema.checkValue limit part inner (depth + 1) = .ok ()

section FirstFailure

/-- Elements fail at the first one that does not fit. -/
theorem checkElements_eq_error {items : List Value} {position : Nat}
    (failed : schema.checkElements limit items type depth position = .error error) :
    ∃ before item after inner, items = before ++ item :: after ∧
      (∀ other ∈ before, schema.checkValue limit other type depth = .ok ()) ∧
        schema.checkValue limit item type depth = .error inner ∧
          inner.within (.index (position + before.length)) = error := by
  induction items generalizing position with
  | nil => simp [checkElements] at failed
  | cons item rest inductionHypothesis =>
    rw [checkElements, bind_eq_error] at failed
    rcases failed with here | ⟨_, accepted, there⟩
    · obtain ⟨inner, itemFailed, same⟩ := mapError_eq_error.mp here
      exact ⟨[], item, rest, inner, rfl, by simp, itemFailed, same⟩
    · obtain ⟨before, culprit, after, inner, rfl, allAccepted, culpritFailed, same⟩ :=
        inductionHypothesis there
      refine ⟨item :: before, culprit, after, inner, rfl,
        List.forall_mem_cons.mpr ⟨insideValue_eq_ok.mp accepted, allAccepted⟩, culpritFailed, ?_⟩
      rwa [List.length_cons, Nat.add_comm before.length, ← Nat.add_assoc]

/-- Entries fail at the first one whose key or value does not fit, the key before the value.

Proof: by induction on the entries. The first entry fails at its key, or at its value behind an
accepted key, or it joins those in front of the culprit, whose position it moves by one. -/
theorem checkEntries_eq_error {entries : List (Value × Value)} {keyType valueType : DataType}
    {position : Nat}
    (failed : schema.checkEntries limit entries keyType valueType depth position = .error error) :
    ∃ before key held after inner, entries = before ++ (key, held) :: after ∧
      (∀ other ∈ before, schema.checkValue limit other.1 keyType depth = .ok () ∧
        schema.checkValue limit other.2 valueType depth = .ok ()) ∧
      (schema.checkValue limit key keyType depth = .error inner ∧
          inner.within (.key (position + before.length)) = error ∨
        schema.checkValue limit key keyType depth = .ok () ∧
          schema.checkValue limit held valueType depth = .error inner ∧
            inner.within (.value (position + before.length)) = error) := by
  induction entries generalizing position with
  | nil => simp [checkEntries] at failed
  | cons entry rest inductionHypothesis =>
    obtain ⟨key, held⟩ := entry
    simp only [checkEntries, bind_eq_error] at failed
    rcases failed with atKey | ⟨_, keyAccepted, atValue | ⟨_, valueAccepted, there⟩⟩
    · obtain ⟨inner, keyFailed, same⟩ := mapError_eq_error.mp atKey
      exact ⟨[], key, held, rest, inner, rfl, by simp, .inl ⟨keyFailed, same⟩⟩
    · obtain ⟨inner, valueFailed, same⟩ := mapError_eq_error.mp atValue
      exact ⟨[], key, held, rest, inner, rfl, by simp,
        .inr ⟨insideValue_eq_ok.mp keyAccepted, valueFailed, same⟩⟩
    · obtain ⟨before, culpritKey, culprit, after, inner, rfl, allAccepted, culpritFailed⟩ :=
        inductionHypothesis there
      refine ⟨(key, held) :: before, culpritKey, culprit, after, inner, rfl,
        List.forall_mem_cons.mpr
          ⟨⟨insideValue_eq_ok.mp keyAccepted, insideValue_eq_ok.mp valueAccepted⟩, allAccepted⟩, ?_⟩
      rwa [List.length_cons, Nat.add_comm before.length, ← Nat.add_assoc]

/-- Fields fail at the first one that is not declared or whose value does not fit.

Proof: by induction on the fields, with the lookup of the first id and the check of its value as
cases. A field that is accepted joins those in front of the culprit. -/
theorem checkFields_eq_error {fields : List (Int16 × Value)} {name : String}
    {declared : List Field}
    (failed : schema.checkFields limit fields name declared depth = .error error) :
    ∃ before id held after, fields = before ++ (id, held) :: after ∧
      (∀ other ∈ before, ∃ found, fieldById? declared other.1 = some found ∧
        schema.checkValue limit other.2 found.type depth = .ok ()) ∧
      (fieldById? declared id = none ∧ error = ⟨.undeclaredField name id, []⟩ ∨
        ∃ found inner, fieldById? declared id = some found ∧
          schema.checkValue limit held found.type depth = .error inner ∧
            inner.within (.field id) = error) := by
  induction fields with
  | nil => simp [checkFields] at failed
  | cons field rest inductionHypothesis =>
    obtain ⟨id, held⟩ := field
    cases known : fieldById? declared id with
    | none =>
      simp only [checkFields, known, Except.error.injEq] at failed
      exact ⟨[], id, held, rest, rfl, by simp, .inl ⟨known, failed.symm⟩⟩
    | some found =>
      simp only [checkFields, known, bind_eq_error] at failed
      rcases failed with here | ⟨_, accepted, there⟩
      · obtain ⟨inner, heldFailed, same⟩ := mapError_eq_error.mp here
        exact ⟨[], id, held, rest, rfl, by simp, .inr ⟨found, inner, known, heldFailed, same⟩⟩
      · obtain ⟨before, culprit, culpritHeld, after, rfl, allAccepted, culpritFailed⟩ :=
          inductionHypothesis there
        exact ⟨(id, held) :: before, culprit, culpritHeld, after, rfl,
          List.forall_mem_cons.mpr
            ⟨⟨found, known, insideValue_eq_ok.mp accepted⟩, allAccepted⟩, culpritFailed⟩

end FirstFailure

/-- How the check of a value fails: at the value itself, at a field that is not declared, or behind
a step. All that is looked at before is accepted. -/
inductive Fails (schema : Schema) (limit : Nat) (value : Value) (type : DataType) (depth : Nat)
    (error : ValueError) : Prop where
  | here (path : error.path = []) (stop : error.stop = [])
  | undeclared {step : PathStep} (path : error.path = []) (stop : error.stop = [step])
      (before : ∀ earlier : PathStep, earlier.Precedes step →
        schema.AcceptsInside limit value type depth earlier)
  | inside {step : PathStep} {part : Value} {inner : DataType} {partError : ValueError}
      (before : ∀ earlier : PathStep, earlier.Precedes step →
        schema.AcceptsInside limit value type depth earlier)
      (reached : value.at? step = some part) (asked : schema.typeAt? type step = some inner)
      (failed : schema.checkValue limit part inner (depth + 1) = .error partError)
      (same : partError.within step = error)

section Layer

variable {value : Value} {behind : DataType}

/-- A lookup fails at the value itself. -/
theorem fails_of_lookedUp {outcome : Except LookupError α}
    (failed : lookedUp outcome = .error error) :
    schema.Fails limit value type depth error := by
  obtain ⟨inner, -, rfl⟩ := mapError_eq_error.mp failed
  exact .here rfl rfl

/-- A check that begins with the expected type fails at the value itself, or the type is known. -/
theorem fails_of_expectedAt {check : DataType → Except ValueError Unit}
    (failed : (schema.expectedAt limit type depth >>= check) = .error error)
    (fails : ∀ behind, schema.canonical type = .ok behind → check behind = .error error →
      schema.Fails limit value type depth error) :
    schema.Fails limit value type depth error := by
  rcases bind_eq_error.mp failed with unknown | ⟨behind, expected, there⟩
  · unfold expectedAt at unknown
    split at unknown
    · obtain rfl := Except.error.inj unknown
      exact .here rfl rfl
    · exact fails_of_lookedUp unknown
  · exact fails behind (expectedAt_eq_ok.mp expected).2 there

/-- A value of another kind fails itself. -/
theorem fails_of_mismatch {expected : DataType} {found : String}
    (failed : (.error (.mismatch expected found) : Except ValueError Unit) = .error error) :
    schema.Fails limit value type depth error := by
  obtain rfl := Except.error.inj failed
  exact .here rfl rfl

/-- A value without parts fails itself. -/
theorem fails_of_checkPrimitive {kind : DataType}
    (failed : schema.checkPrimitive limit kind type depth = .error error) :
    schema.Fails limit value type depth error := by
  refine fails_of_expectedAt failed fun behind _ unfit => ?_
  split at unfit
  · simp at unfit
  · exact fails_of_mismatch unfit

/-- A label fails itself. -/
theorem fails_of_checkLabel {declared : EnumType} {number : Int32} {label : Option String}
    (failed : checkLabel declared number label = .error error) :
    schema.Fails limit value type depth error := by
  unfold checkLabel at failed
  split at failed
  · simp at failed
  · split at failed
    · obtain rfl := Except.error.inj failed
      exact .here rfl rfl
    · split at failed
      · simp at failed
      · obtain rfl := Except.error.inj failed
        exact .here rfl rfl

/-- A list or a set fails at its first element that does not fit. -/
theorem fails_of_checkElements {items : List Value} {element : DataType}
    (held : ∀ position, value.at? (.index position) = items[position]?)
    (asked : ∀ position, schema.typeAt? type (.index position) = some element)
    (failed : schema.checkElements limit items element (depth + 1) 0 = .error error) :
    schema.Fails limit value type depth error := by
  obtain ⟨before, item, after, inner, rfl, accepted, itemFailed, same⟩ :=
    checkElements_eq_error failed
  rw [Nat.zero_add] at same
  refine .inside (fun earlier precedes part reached => ?_) ((held _).trans (by simp)) (asked _)
    itemFailed same
  cases earlier with
  | index position =>
    have inFront : position < before.length := precedes
    rw [held, List.getElem?_append_left inFront] at reached
    exact ⟨element, asked position, accepted part (List.mem_of_getElem? reached)⟩
  | _ => exact precedes.elim

/-- A map fails at its first entry that does not fit.

Proof: the check names the first entry that does not fit, with all entries in front of it accepted.
The key of an entry precedes its value, so a value that fails has its own accepted key among what
precedes it. -/
theorem fails_of_checkEntries {entries : List (Value × Value)} {keyType valueType : DataType}
    (followed : schema.canonical type = .ok (.map keyType valueType))
    (failed : schema.checkEntries limit entries keyType valueType (depth + 1) 0 = .error error) :
    schema.Fails limit (.map entries) type depth error := by
  have askedKey (position : Nat) : schema.typeAt? type (.key position) = some keyType :=
    typeAt?_eq_some.mpr ⟨_, followed, rfl⟩
  have askedValue (position : Nat) : schema.typeAt? type (.value position) = some valueType :=
    typeAt?_eq_some.mpr ⟨_, followed, rfl⟩
  obtain ⟨before, key, held, after, inner, rfl, accepted, culprit⟩ := checkEntries_eq_error failed
  rw [Nat.zero_add] at culprit
  have keyBefore {position : Nat} (inFront : position < before.length) : schema.AcceptsInside limit
      (.map (before ++ (key, held) :: after)) type depth (.key position) := by
    intro part reached
    rw [Value.at?, List.getElem?_append_left inFront] at reached
    obtain ⟨entry, isEntry, rfl⟩ := Option.map_eq_some_iff.mp reached
    exact ⟨keyType, askedKey position, (accepted entry (List.mem_of_getElem? isEntry)).1⟩
  have valueBefore {position : Nat} (inFront : position < before.length) :
      schema.AcceptsInside limit (.map (before ++ (key, held) :: after)) type depth
        (.value position) := by
    intro part reached
    rw [Value.at?, List.getElem?_append_left inFront] at reached
    obtain ⟨entry, isEntry, rfl⟩ := Option.map_eq_some_iff.mp reached
    exact ⟨valueType, askedValue position, (accepted entry (List.mem_of_getElem? isEntry)).2⟩
  rcases culprit with ⟨keyFailed, same⟩ | ⟨keyAccepted, valueFailed, same⟩
  · refine .inside (fun earlier precedes => ?_) (by simp [Value.at?]) (askedKey _) keyFailed same
    cases earlier with
    | key position => exact keyBefore precedes
    | value position => exact valueBefore precedes
    | _ => exact precedes.elim
  · refine .inside (fun earlier precedes => ?_) (by simp [Value.at?]) (askedValue _) valueFailed
      same
    cases earlier with
    | key position =>
      rcases Nat.lt_or_eq_of_le precedes with inFront | rfl
      · exact keyBefore inFront
      · intro part reached
        obtain rfl : key = part := by simpa [Value.at?] using reached
        exact ⟨keyType, askedKey _, keyAccepted⟩
    | value position => exact valueBefore precedes
    | _ => exact precedes.elim

/-- A struct whose required fields are set fails at its first field that does not fit.

Proof: the check names the first field that does not fit. Ids ascend, so a place of a smaller id is
in front of it and was accepted, and what is found under its own id is the field itself. -/
theorem fails_of_checkFields {fields : List (Int16 × Value)} {name : String}
    {declared : StructType} (ascending : Value.KeysAscend compare fields)
    (followed : schema.canonical type = .ok (.struct name))
    (named : schema.structType name = .ok declared)
    (failed : schema.checkFields limit fields name declared.fields (depth + 1) = .error error) :
    schema.Fails limit (.struct fields) type depth error := by
  have asked {id : Int16} {found : Field} (known : fieldById? declared.fields id = some found) :
      schema.typeAt? type (.field id) = some found.type :=
    typeAt?_eq_some.mpr ⟨_, followed, partType?_struct.mpr ⟨declared, found, named, known, rfl⟩⟩
  obtain ⟨before, id, held, after, rfl, accepted, culprit⟩ := checkFields_eq_error failed
  obtain ⟨-, behind, below⟩ := List.pairwise_append.mp ascending
  have acceptedBefore : ∀ earlier : PathStep, earlier.Precedes (.field id) →
      schema.AcceptsInside limit (.struct (before ++ (id, held) :: after)) type depth earlier := by
    intro earlier precedes part reached
    cases earlier with
    | field other =>
      have less : other < id := precedes
      rcases List.mem_append.mp (Value.mem_of_get? reached) with inFront | isLater
      · obtain ⟨found, known, fits⟩ := accepted _ inFront
        exact ⟨found.type, asked known, fits⟩
      · rcases List.mem_cons.mp isLater with same | isAfter
        · obtain rfl := congrArg Prod.fst same
          exact absurd less Int16.lt_irrefl
        · have greater := Std.compare_eq_lt.mp ((List.pairwise_cons.mp behind).1 _ isAfter)
          exact absurd (Int16.lt_trans less greater) Int16.lt_irrefl
    | _ => exact precedes.elim
  rcases culprit with ⟨-, rfl⟩ | ⟨found, inner, known, heldFailed, same⟩
  · exact .undeclared rfl rfl acceptedBefore
  · have reached : Value.Fields.get? (before ++ (id, held) :: after) id = some held :=
      (Value.get?_eq_some_iff (Value.Fields.nodup_of_ascending ascending)).mpr (by simp)
    exact .inside acceptedBefore reached (asked known) heldFailed same

/-- A union fails at its one field, which is not declared or holds what does not fit.

Proof: an id that is not declared fails at the field, and a declared one fails inside the value that
is held. Either way no other place precedes it. -/
theorem fails_of_checkUnion {id : Int16} {held : Value} {name : String} {declared : UnionType}
    (followed : schema.canonical type = .ok (.union name))
    (named : schema.unionType name = .ok declared)
    (failed : (match fieldById? declared.fields id with
      | none => Except.error ⟨.undeclaredField name id, []⟩
      | some field => insideValue (.field id)
        (schema.checkValue limit held field.type (depth + 1))) = Except.error error) :
    schema.Fails limit (.union id held) type depth error := by
  -- No other field is set, so nothing precedes the one that is.
  have alone : ∀ earlier : PathStep, earlier.Precedes (.field id) →
      schema.AcceptsInside limit (.union id held) type depth earlier := by
    intro earlier precedes part reached
    cases earlier with
    | field other =>
      obtain ⟨rfl, -⟩ := Option.ite_none_right_eq_some.mp reached
      exact absurd precedes Int16.lt_irrefl
    | _ => exact precedes.elim
  cases known : fieldById? declared.fields id with
  | none =>
    simp only [known, Except.error.injEq] at failed
    subst failed
    exact .undeclared rfl rfl alone
  | some found =>
    simp only [known] at failed
    obtain ⟨inner, heldFailed, same⟩ := mapError_eq_error.mp failed
    have asked := typeAt?_eq_some.mpr
      ⟨_, followed, partType?_union.mpr ⟨declared, found, named, known, rfl⟩⟩
    exact .inside alone (if_pos rfl) asked heldFailed same

/-- A check of an ordered value fails at the value itself, at a field that is not declared, or
behind a step.

Proof: by the constructor of the value and, for containers, by the type behind all typedefs. A type
of another kind, a missing field, an unknown declaration and a wrong label fail at the value itself;
everything else fails inside, and the lemma for that container says which part comes first. -/
theorem fails_of_checkValue (ordered : value.Ordered)
    (failed : schema.checkValue limit value type depth = .error error) :
    schema.Fails limit value type depth error := by
  cases value with
  | list items =>
    refine fails_of_expectedAt failed fun behind followed unfit => ?_
    cases behind with
    | list element =>
      exact fails_of_checkElements (fun _ => rfl)
        (fun _ => typeAt?_eq_some.mpr ⟨_, followed, rfl⟩) unfit
    | _ => exact fails_of_mismatch unfit
  | set elements =>
    refine fails_of_expectedAt failed fun behind followed unfit => ?_
    cases behind with
    | set element =>
      exact fails_of_checkElements (fun _ => rfl)
        (fun _ => typeAt?_eq_some.mpr ⟨_, followed, rfl⟩) unfit
    | _ => exact fails_of_mismatch unfit
  | map entries =>
    refine fails_of_expectedAt failed fun behind followed unfit => ?_
    cases behind with
    | map keyType valueType => exact fails_of_checkEntries followed unfit
    | _ => exact fails_of_mismatch unfit
  | struct fields =>
    refine fails_of_expectedAt failed fun behind followed unfit => ?_
    cases behind with
    | struct name =>
      rcases bind_eq_error.mp unfit with unknown | ⟨declared, named, unfit⟩
      · exact fails_of_lookedUp unknown
      · cases missing : missingRequired? declared.fields (Value.Fields.contains fields) with
        | some field =>
          simp only [missing, Except.error.injEq] at unfit
          subst unfit
          exact .here rfl rfl
        | none =>
          simp only [missing] at unfit
          exact fails_of_checkFields ordered.here followed (lookedUp_eq_ok.mp named) unfit
    | _ => exact fails_of_mismatch unfit
  | union id held =>
    refine fails_of_expectedAt failed fun behind followed unfit => ?_
    cases behind with
    | union name =>
      rcases bind_eq_error.mp unfit with unknown | ⟨declared, named, unfit⟩
      · exact fails_of_lookedUp unknown
      · exact fails_of_checkUnion followed (lookedUp_eq_ok.mp named) unfit
    | _ => exact fails_of_mismatch unfit
  | enum number label =>
    refine fails_of_expectedAt failed fun behind followed unfit => ?_
    cases behind with
    | enum name =>
      rcases bind_eq_error.mp unfit with unknown | ⟨declared, -, unfit⟩
      · exact fails_of_lookedUp unknown
      · exact fails_of_checkLabel unfit
    | _ => exact fails_of_mismatch unfit
  | _ => exact fails_of_checkPrimitive failed

end Layer

section Path

variable {value : Value}

/-- What lies at the end of a path, if anything, has a type and is accepted at its own depth. -/
def AcceptsAt (schema : Schema) (limit : Nat) (value : Value) (type : DataType) (depth : Nat)
    (path : FieldPath) : Prop :=
  ∀ part, value.walk path = some part → ∃ inner, schema.typeWalk type path = some inner ∧
    schema.checkValue limit part inner (depth + path.length) = .ok ()

/-- What lies inside an accepted part is accepted. -/
theorem AcceptsInside.acceptsAt {step : PathStep}
    (accepts : schema.AcceptsInside limit value type depth step) (rest : FieldPath) :
    schema.AcceptsAt limit value type depth (step :: rest) := by
  intro part reached
  obtain ⟨inside, first, behind⟩ := Value.walk_cons_eq_some.mp reached
  obtain ⟨between, asked, accepted⟩ := accepts inside first
  obtain ⟨inner, isInner, partAccepted⟩ := checkValue_walk accepted behind
  refine ⟨inner, typeWalk_cons_eq_some.mpr ⟨between, asked, isInner⟩, ?_⟩
  rwa [List.length_cons, Nat.add_comm rest.length, ← Nat.add_assoc]

/-- The path of an error leads to a value and its type, and this value fails by itself. The
induction is on the path: behind its first step the check fails with the rest. -/
theorem exists_culprit (ordered : value.Ordered)
    (failed : schema.checkValue limit value type depth = .error error) :
    ∃ part inner, value.walk error.path = some part ∧
      schema.typeWalk type error.path = some inner ∧
        schema.checkValue limit part inner (depth + error.path.length) =
          .error ⟨error.fault, []⟩ := by
  obtain ⟨fault, path⟩ := error
  induction path generalizing value type depth with
  | nil => exact ⟨value, type, rfl, rfl, failed⟩
  | cons step rest inductionHypothesis =>
    cases fails_of_checkValue ordered failed with
    | here path | undeclared path => simp at path
    | @inside _ part inner partError _ reached asked partFailed same =>
      obtain ⟨partFault, partPath⟩ := partError
      simp only [ValueError.within, ValueError.mk.injEq, List.cons.injEq] at same
      obtain ⟨rfl, rfl, rfl⟩ := same
      obtain ⟨culprit, culpritType, isCulprit, isType, culpritFailed⟩ :=
        inductionHypothesis (ordered.at? reached) partFailed
      refine ⟨culprit, culpritType, Value.walk_cons_eq_some.mpr ⟨part, reached, isCulprit⟩,
        typeWalk_cons_eq_some.mpr ⟨inner, asked, isType⟩, ?_⟩
      rwa [List.length_cons, Nat.add_comm partPath.length, ← Nat.add_assoc]

/-- What precedes the place where a check stopped is accepted.

Proof: by induction on the path. A path that leaves the one of the error at its first step leads to
a part that was checked before; one that shares this step is decided inside the part that failed. -/
theorem acceptsAt_of_precedes_stop (ordered : value.Ordered)
    (failed : schema.checkValue limit value type depth = .error error) {path : FieldPath}
    (precedes : path.Precedes error.stop) : schema.AcceptsAt limit value type depth path := by
  induction path generalizing value type depth error with
  | nil => simp [FieldPath.Precedes] at precedes
  | cons earlier rest inductionHypothesis =>
    cases fails_of_checkValue ordered failed with
    | here _ stop => simp [stop, FieldPath.Precedes] at precedes
    | undeclared _ stop before =>
      rw [stop] at precedes
      rcases precedes with parts | ⟨-, behind⟩
      · exact (before earlier parts).acceptsAt rest
      · cases rest <;> exact behind.elim
    | @inside step part inner partError before reached asked partFailed same =>
      rw [← same, ValueError.stop_within] at precedes
      rcases precedes with parts | ⟨rfl, behind⟩
      · exact (before earlier parts).acceptsAt rest
      · intro other isOther
        obtain ⟨inside, first, isBehind⟩ := Value.walk_cons_eq_some.mp isOther
        obtain rfl := Option.some.inj (reached.symm.trans first)
        obtain ⟨otherType, isType, accepted⟩ :=
          inductionHypothesis (ordered.at? reached) partFailed behind other isBehind
        refine ⟨otherType, typeWalk_cons_eq_some.mpr ⟨inner, asked, isType⟩, ?_⟩
        rwa [List.length_cons, Nat.add_comm rest.length, ← Nat.add_assoc]

/-- Errors of checks point at the culprit. The path of an error always leads to a value and to the
type that is asked for there; this value by itself, checked at its own depth, has the fault that was
reported; and every value that was looked at before it is accepted at its own depth. So are the
values of the fields in front of one that is not declared.

Proof: the culprit is found by going down the path step by step. What precedes the place where the
check stopped was accepted, and this place is the end of the path, or the undeclared field behind
it; so whatever precedes the path precedes it as well. -/
theorem error_points_at_culprit (ordered : value.Ordered)
    (failed : schema.checkValue limit value type 0 = .error error) :
    (∃ part inner, value.walk error.path = some part ∧
      schema.typeWalk type error.path = some inner ∧
        schema.checkValue limit part inner error.path.length = .error ⟨error.fault, []⟩) ∧
    (∀ path : FieldPath, path.Precedes error.path → schema.AcceptsAt limit value type 0 path) ∧
    ∀ name id, error.fault = .undeclaredField name id →
      ∀ path : FieldPath, path.Precedes (error.path ++ [.field id]) →
        schema.AcceptsAt limit value type 0 path := by
  refine ⟨?_, fun path precedes => ?_, fun name id undeclared path precedes => ?_⟩
  · obtain ⟨part, inner, reached, asked, partFailed⟩ := exists_culprit ordered failed
    exact ⟨part, inner, reached, asked, by rwa [Nat.zero_add] at partFailed⟩
  · refine acceptsAt_of_precedes_stop ordered failed ?_
    unfold ValueError.stop
    split
    · exact precedes.append _
    · exact precedes
  · refine acceptsAt_of_precedes_stop ordered failed ?_
    unfold ValueError.stop
    rwa [undeclared]

/-- An item of two parts, of which the second has a number as its label. -/
def crate : Value := .struct [
  (1, .string "crate"),
  (3, .list [.struct [(1, .string "bolt")], .struct [(1, .i32 7)]])]

/-- The error about the crate points at the number, in a place where a label is asked for, and the
first part is accepted. -/
theorem crate_error_points_at_number :
    (∃ part inner, crate.walk [.field 3, .index 1, .field 1] = some part ∧
      storeSchema.typeWalk (.struct "a.Item") [.field 3, .index 1, .field 1] = some inner ∧
        storeSchema.checkValue 64 part inner 3 = .error ⟨.wrongVariant "string" "i32", []⟩) ∧
    storeSchema.AcceptsAt 64 crate (.struct "a.Item") 0 [.field 3, .index 0] := by
  have ordered : crate.Ordered := by decide
  have failed : storeSchema.checkValue 64 crate (.struct "a.Item") 0 =
      .error ⟨.wrongVariant "string" "i32", [.field 3, .index 1, .field 1]⟩ := rfl
  obtain ⟨culprit, before, -⟩ := error_points_at_culprit ordered failed
  exact ⟨culprit, before _ (by decide)⟩

end Path

end Schema

end SchemaCodec
