import SchemaCodec.Proofs.NormalForm

/-!
# How structs and unions are read

A struct or union is read up to its stop exactly where the input is a row of fields: each declared
one has the tag of its type and holds a value of this type, each other one can be stepped over. Only
behind the stop it is decided what the row amounts to. A struct has the last value of each declared
id if no required one is missing, and else the first required one that is missing is reported; a
union has the last value of the only declared id, and else the number of declared ids is reported.

An error of the struct or union as a whole, reported behind the stop, is told apart from the errors
met before it: the former has no path and is about fields, and none of the latter is.
-/

namespace SchemaCodec

/-- An error that the fields of the value at hand make up together: a required one is missing, or
there are none or several where one is called for. -/
def DecodeError.OfFields (error : DecodeError) : Prop :=
  error.path = [] ∧ ((∃ type id name, error.fault = .missingRequiredField type id name) ∨
    ∃ type count, error.fault = .invalidUnionArity type count)

/-- Reading got through to the stop: if it failed, then because of what the fields make up. -/
def ReachesStop (outcome : Except DecodeError Value) : Prop :=
  ∀ error, outcome = .error error → error.OfFields

namespace Decoder

section Failures

variable {α β : Type} {first : Decoder α} {next : α → Decoder β}

/-- A decoder whose errors are never about the fields of the value at hand as a whole. -/
def FailsInside (decoder : Decoder α) : Prop :=
  ∀ source error after, decoder.run source = (.error error, after) → ¬error.OfFields

/-- A result that is given is no failure. -/
theorem FailsInside.pure (result : α) : FailsInside (pure result) := by
  intro source error after failed
  simp at failed

/-- A failure of another kind. -/
theorem FailsInside.fail {fault : DecodeFault} (offset : Nat)
    (present : ∀ type id name, fault ≠ .missingRequiredField type id name)
    (single : ∀ type count, fault ≠ .invalidUnionArity type count) :
    FailsInside (fail fault offset : Decoder α) := by
  intro source error after failed
  simp only [run_fail, Prod.mk.injEq, Except.error.injEq] at failed
  obtain ⟨rfl, -⟩ := failed
  rintro ⟨-, ⟨type, id, name, isMissing⟩ | ⟨type, count, isArity⟩⟩
  · exact present type id name isMissing
  · exact single type count isArity

/-- Of two steps one fails. -/
theorem FailsInside.bind (before : FailsInside first)
    (behind : ∀ result, FailsInside (next result)) :
    FailsInside (first >>= next) := by
  intro source error after failed
  rw [run_bind] at failed
  rcases begun : first.run source with ⟨early | middle, between⟩ <;> rw [begun] at failed
  · simp only [Prod.mk.injEq, Except.error.injEq] at failed
    obtain ⟨rfl, rfl⟩ := failed
    exact before source early between begun
  · exact behind middle between error after failed

/-- An error inside a part of the value has a path. -/
theorem FailsInside.within (step : PathStep) (decoder : Decoder α) :
    FailsInside (within step decoder) := by
  intro source error after failed
  unfold run Decoder.within at failed
  rcases begun : decoder source with ⟨early | result, between⟩ <;>
    simp only [begun, Prod.mk.injEq, Except.error.injEq, reduceCtorEq, false_and] at failed
  obtain ⟨rfl, -⟩ := failed
  rintro ⟨outermost, -⟩
  simp [DecodeError.within] at outermost

/-- A position is told without failing. -/
theorem FailsInside.position : FailsInside position := by
  intro source error after failed
  simp at failed

/-- A failed lookup is about a type. -/
theorem FailsInside.lookup (offset : Nat) (reason : ε → String) (outcome : Except ε α) :
    FailsInside (lookup offset reason outcome) := by
  cases outcome with
  | ok result => exact .pure result
  | error error => exact .fail offset (by simp) (by simp)

/-- A failed read is about the input. -/
theorem FailsInside.bytes (size : Nat) : FailsInside (bytes size) := by
  refine position.bind fun start source error after failed => ?_
  unfold run bytesFrom at failed
  rcases exact : source.readExact size with ⟨reason | bytes, between⟩ <;>
    simp only [exact, Prod.mk.injEq, Except.error.injEq, reduceCtorEq, false_and] at failed
  obtain ⟨rfl, -⟩ := failed
  cases reason with
  | endOfInput => simp [DecodeError.ofRead, DecodeError.OfFields]
  | broken error =>
    by_cases ended : error.kind = .unexpectedEnd <;>
      simp [DecodeError.ofRead, DecodeError.OfFields, ended]

/-- A field header is no field yet. -/
theorem FailsInside.fieldHeader : FailsInside fieldHeader := by
  have code : FailsInside uint8 := (FailsInside.bytes 1).bind fun _ => .pure _
  have id : FailsInside int16 := (FailsInside.bytes 2).bind fun _ => .pure _
  refine position.bind fun start => code.bind fun code => ?_
  split
  · exact .pure none
  · split
    · exact .fail start (by simp) (by simp)
    · exact id.bind fun id => .pure _

/-- Reading fields fails inside if reading one does. The induction is on the attempts. -/
theorem FailsInside.fieldsWithin {field : FieldHeader → Decoder (Option α)}
    (each : ∀ header, FailsInside (field header)) (attempts : Nat) :
    FailsInside (fieldsWithin field attempts) := by
  induction attempts with
  | zero => exact position.bind fun here => .fail here (by simp) (by simp)
  | succ attempts inductionHypothesis =>
    refine fieldHeader.bind fun header => ?_
    cases header with
    | none => exact .pure []
    | some header =>
      refine (each header).bind fun found => inductionHypothesis.bind fun rest => ?_
      cases found with
      | none => exact .pure _
      | some value => exact .pure _

/-- Whatever goes wrong up to the stop of a struct or union is not about its fields as a whole. -/
theorem FailsInside.declaredFields (schema : Schema) (declared : List Field)
    (read : DataType → Decoder Value) (skip : WireTag → Decoder Unit) :
    FailsInside (declaredFields schema declared read skip) := by
  have field (header : FieldHeader) :
      FailsInside (declaredField schema declared read skip header) := by
    unfold declaredField
    split
    · refine (FailsInside.lookup header.offset id _).bind fun expected => ?_
      split
      · exact (FailsInside.within _ _).bind fun value => .pure _
      · exact .within _ _
    · exact (FailsInside.within _ _).bind fun _ => .pure none
  intro source error after failed
  exact fieldsWithin field _ source error after failed

end Failures

/-- A field that a reader of a struct or union gets past: under a declared id it has the tag of the
declared type and holds a value of that type, and under any other id its tag is enough to skip it.
Both go at most that many levels deep. -/
def Passable (schema : Schema) (limits : Limits) (levels : Nat) (declared : List Field)
    (field : WireField Value) : Prop :=
  field.tag ≠ .stop ∧ FieldForm schema declared
    (fun type body value => (valueWithin schema limits levels type).runOnAll body = .ok value)
    (fun tag body => (skipWithin limits levels tag).runOnAll body = .ok ())
    field.tag field.id field.body field.found

/-- The value that the last field in a row has under an id, if it is a declared one. -/
def lastFound (row : List (WireField Value)) (id : Int16) : Option Value :=
  row.reverse.findSome? fun field => if field.id = id then field.found else none

/-- The declared ids in a row, each of them once. -/
def declaredIds (declared : List Field) (row : List (WireField Value)) : List Int16 :=
  ((row.map WireField.id).filter fun id => (fieldById? declared id).isSome).dedup

/-- A field that is required and stands nowhere in a row. -/
def Missing (row : List (WireField Value)) (field : Field) : Prop :=
  field.requiredness = .required ∧ ∀ sent ∈ row, sent.id ≠ field.id

/-- What is read as a struct behind the stop of a row of fields. The two cases exclude each other,
and each says all about the outcome: which fields the struct holds, or which missing field is
reported and where. -/
inductive StructOutcome (declared : StructType) (row : List (WireField Value)) (place : Nat) :
    Except DecodeError Value → Prop
  /-- Nothing is missing: the struct has the last value of each declared id, in ascending order. -/
  | complete {fields : List (Int16 × Value)}
      (present : ∀ field ∈ declared.fields, ¬Missing row field)
      (ascending : Value.KeysAscend compare fields)
      (last : ∀ id, Value.Fields.get? fields id = lastFound row id) :
      StructOutcome declared row place (.ok (.struct fields))
  /-- Something is missing: the first of it, as it is declared, is reported. -/
  | incomplete {before behind : List Field} {field : Field}
      (split : declared.fields = before ++ field :: behind)
      (present : ∀ earlier ∈ before, ¬Missing row earlier) (missing : Missing row field) :
      StructOutcome declared row place
        (.error ⟨.missingRequiredField declared.name field.id field.name, place, []⟩)

/-- What is read as a union behind the stop of a row of fields. -/
inductive UnionOutcome (declared : UnionType) (row : List (WireField Value)) (place : Nat) :
    Except DecodeError Value → Prop
  /-- One declared id is there: the union has its last value. -/
  | single {id : Int16} {value : Value} (only : declaredIds declared.fields row = [id])
      (last : lastFound row id = some value) :
      UnionOutcome declared row place (.ok (.union id value))
  /-- None or several are there: their number is reported. -/
  | other (several : (declaredIds declared.fields row).length ≠ 1) :
      UnionOutcome declared row place (.error
        ⟨.invalidUnionArity declared.name (declaredIds declared.fields row).length, place, []⟩)

/-- A decoder reads rows of fields: it gets through to the stop exactly where the input is a row of
fields that can be passed, and then it stops right behind with an outcome that the row decides. -/
structure ReadsRows (schema : Schema) (limits : Limits) (levels : Nat) (declared : List Field)
    (outcomes : List (WireField Value) → Nat → Except DecodeError Value → Prop)
    (decoder : Decoder Value) : Prop where
  reachesStop_iff : ∀ start bytes, ReachesStop (decoder.run ⟨start, .slice bytes⟩).1 ↔
    ∃ (row : List (WireField Value)) (rest : Bytes),
      (∀ field ∈ row, Passable schema limits levels declared field) ∧
        bytes = row.flatMap WireField.bytes ++ WireTag.stop.code :: rest
  outcome : ∀ start (row : List (WireField Value)) rest,
    (∀ field ∈ row, Passable schema limits levels declared field) →
    let place := start + (row.flatMap WireField.bytes).length + 1
    ∃ outcome, decoder.run
      ⟨start, .slice (row.flatMap WireField.bytes ++ WireTag.stop.code :: rest)⟩ =
        (outcome, ⟨place, .slice rest⟩) ∧ outcomes row place outcome

section Rows

variable {schema : Schema} {limits : Limits} {levels : Nat} {declared : List Field}
  {row : List (WireField Value)}

/-- Reading the fields of a struct or union recognises their sequences. -/
theorem recognises_row (schema : Schema) (limits : Limits) (levels : Nat) (declared : List Field) :
    Recognises (declaredFields schema declared (valueWithin schema limits levels)
      (skipWithin limits levels)) (FieldSequence (FieldForm schema declared
        (Denotes schema limits levels) (Skippable limits levels))) :=
  recognises_declaredFields (recognises_valueWithin schema limits levels)
    (recognises_skipWithin limits levels) declared

/-- A field can be passed when its value is denoted, or when it is skippable. -/
theorem passable_iff {field : WireField Value} :
    Passable schema limits levels declared field ↔ field.tag ≠ .stop ∧
      FieldForm schema declared (Denotes schema limits levels) (Skippable limits levels)
        field.tag field.id field.body field.found := by
  have values (type : DataType) (body : Bytes) (value : Value) :
      (valueWithin schema limits levels type).runOnAll body = .ok value ↔
        Denotes schema limits levels type body value :=
    (recognises_valueWithin schema limits levels type).runOnAll_eq_ok
  have skips (tag : WireTag) (body : Bytes) :
      (skipWithin limits levels tag).runOnAll body = .ok () ↔
        Skippable limits levels tag body :=
    (recognises_skipWithin limits levels tag).runOnAll_eq_ok
  simp only [Passable, values, skips]

/-- Something is found in a field exactly when its id is declared. -/
theorem isSome_found_iff {field : WireField Value}
    (passable : Passable schema limits levels declared field) :
    field.found.isSome = (fieldById? declared field.id).isSome := by
  obtain ⟨-, formed⟩ := passable
  unfold FieldForm at formed
  cases known : fieldById? declared field.id <;> rw [known] at formed
  · simp [formed.2]
  · obtain ⟨-, value, -, found⟩ := formed
    simp [found]

/-- What the struct or union holds under an id is the last value in the row. -/
theorem get?_kept {row : List (WireField Value)} (id : Int16) :
    (Value.Fields.ofList (row.filterMap WireField.kept)).get? id = lastFound row id := by
  rw [Value.Fields.get?_ofList, lastFound, ← List.filterMap_reverse]
  induction row.reverse with
  | nil => rfl
  | cons field earlier inductionHypothesis =>
    cases found : field.found with
    | none => simp [WireField.kept, found, inductionHypothesis]
    | some value => by_cases same : field.id = id <;>
        simp [WireField.kept, found, same, inductionHypothesis]

variable (passable : ∀ field ∈ row, Passable schema limits levels declared field)
include passable

/-- The ids of what is kept of a row are the declared ones in it. -/
theorem ids_kept : (row.filterMap WireField.kept).map (·.1) =
    (row.map WireField.id).filter fun id => (fieldById? declared id).isSome := by
  induction row with
  | nil => rfl
  | cons field rest inductionHypothesis =>
    have here := isSome_found_iff (passable field List.mem_cons_self)
    have there := inductionHypothesis fun other member =>
      passable other (List.mem_cons_of_mem _ member)
    cases found : field.found with
    | none =>
      rw [found, Option.isSome_none, eq_comm] at here
      simp [WireField.kept, found, here, there]
    | some value =>
      rw [found, Option.isSome_some, eq_comm] at here
      simp [WireField.kept, found, here, there]

/-- A row of fields that can be passed is read up to its stop. -/
theorem run_declaredFields (start : Nat) (rest : Bytes) :
    (declaredFields schema declared (valueWithin schema limits levels)
      (skipWithin limits levels)).run
        ⟨start, .slice (row.flatMap WireField.bytes ++ WireTag.stop.code :: rest)⟩ =
      (.ok (row.filterMap WireField.kept),
        ⟨start + (row.flatMap WireField.bytes).length + 1, .slice rest⟩) := by
  have formed : FieldSequence (FieldForm schema declared (Denotes schema limits levels)
      (Skippable limits levels)) (row.flatMap WireField.bytes ++ [WireTag.stop.code])
        (row.filterMap WireField.kept) :=
    ⟨row, fun field member => passable_iff.mp (passable field member), rfl, rfl⟩
  have read := (recognises_row schema limits levels declared).run_slice formed start rest
  rwa [List.append_assoc, List.singleton_append, List.length_append, List.length_singleton,
    ← Nat.add_assoc] at read

/-- A declared field is held exactly when its id stands in the row. -/
theorem contains_kept {field : Field} (isDeclared : field ∈ declared) :
    (Value.Fields.ofList (row.filterMap WireField.kept)).contains field.id ↔
      ∃ sent ∈ row, sent.id = field.id := by
  obtain ⟨known, isKnown⟩ := Schema.exists_fieldById isDeclared
  have ids : (Value.Fields.ofList (row.filterMap WireField.kept)).contains field.id ↔
      field.id ∈ (Value.Fields.ofList (row.filterMap WireField.kept)).map (·.1) := by
    simp [Value.Fields.contains]
  rw [ids, Value.Fields.mem_ids_ofList, ids_kept passable]
  simp [isKnown]

/-- As many ids are held as there are declared ids in the row. -/
theorem ids_ofList_kept_perm :
    ((Value.Fields.ofList (row.filterMap WireField.kept)).map (·.1)).Perm
      (declaredIds declared row) := by
  have ids := Value.Fields.ids_ofList_perm (row.filterMap WireField.kept)
  rwa [ids_kept passable] at ids

end Rows

section Conclusions

/-- What a struct comes to behind its stop. -/
def structConclusion (declared : StructType) (read : List (Int16 × Value)) (place : Nat) :
    Except DecodeError Value :=
  match Schema.missingRequired? declared.fields (Value.Fields.ofList read).contains with
  | some field => .error ⟨.missingRequiredField declared.name field.id field.name, place, []⟩
  | none => .ok (.struct (Value.Fields.ofList read))

/-- What a union comes to behind its stop. -/
def unionConclusion (declared : UnionType) (read : List (Int16 × Value)) (place : Nat) :
    Except DecodeError Value :=
  match Value.Fields.ofList read with
  | [(id, value)] => .ok (.union id value)
  | held => .error ⟨.invalidUnionArity declared.name held.length, place, []⟩

variable {schema : Schema} {limits : Limits} {levels : Nat} {declared : List Field}

/-- A lookup that finds something only decides how reading goes on. -/
theorem lookup_bind_of_ok {outcome : Except ε α} {found : α} (isFound : outcome = .ok found)
    (offset : Nat) (reason : ε → String) (next : α → Decoder β) :
    (lookup offset reason outcome >>= next) = next found := by
  subst isFound
  rfl

/-- A struct is read by its fields, and the conclusion drawn from them. -/
theorem run_struct {type : DataType} {name : String} {declared : StructType}
    (followed : schema.canonical type = .ok (.struct name))
    (named : schema.structType name = .ok declared) (source : Source) :
    (valueWithin schema limits (levels + 1) type).run source =
      match (declaredFields schema declared.fields (valueWithin schema limits levels)
        (skipWithin limits levels)).run source with
      | (.error error, after) => (.error error, after)
      | (.ok read, after) => (structConclusion declared read after.position, after) := by
  rw [valueWithin, run_bind, run_position]
  dsimp only
  rw [lookup_bind_of_ok followed]
  dsimp only
  rw [lookup_bind_of_ok named, run_bind]
  rcases (declaredFields schema declared.fields (valueWithin schema limits levels)
    (skipWithin limits levels)).run source with ⟨error | read, after⟩
  · rfl
  · dsimp only [structConclusion, Schema.missingRequired?]
    generalize declared.fields.find? _ = missing
    cases missing <;> rfl

/-- A union is read by its fields, and the conclusion drawn from them. -/
theorem run_union {type : DataType} {name : String} {declared : UnionType}
    (followed : schema.canonical type = .ok (.union name))
    (named : schema.unionType name = .ok declared) (source : Source) :
    (valueWithin schema limits (levels + 1) type).run source =
      match (declaredFields schema declared.fields (valueWithin schema limits levels)
        (skipWithin limits levels)).run source with
      | (.error error, after) => (.error error, after)
      | (.ok read, after) => (unionConclusion declared read after.position, after) := by
  rw [valueWithin, run_bind, run_position]
  dsimp only
  rw [lookup_bind_of_ok followed]
  dsimp only
  rw [lookup_bind_of_ok named, run_bind]
  rcases (declaredFields schema declared.fields (valueWithin schema limits levels)
    (skipWithin limits levels)).run source with ⟨error | read, after⟩
  · rfl
  · dsimp only [unionConclusion]
    generalize Value.Fields.ofList read = held
    rcases held with _ | ⟨only, _ | ⟨second, others⟩⟩ <;> rfl

/-- A decoder that reads declared fields and draws a conclusion from them, without reading further,
reads rows.

Proof: reading declared fields recognises rows, so it succeeds exactly on a row with a stop behind
it, and a fault inside never lies at the stop. The conclusion is drawn from the fields that are kept
of the row, at the place behind the stop. -/
theorem readsRows_of_conclusion {decoder : Decoder Value}
    {outcomes : List (WireField Value) → Nat → Except DecodeError Value → Prop}
    {conclude : List (Int16 × Value) → Nat → Except DecodeError Value}
    (concludes : ∀ source, decoder.run source =
      match (declaredFields schema declared (valueWithin schema limits levels)
        (skipWithin limits levels)).run source with
      | (.error error, after) => (.error error, after)
      | (.ok read, after) => (conclude read after.position, after))
    (ofFields : ∀ read place, ReachesStop (conclude read place))
    (decided : ∀ row place, (∀ field ∈ row, Passable schema limits levels declared field) →
      outcomes row place (conclude (row.filterMap WireField.kept) place)) :
    ReadsRows schema limits levels declared outcomes decoder where
  reachesStop_iff start bytes := by
    rw [concludes]
    rcases read : (declaredFields schema declared (valueWithin schema limits levels)
      (skipWithin limits levels)).run ⟨start, .slice bytes⟩ with ⟨error | kept, after⟩
    · have inside := FailsInside.declaredFields _ _ _ _ _ error after read
      refine iff_of_false (fun reaches => inside (reaches error rfl)) ?_
      rintro ⟨row, rest, passable, rfl⟩
      rw [run_declaredFields passable] at read
      simp at read
    · refine iff_of_true (ofFields kept after.position) ?_
      obtain ⟨_, rest, rfl, ⟨row, each, rfl, -⟩, -⟩ :=
        (recognises_row schema limits levels declared).form_of_slice read
      exact ⟨row, rest, fun field member => passable_iff.mpr (each field member), by simp⟩
  outcome start row rest passable := by
    refine ⟨_, ?_, decided row _ passable⟩
    rw [concludes, run_declaredFields passable]

/-- The conclusion of a struct is what its row amounts to.

Proof: a required field is missing from the row exactly if the fields that are kept lack its id. The
first field that the check finds is therefore the first one that is missing, and where it finds
none, the struct has the last value of each declared id. -/
theorem structOutcome_conclusion {declared : StructType} {row : List (WireField Value)}
    (passable : ∀ field ∈ row, Passable schema limits levels declared.fields field) (place : Nat) :
    StructOutcome declared row place
      (structConclusion declared (row.filterMap WireField.kept) place) := by
  have lacks {field : Field} (member : field ∈ declared.fields) : Missing row field ↔
      (field.requiredness = .required &&
        !(Value.Fields.ofList (row.filterMap WireField.kept)).contains field.id) = true := by
    have held := contains_kept passable member
    simp [Missing, ← Bool.not_eq_true, held]
  unfold structConclusion Schema.missingRequired?
  split
  case h_1 field isFirst =>
    obtain ⟨required, before, behind, split, others⟩ := List.find?_eq_some_iff_append.mp isFirst
    have member : field ∈ declared.fields := List.mem_of_find?_eq_some isFirst
    refine .incomplete split (fun earlier early absent => ?_) ((lacks member).mpr required)
    have earlierMember : earlier ∈ declared.fields := by
      rw [split]
      exact List.mem_append_left _ early
    have notLacking := others earlier early
    rw [(lacks earlierMember).mp absent] at notLacking
    simp at notLacking
  case h_2 none =>
    refine .complete (fun field member absent => ?_) (Value.Fields.keysAscend_ofList _)
      get?_kept
    exact List.find?_eq_none.mp none field member ((lacks member).mp absent)

/-- The conclusion of a union is what its row amounts to.

Proof: the ids of what is kept are the declared ids of the row without repetitions. So one field is
kept exactly if one id is declared in it, and then it holds the last value of that id; otherwise the
number of ids is the number of fields. -/
theorem unionOutcome_conclusion {declared : UnionType} {row : List (WireField Value)}
    (passable : ∀ field ∈ row, Passable schema limits levels declared.fields field) (place : Nat) :
    UnionOutcome declared row place
      (unionConclusion declared (row.filterMap WireField.kept) place) := by
  have ids := ids_ofList_kept_perm passable
  unfold unionConclusion
  split
  case h_1 id value one =>
    have last := @get?_kept row id
    rw [one] at ids last
    refine .single (List.perm_singleton.mp ids.symm) (last.symm.trans ?_)
    simp [Value.Fields.get?]
  case h_2 several =>
    have length := ids.length_eq
    rw [List.length_map] at length
    rw [length]
    refine .other fun one => ?_
    rw [← length] at one
    obtain ⟨⟨id, value⟩, single⟩ := List.length_eq_one_iff.mp one
    exact several id value single

end Conclusions

end Decoder

open Decoder (ReadsRows StructOutcome UnionOutcome)

/-- Structs and unions are read by rows of fields, at any depth. A read from a slice gets through to
the stop exactly on rows of fields that can be passed, with any rest behind them. A struct is then
complete or the first missing field is reported, and a union has one declared id or their number is
reported.

Proof: both readers read the declared fields and then draw a conclusion from what they kept. A
conclusion reads nothing, and it fails with the errors of its own kind only; the law of rows is
proved for every such conclusion. -/
theorem structs_and_unions_read_rows (schema : Schema) (limits : Limits) (levels : Nat)
    (type : DataType) :
    (∀ name declared, schema.canonical type = .ok (.struct name) →
      schema.structType name = .ok declared →
        ReadsRows schema limits levels declared.fields (StructOutcome declared)
          (Decoder.valueWithin schema limits (levels + 1) type)) ∧
    (∀ name declared, schema.canonical type = .ok (.union name) →
      schema.unionType name = .ok declared →
        ReadsRows schema limits levels declared.fields (UnionOutcome declared)
          (Decoder.valueWithin schema limits (levels + 1) type)) := by
  constructor
  · intro name declared followed named
    refine Decoder.readsRows_of_conclusion (Decoder.run_struct followed named)
      (fun read place error failed => ?_) fun row place passable =>
        Decoder.structOutcome_conclusion passable place
    unfold Decoder.structConclusion at failed
    split at failed <;> simp only [Except.error.injEq, reduceCtorEq] at failed
    subst failed
    exact ⟨rfl, .inl ⟨_, _, _, rfl⟩⟩
  · intro name declared followed named
    refine Decoder.readsRows_of_conclusion (Decoder.run_union followed named)
      (fun read place error failed => ?_) fun row place passable =>
        Decoder.unionOutcome_conclusion passable place
    unfold Decoder.unionConclusion at failed
    split at failed <;> simp only [Except.error.injEq, reduceCtorEq] at failed
    subst failed
    exact ⟨rfl, .inr ⟨_, _, rfl⟩⟩

/-- A union of a number or a text. -/
def markType : UnionType :=
  ⟨"mark.Mark", [
    { id := 1, name := "number", type := .i32, requiredness := .optional },
    { id := 2, name := "text", type := .string, requiredness := .optional }]⟩

/-- A second name for the mark. -/
def gradeName : String := "mark.Grade"

/-- The schema of the mark under both names. -/
def markSchema : Schema :=
  .ofEntries [.union markType, .typedef { name := gradeName, target := .union "mark.Mark" }] [] []

/-- A mark that is given as a number, as a text and as another number, with an unknown field on the
way. -/
def markRow : List (Decoder.WireField Value) := [
  ⟨.i32, 1, [0, 0, 0, 5], some (.i32 5)⟩,
  ⟨.string, 2, [0, 0, 0, 1, 65], some (.string "A")⟩,
  ⟨.set, 9, [3, 0, 0, 0, 2, 7, 7], none⟩,
  ⟨.i32, 1, [0, 0, 0, 6], some (.i32 6)⟩]

/-- The marks are read by rows: a mark that is given in two ways is refused behind its stop with the
number of them, and the wasteful report is a row of fields because it is read.

Proof: by applying the general theorem to the row of a union and to that of a struct. The row of the
union declares two ids, so it amounts to no single one; the wasteful report reaches its stop because
it is read. -/
theorem double_mark_is_refused :
    markSchema.canonical (.typedef gradeName) = .ok (.union "mark.Mark") ∧
      (Decoder.value markSchema {} (.typedef gradeName)).run
        (.ofBytes (markRow.flatMap Decoder.WireField.bytes ++ [0, 255])) =
          (.error ⟨.invalidUnionArity "mark.Mark" 2, 33, []⟩, ⟨33, .slice [255]⟩) ∧
      ∃ (row : List (Decoder.WireField Value)) (rest : Bytes),
        wastefulReportBytes = row.flatMap Decoder.WireField.bytes ++ WireTag.stop.code :: rest := by
  have followed : markSchema.canonical (.typedef gradeName) = .ok (.union "mark.Mark") := by rfl
  have passable : ∀ field ∈ markRow, Decoder.Passable markSchema {} 64 markType.fields field := by
    simp only [markRow, List.forall_mem_cons]
    refine ⟨⟨by decide, by rfl, .i32 5, by rfl, rfl⟩,
      ⟨by decide, by rfl, .string "A", by rfl, rfl⟩, ⟨by decide, by rfl, rfl⟩,
      ⟨by decide, by rfl, .i32 6, by rfl, rfl⟩, by simp⟩
  refine ⟨followed, ?_, ?_⟩
  · obtain ⟨-, unions⟩ := structs_and_unions_read_rows markSchema {} 64 (.typedef gradeName)
    obtain ⟨outcome, ran, amounts⟩ :=
      (unions "mark.Mark" markType followed (by rfl)).outcome 0 markRow [255] passable
    have ids : Decoder.declaredIds markType.fields markRow = [2, 1] := by decide
    cases amounts with
    | single only last => simp [ids] at only
    | other several =>
      rw [ids] at ran
      exact ran
  · obtain ⟨structs, -⟩ := structs_and_unions_read_rows reportSchema {} 64
      (.struct "report.Report")
    have rows := structs "report.Report" _ (by rfl) (by rfl)
    have reaches : ReachesStop ((Decoder.value reportSchema {} (.struct "report.Report")).run
        (.ofBytes wastefulReportBytes)).1 := by
      intro error failed
      have read : (Decoder.value reportSchema {} (.struct "report.Report")).run
          (.ofBytes wastefulReportBytes) = (.ok report, ⟨44, .slice [255]⟩) := by rfl
      simp [read] at failed
    obtain ⟨row, rest, -, split⟩ := (rows.reachesStop_iff 0 wastefulReportBytes).mp reaches
    exact ⟨row, rest, split⟩

end SchemaCodec
