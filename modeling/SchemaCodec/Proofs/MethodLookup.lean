import Mathlib.Data.List.Nodup
import Mathlib.Data.List.Perm.Subperm
import Mathlib.Data.Nat.Find
import SchemaCodec.Proofs.ClosedGraph

/-!
# The nearest declaration of a method

A service, the service that it extends, the one that this extends and so on are a chain, which is
endless where services extend each other. A method is looked up on as many services of the chain as
the schema has and on one more. These are enough: up to the nearest declaration no service is met
twice, since behind a repeated service the declaration would be nearer.
-/

namespace SchemaCodec

namespace Schema

variable {schema : Schema} {start : Service} {method : String}

/-- The service that a service extends. -/
def extended? (schema : Schema) (service : Service) : Option Service :=
  service.parent.bind fun parent => schema.services.find? (·.name = parent)

/-- The service at a distance on the chain of extended services, counted from the start, which is at
distance zero. The chain may come back to where it was, and then goes on for ever. -/
def ancestor? (schema : Schema) (start : Service) : Nat → Option Service
  | 0 => some start
  | distance + 1 => (schema.extended? start).bind (schema.ancestor? · distance)

/-- The nearest service on the chain that declares a method, and its declaration. No service in
front of it declares a method of that name, so one that comes again in a circle is counted where it
comes first. -/
structure Nearest (schema : Schema) (start : Service) (method : String) (distance : Nat)
    (owner : Service) (declared : Method) : Prop where
  isAncestor : schema.ancestor? start distance = some owner
  declares : owner.method? method = some declared
  lacking : ∀ closer < distance, ∀ nearer,
    schema.ancestor? start closer = some nearer → nearer.method? method = none

/-- A part of the chain followed by another part. -/
theorem ancestor?_add (first second : Nat) :
    schema.ancestor? start (first + second) =
      (schema.ancestor? start first).bind (schema.ancestor? · second) := by
  induction first generalizing start with
  | zero => simp [ancestor?]
  | succ first inductionHypothesis =>
    rw [Nat.succ_add_eq_add_succ, Nat.add_succ, ancestor?, ancestor?, Option.bind_assoc]
    exact Option.bind_congr fun above _ => inductionHypothesis

/-- The services of the chain are services of the schema. -/
theorem mem_services_of_ancestor? (isService : start ∈ schema.services) {distance : Nat}
    {above : Service} (isAncestor : schema.ancestor? start distance = some above) :
    above ∈ schema.services := by
  induction distance generalizing start with
  | zero => exact Option.some.inj isAncestor ▸ isService
  | succ distance inductionHypothesis =>
    obtain ⟨next, isNext, onwards⟩ := Option.bind_eq_some_iff.mp isAncestor
    obtain ⟨parent, -, found⟩ := Option.bind_eq_some_iff.mp isNext
    exact inductionHypothesis (List.mem_of_find?_eq_some found) onwards

/-- A declaration of the service itself is the nearest. -/
theorem nearest_of_method? {here : Method} (isHere : start.method? method = some here)
    {distance : Nat} {owner : Service} {declared : Method} :
    schema.Nearest start method distance owner declared ↔
      distance = 0 ∧ owner = start ∧ declared = here := by
  constructor
  · intro nearest
    cases distance with
    | zero =>
      obtain rfl : start = owner := Option.some.inj nearest.isAncestor
      exact ⟨rfl, rfl, Option.some.inj (nearest.declares.symm.trans isHere)⟩
    | succ distance =>
      have absent := nearest.lacking 0 distance.succ_pos start rfl
      cases isHere.symm.trans absent
  · rintro ⟨rfl, rfl, rfl⟩
    exact ⟨rfl, isHere, fun closer below => absurd below closer.not_lt_zero⟩

/-- A service that does not declare a method has the nearest declaration of the service that it
extends.

Proof: the owner is not the service itself, so its distance is one more than from the service above,
and the services in between are those above at one step less. -/
theorem nearest_of_method?_none (absent : start.method? method = none) {distance : Nat}
    {owner : Service} {declared : Method} :
    schema.Nearest start method distance owner declared ↔
      ∃ above, schema.extended? start = some above ∧
        ∃ closer, distance = closer + 1 ∧ schema.Nearest above method closer owner declared := by
  constructor
  · intro nearest
    cases distance with
    | zero =>
      obtain rfl : start = owner := Option.some.inj nearest.isAncestor
      cases absent.symm.trans nearest.declares
    | succ distance =>
      obtain ⟨above, isAbove, onwards⟩ := Option.bind_eq_some_iff.mp nearest.isAncestor
      refine ⟨above, isAbove, distance, rfl, onwards, nearest.declares, ?_⟩
      intro closer below nearer isNearer
      refine nearest.lacking (closer + 1) (Nat.succ_lt_succ below) nearer ?_
      rw [ancestor?, isAbove, Option.bind_some, isNearer]
  · rintro ⟨above, isAbove, distance, rfl, nearest⟩
    refine ⟨?_, nearest.declares, ?_⟩
    · rw [ancestor?, isAbove, Option.bind_some, nearest.isAncestor]
    · intro closer below nearer isNearer
      cases closer with
      | zero => exact Option.some.inj isNearer ▸ absent
      | succ closer =>
        rw [ancestor?, isAbove, Option.bind_some] at isNearer
        exact nearest.lacking closer (Nat.lt_of_succ_lt_succ below) nearer isNearer

/-- The methods that are found within a number of steps are the nearest declarations at a smaller
distance.

Proof: by induction on the steps. A declaration at the service itself is the nearest one, at
distance zero; otherwise the nearest declaration of the service that it extends is one step farther,
and the lookup of that service goes by its name. -/
theorem findMethodWithin_eq_ok (indexed : schema.Indexed) {failure : LookupError} {steps : Nat}
    {owner : Service} {declared : Method} :
    schema.findMethodWithin failure method steps start = .ok (owner, declared) ↔
      ∃ distance < steps, schema.Nearest start method distance owner declared := by
  induction steps generalizing start with
  | zero => simp [findMethodWithin]
  | succ steps inductionHypothesis =>
    rw [findMethodWithin]
    cases isHere : start.method? method with
    | some here =>
      simp only [nearest_of_method? isHere, Except.ok.injEq, Prod.mk.injEq]
      constructor
      · rintro ⟨rfl, rfl⟩
        exact ⟨0, steps.succ_pos, rfl, rfl, rfl⟩
      · rintro ⟨-, -, -, rfl, rfl⟩
        exact ⟨rfl, rfl⟩
    | none =>
      simp only [nearest_of_method?_none isHere]
      cases isParent : start.parent with
      | none => simp [extended?, isParent]
      | some parent =>
        have follows (above : Service) :
            schema.service parent = .ok above ↔ schema.extended? start = some above := by
          rw [service_eq_ok, extended?, isParent, Option.bind_some,
            ← indexed.services.lookup?_eq_find?, service?]
        simp only [Outcome.bind_eq_ok, follows, inductionHypothesis]
        constructor
        · rintro ⟨above, isAbove, distance, below, nearest⟩
          exact ⟨distance + 1, Nat.succ_lt_succ below, above, isAbove, distance, rfl, nearest⟩
        · rintro ⟨-, below, above, isAbove, distance, rfl, nearest⟩
          exact ⟨above, isAbove, distance, Nat.lt_of_succ_lt_succ below, nearest⟩

/-- Where every extended service is there, a lookup has a single way to fail. -/
theorem eq_of_findMethodWithin_eq_error
    (registered : ∀ service ∈ schema.services, ∀ parent ∈ service.parent,
      ∃ above, schema.service parent = .ok above)
    {failure error : LookupError} {steps : Nat} (isService : start ∈ schema.services)
    (fails : schema.findMethodWithin failure method steps start = .error error) :
    error = failure := by
  induction steps generalizing start with
  | zero => exact (Except.error.inj fails).symm
  | succ steps inductionHypothesis =>
    rw [findMethodWithin] at fails
    split at fails
    · cases fails
    · exact (Except.error.inj fails).symm
    · next parent _ isParent =>
      obtain ⟨above, isAbove⟩ := registered start isService parent isParent
      rw [isAbove] at fails
      exact inductionHypothesis (mem_of_service? (service_eq_ok.mp isAbove)) fails

/-- A chain on which a service declares a method has a nearest declaration of it. -/
theorem exists_nearest {distance : Nat} {above : Service}
    (isAncestor : schema.ancestor? start distance = some above)
    (declares : above.method? method ≠ none) :
    ∃ distance owner declared, schema.Nearest start method distance owner declared := by
  classical
  have somewhere : ∃ distance above,
      schema.ancestor? start distance = some above ∧ above.method? method ≠ none :=
    ⟨distance, above, isAncestor, declares⟩
  obtain ⟨owner, isOwner, isDeclared⟩ := Nat.find_spec somewhere
  obtain ⟨declared, isDeclared⟩ := Option.ne_none_iff_exists'.mp isDeclared
  refine ⟨Nat.find somewhere, owner, declared, isOwner, isDeclared, ?_⟩
  intro closer below nearer isNearer
  by_contra declares
  exact Nat.find_min somewhere below ⟨nearer, isNearer, declares⟩

/-- Up to the nearest declaration no service is met twice.

Proof: a service that is met again has all the services behind it again, so the declaration would be
met at a smaller distance, where there is none. -/
theorem Nearest.distinct {distance : Nat} {owner : Service} {declared : Method}
    (nearest : schema.Nearest start method distance owner declared) :
    ((List.range (distance + 1)).map (schema.ancestor? start)).Nodup := by
  -- A service that is met again has the declaration behind it at either place.
  have apart : ∀ first second, first < second → second ≤ distance →
      schema.ancestor? start first ≠ schema.ancestor? start second := by
    intro first second before within same
    have again : schema.ancestor? start (first + (distance - second)) = some owner := by
      rw [ancestor?_add, same, ← ancestor?_add, Nat.add_sub_cancel' within, nearest.isAncestor]
    have absent := nearest.lacking _ (by omega) owner again
    cases absent.symm.trans nearest.declares
  refine List.nodup_range.map_on fun first isFirst second isSecond same => ?_
  rw [List.mem_range, Nat.lt_succ_iff] at isFirst isSecond
  rcases Nat.lt_trichotomy first second with before | equal | after
  · exact absurd same (apart first second before isSecond)
  · exact equal
  · exact absurd same.symm (apart second first after isFirst)

/-- The nearest declaration is less far away than there are services. -/
theorem Nearest.distance_lt (isService : start ∈ schema.services) {distance : Nat}
    {owner : Service} {declared : Method}
    (nearest : schema.Nearest start method distance owner declared) :
    distance < schema.services.length := by
  have visited : (List.range (distance + 1)).map (schema.ancestor? start) ⊆
      schema.services.map some := by
    intro place isPlace
    obtain ⟨closer, isCloser, rfl⟩ := List.mem_map.mp isPlace
    have rest : (schema.ancestor? start closer).bind (schema.ancestor? · (distance - closer)) =
        some owner := by
      rw [← ancestor?_add, Nat.add_sub_cancel' (Nat.le_of_lt_succ (List.mem_range.mp isCloser)),
        nearest.isAncestor]
    obtain ⟨above, isAbove, -⟩ := Option.bind_eq_some_iff.mp rest
    exact isAbove ▸ List.mem_map_of_mem (mem_services_of_ancestor? isService isAbove)
  simpa [Nat.succ_le_iff] using (List.subperm_of_subset nearest.distinct visited).length_le

end Schema

open Schema in
/-- In a schema that was linked, a lookup returns the nearest declaration of a method on the chain
of services, which is less far away than there are services. It fails exactly when no service of the
chain declares the method, and says so: all services of the chain are there, also where it is
cyclic.

Proof: the lookup goes up the chain for as many steps as there are services. Services do not come
again before all were passed that ever come, so the nearest declaration is less far away than that;
and in a linked schema each parent is registered, so no other failure comes up. -/
theorem findMethod_is_nearest {documents : List Document} {schema : Schema}
    (returned : link documents = .ok schema) {service : String} {start : Service}
    (isRegistered : schema.service service = .ok start) (method : String) :
    (∀ owner declared, schema.findMethod service method = .ok (owner, declared) ↔
      ∃ distance, schema.Nearest start method distance owner declared) ∧
    (∀ distance owner declared, schema.Nearest start method distance owner declared →
      distance < schema.services.length) ∧
    (schema.findMethod service method = .error (.methodNotFound service method) ↔
      ∀ distance above, schema.ancestor? start distance = some above →
        above.method? method = none) ∧
    ∀ failure, schema.findMethod service method = .error failure →
      failure = .methodNotFound service method := by
  have isService := mem_of_service? (service_eq_ok.mp isRegistered)
  have linked := linked_of_link returned
  have registered := fun service isService => (linked.services service isService).parent
  have unfolded : schema.findMethod service method = schema.findMethodWithin
      (.methodNotFound service method) method (schema.services.length + 1) start := by
    rw [findMethod, isRegistered]
    rfl
  have finds (owner : Service) (declared : Method) :
      schema.findMethod service method = .ok (owner, declared) ↔
        ∃ distance, schema.Nearest start method distance owner declared := by
    rw [unfolded, findMethodWithin_eq_ok linked.indexed]
    exact ⟨fun ⟨distance, _, nearest⟩ => ⟨distance, nearest⟩,
      fun ⟨distance, nearest⟩ =>
        ⟨distance, Nat.lt_succ_of_lt (nearest.distance_lt isService), nearest⟩⟩
  have fails (failure : LookupError)
      (isFailure : schema.findMethod service method = .error failure) :
      failure = .methodNotFound service method :=
    eq_of_findMethodWithin_eq_error registered isService (unfolded ▸ isFailure)
  refine ⟨finds, fun _ _ _ nearest => nearest.distance_lt isService, ?_, fails⟩
  constructor
  · intro isFailure distance above isAncestor
    by_contra declares
    obtain ⟨distance, owner, declared, nearest⟩ := exists_nearest isAncestor declares
    cases isFailure.symm.trans ((finds owner declared).mpr ⟨distance, nearest⟩)
  · intro absent
    cases isFound : schema.findMethod service method with
    | error failure => rw [fails failure isFound]
    | ok found =>
      obtain ⟨distance, nearest⟩ := (finds found.1 found.2).mp isFound
      cases (absent distance _ nearest.isAncestor).symm.trans nearest.declares

/-- A document with two services that extend each other. -/
def doorsDocument : Document where
  path := "t.thrift"
  module := "t"
  definitions := [
    .service { name := "Inner", parent := some "Outer" },
    .service { name := "Outer", parent := some "Inner", functions := [
      { name := "close", oneway := true }] }]

/-- The method of the outer door. -/
def closeMethod : Method where
  name := "close"
  arguments := []
  returns := none
  throws := []
  oneway := true
  argumentsStruct := "t.Outer.close_args"
  resultStruct := none

/-- The inner door. -/
def innerDoor : Service := { name := "t.Inner", parent := some "t.Outer", methods := [] }

/-- The outer door. -/
def outerDoor : Service := { name := "t.Outer", parent := some "t.Inner", methods := [closeMethod] }

/-- The schema of that document. -/
def doorsSchema : Schema :=
  .ofEntries [.struct ⟨"t.Outer.close_args", false, []⟩]
  [innerDoor, outerDoor] []

/-- The inner door finds how to close at the outer one, and neither of them opens.

Proof: by applying the general theorem. The inner door has no declaration of its own at distance
zero, and the outer one has it at distance one; all ancestors of the inner door are these two, and
neither declares the other method. -/
theorem doors_find_their_methods :
    doorsSchema.findMethod "t.Inner" "close" = .ok (outerDoor, closeMethod) ∧
      doorsSchema.findMethod "t.Inner" "open" = .error (.methodNotFound "t.Inner" "open") := by
  have returned : link [doorsDocument] = .ok doorsSchema := by cbv
  have isRegistered : doorsSchema.service "t.Inner" = .ok innerDoor := by cbv
  have turns (distance : Nat) (above : Service)
      (isAncestor : doorsSchema.ancestor? innerDoor distance = some above) :
      above ∈ [innerDoor, outerDoor] :=
    Schema.mem_services_of_ancestor? List.mem_cons_self isAncestor
  constructor
  · refine ((findMethod_is_nearest returned isRegistered "close").1 outerDoor closeMethod).mpr
      ⟨1, by cbv, by cbv, ?_⟩
    intro closer below nearer isNearer
    obtain rfl : closer = 0 := Nat.lt_one_iff.mp below
    exact Option.some.inj isNearer ▸ rfl
  · refine (findMethod_is_nearest returned isRegistered "open").2.2.1.mpr ?_
    intro distance above isAncestor
    have either := turns distance above isAncestor
    rw [List.mem_pair] at either
    obtain rfl | rfl := either <;> cbv

end SchemaCodec
