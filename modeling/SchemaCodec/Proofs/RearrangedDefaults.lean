import SchemaCodec.Proofs.RearrangedConstants
import SchemaCodec.Proofs.SuppliedDefaults

/-!
# Defaults in another order

A run over defaults supplies each of them with a value, and the constants of its last state alone
tell which one. So a run over the same defaults in any order supplies the same values.
-/

namespace SchemaCodec

open Linking

namespace Linking

/-- A state with several defaults filled in. -/
def supply (linking : Linking) (supplied : List (PendingDefault × Value)) : Linking :=
  { linking with schema := linking.schema.supply supplied }

/-- Constants that are there stay behind defaults that are filled in. -/
theorem supply_plus (linking : Linking) (more : List Constant)
    (supplied : List (PendingDefault × Value)) :
    (linking.plus more).supply supplied = (linking.supply supplied).plus more := by
  induction supplied generalizing linking with
  | nil => rfl
  | cons pair rest inductionHypothesis => exact inductionHypothesis (linking.supply [pair])

/-- A state comes before itself with several defaults filled in. -/
theorem Precedes.supply (linking : Linking) (supplied : List (PendingDefault × Value)) :
    linking.Precedes (linking.supply supplied) := by
  induction supplied generalizing linking with
  | nil => exact .refl linking
  | cons pair rest inductionHypothesis =>
    exact (withDefault linking pair.1 pair.2).trans (inductionHypothesis (linking.supply [pair]))

end Linking

namespace Scope

variable {scope other : Scope} {move : Document → Document} {linking last : Linking}

/-- What linking the first of several defaults has done. -/
theorem linkDefaults_cons_eq_ok {pending : PendingDefault} {rest : List PendingDefault}
    {result : Unit} :
    scope.linkDefaults (pending :: rest) linking = .ok (result, last) ↔
      ∃ value converted, scope.convertDefault pending linking = .ok (value, converted) ∧
        scope.linkDefaults rest (converted.supply [(pending, value)]) = .ok (result, last) := by
  simp only [linkDefaults, bind_eq_ok]
  constructor
  · rintro ⟨value, converted, isValue, _, _, same, ran⟩
    obtain ⟨rfl, rfl⟩ := Prod.mk.inj (Except.ok.inj same)
    exact ⟨value, converted, isValue, ran⟩
  · rintro ⟨value, converted, isValue, ran⟩
    exact ⟨value, converted, isValue, (), _, rfl, ran⟩

/-- A default that is converted adds grounded constants, with which it converts ever after. -/
theorem converts_convertDefault {pending : PendingDefault}
    (member : pending.document ∈ scope.documents) (grounded : scope.Grounded linking)
    {value : Value} (ran : scope.convertDefault pending linking = .ok (value, last)) :
    scope.Grounded last ∧ (∃ more, last = linking.plus more) ∧
      ∀ {later : Linking}, last.Precedes later → scope.Converts later pending value := by
  have each : ∀ home ∈ scope.documents, ∀ definition, .constant definition ∈ home.definitions →
      scope.Lasts (scope.linkConstant (scope.size + 1) [] home definition)
        (scope.recalled home definition) := by
    intro home isHome definition isDefinition
    exact lasts_linkConstant isHome isDefinition
  obtain ⟨groundedNow, more, lasts⟩ := lasts_convert member each _ _ grounded ran
  exact ⟨groundedNow, more, fun precedes => lasts _ precedes⟩

/-- A run over defaults supplies each of them with the value that the last constants tell.

Proof: by induction on the defaults that wait. The first one converts with the constants linked so
far, and it converts to the same value with the last constants, since constants are only added.
Supplying it changes no constant. -/
theorem exists_supplied {waiting : List PendingDefault}
    (known : ∀ pending ∈ waiting, pending.document ∈ scope.documents)
    (grounded : scope.Grounded linking) {result : Unit}
    (ran : scope.linkDefaults waiting linking = .ok (result, last)) :
    scope.Grounded last ∧ ∃ supplied more, supplied.map Prod.fst = waiting ∧
      last = (linking.supply supplied).plus more ∧
        ∀ pair ∈ supplied, scope.Converts last pair.1 pair.2 := by
  induction waiting generalizing linking with
  | nil =>
    obtain ⟨-, rfl⟩ := pure_eq_ok.mp ran
    exact ⟨grounded, [], [], rfl, (plus_nil _).symm, by simp⟩
  | cons pending rest inductionHypothesis =>
    obtain ⟨member, others⟩ := List.forall_mem_cons.mp known
    obtain ⟨value, converted, isValue, behind⟩ := linkDefaults_cons_eq_ok.mp ran
    obtain ⟨groundedNow, ⟨more, rfl⟩, lasts⟩ :=
      converts_convertDefault member grounded isValue
    have precedes := Precedes.supply (linking.plus more) [(pending, value)]
    obtain ⟨groundedLast, supplied, further, isSupplied, rfl, each⟩ :=
      inductionHypothesis others (groundedNow.precedes precedes rfl) behind
    refine ⟨groundedLast, (pending, value) :: supplied, more ++ further, ?_, ?_, ?_⟩
    · rw [List.map_cons, isSupplied]
    · rw [supply_plus, supply_plus, plus_plus]
      rfl
    · refine List.forall_mem_cons.mpr ⟨lasts ?_, each⟩
      exact precedes.trans ((Precedes.supply _ supplied).trans (Precedes.plus _ further))

section Twin

variable (relocation : scope.Relocation other move) (orderly : scope.Orderly)
  (grounded : scope.Grounded last) (indexed : last.schema.Indexed)

include relocation orderly grounded indexed

/-- Defaults that convert with the last constants are supplied from every state that agrees.

Proof: by induction on the defaults. The first one converts here as well, perhaps after some
constants are linked for it. Supplying it leaves the typedefs and the constants as they were, so the
state still agrees with the last one. -/
theorem exists_linkDefaults {supplied : List (PendingDefault × Value)}
    (known : ∀ pair ∈ supplied, pair.1.document ∈ scope.documents)
    (converts : ∀ pair ∈ supplied, scope.Converts last pair.1 pair.2)
    (agrees : other.Agrees last linking) :
    ∃ more, more ⊆ last.schema.constants ∧
      other.linkDefaults (supplied.map fun pair => pair.1.moved move) linking =
        .ok ((), (linking.supply supplied).plus more) := by
  induction supplied generalizing linking with
  | nil => exact ⟨[], by simp, by rw [plus_nil]; rfl⟩
  | cons pair rest inductionHypothesis =>
    obtain ⟨member, others⟩ := List.forall_mem_cons.mp known
    obtain ⟨here, behind⟩ := List.forall_mem_cons.mp converts
    obtain ⟨more, among, indexedThen, isValue⟩ :=
      exists_convertDefault relocation orderly grounded indexed member here agrees
    have precedes := Precedes.supply (linking.plus more) [(pair.1.moved move, pair.2)]
    have alsoAgrees := agrees.plus among indexedThen
    obtain ⟨further, alsoAmong, ran⟩ := inductionHypothesis others behind
      ⟨alsoAgrees.typedefs.survives precedes.types, alsoAgrees.types.trans precedes.types,
        alsoAgrees.constants, indexedThen.withDefault _ _⟩
    refine ⟨more ++ further, List.append_subset.mpr ⟨among, alsoAmong⟩, ?_⟩
    refine linkDefaults_cons_eq_ok.mpr ⟨pair.2, _, isValue, ?_⟩
    rw [ran, supply_plus, supply_plus, plus_plus]
    rfl

end Twin

end Scope

end SchemaCodec
