import Mathlib.Data.List.Perm.Subperm
import SchemaCodec.Proofs.WellFormedDocuments

/-!
# Trails of typedefs

Whoever goes from typedef to typedef and stops at the first one that was met before goes by distinct
definitions, of which there are only so many. Where documents are well formed, the typedefs that
lead to a typedef one after another are distinct and differ from it, so none is ever met again, and
whoever follows typedefs for as many steps as there are definitions reaches the end of each trail.
-/

namespace SchemaCodec.Scope

variable {scope : Scope}

/-- The names of distinct definitions by which a descent has come to a typedef, outermost first. -/
structure Descent (scope : Scope) (above : List String) (document : Document)
    (definition : TypedefDefinition) : Prop where
  member : document ∈ scope.documents
  isTypedef : .typedef definition ∈ document.definitions
  distinct : above.Nodup
  known : ∀ name ∈ above, ∃ home ∈ scope.documents, ∃ found ∈ home.definitions,
    home.qualified found.name = name

namespace Descent

variable {above : List String} {document home : Document} {definition next : TypedefDefinition}

/-- A descent may start at any typedef. -/
theorem start (member : document ∈ scope.documents)
    (isTypedef : .typedef definition ∈ document.definitions) :
    scope.Descent [] document definition :=
  ⟨member, isTypedef, List.nodup_nil, by simp⟩

/-- The names that a descent has come by and the one that it has come to. -/
theorem known_append (descent : scope.Descent above document definition) :
    ∀ name ∈ above ++ [document.qualified definition.name], ∃ home ∈ scope.documents,
      ∃ found ∈ home.definitions, home.qualified found.name = name := by
  intro name passed
  rcases List.mem_append.mp passed with before | here
  · exact descent.known name before
  · obtain rfl := List.mem_singleton.mp here
    exact ⟨document, descent.member, _, descent.isTypedef, rfl⟩

/-- A descent that has come to a new name has met only distinct ones. -/
theorem nodup (descent : scope.Descent above document definition)
    (new : document.qualified definition.name ∉ above) :
    (above ++ [document.qualified definition.name]).Nodup :=
  descent.distinct.append (List.nodup_singleton _) (List.disjoint_singleton.mpr new)

/-- From a new name a descent goes on to the typedef that the target names directly. -/
theorem step (descent : scope.Descent above document definition)
    (new : document.qualified definition.name ∉ above)
    (direct : scope.directTypedef? document definition.target = some (home, next)) :
    scope.Descent (above ++ [document.qualified definition.name]) home next := by
  obtain ⟨isHome, isNext⟩ := mem_of_directTypedef? descent.member direct
  exact ⟨isHome, isNext, descent.nodup new, descent.known_append⟩

/-- A descent that has come to a new name has met fewer names before than there are definitions. -/
theorem length_lt (descent : scope.Descent above document definition)
    (new : document.qualified definition.name ∉ above) : above.length < scope.size := by
  have known : above ++ [document.qualified definition.name] ⊆
      scope.definitions.map fun pair => pair.1.qualified pair.2.name := by
    intro name passed
    obtain ⟨home, isHome, found, isFound, named⟩ := descent.known_append name passed
    exact List.mem_map.mpr ⟨(home, found), mem_definitions.mpr ⟨isHome, isFound⟩, named⟩
  have short := (List.subperm_of_subset (descent.nodup new) known).length_le
  rw [List.length_map, length_definitions, List.length_append, List.length_singleton] at short
  omega

end Descent

/-- The documents are orderly and well formed. -/
structure Lawful (scope : Scope) : Prop where
  orderly : scope.Orderly
  wellFormed : scope.WellFormed

/-- The typedefs by which a trail has come to a typedef, outermost first. Each of them leads to the
typedef at hand in one step or several, so when the typedef is one of them it leads back to itself.
They are distinct, which bounds their number. -/
structure Trail (scope : Scope) (above : List String) (document : Document)
    (definition : TypedefDefinition) : Prop where
  member : document ∈ scope.documents
  isTypedef : .typedef definition ∈ document.definitions
  distinct : above.Nodup
  leads : ∀ name ∈ above, ∃ home ∈ scope.documents, ∃ other, .typedef other ∈ home.definitions ∧
    home.qualified other.name = name ∧
      Relation.TransGen scope.LeadsTo (home, other) (document, definition)

namespace Trail

variable {above : List String} {document home : Document} {definition next : TypedefDefinition}

/-- A trail may start at any typedef. -/
theorem start (member : document ∈ scope.documents)
    (isTypedef : .typedef definition ∈ document.definitions) :
    scope.Trail [] document definition :=
  ⟨member, isTypedef, List.nodup_nil, by simp⟩

/-- No trail comes back to a typedef by which it has come. -/
theorem not_mem (trail : scope.Trail above document definition) (lawful : scope.Lawful) :
    document.qualified definition.name ∉ above := by
  intro repeated
  obtain ⟨home, isHome, other, isOther, named, leads⟩ := trail.leads _ repeated
  obtain ⟨rfl, same⟩ := lawful.orderly.eq_of_qualified isHome trail.member isOther trail.isTypedef
    named
  obtain rfl := Definition.typedef.inj same
  exact lawful.wellFormed.acyclic home isHome other isOther leads

/-- A trail is a descent. -/
theorem descent (trail : scope.Trail above document definition) :
    scope.Descent above document definition where
  member := trail.member
  isTypedef := trail.isTypedef
  distinct := trail.distinct
  known name passed := by
    obtain ⟨home, isHome, other, isOther, named, -⟩ := trail.leads name passed
    exact ⟨home, isHome, _, isOther, named⟩

/-- A trail goes on to the typedef to which the one at its end leads. -/
theorem step (trail : scope.Trail above document definition) (lawful : scope.Lawful)
    (leads : scope.LeadsTo (document, definition) (home, next)) :
    scope.Trail (above ++ [document.qualified definition.name]) home next := by
  obtain ⟨isHome, isNext⟩ := leads.mem trail.member
  refine ⟨isHome, isNext, trail.descent.nodup (trail.not_mem lawful), fun name passed => ?_⟩
  rcases List.mem_append.mp passed with before | here
  · obtain ⟨first, isFirst, other, isOther, named, path⟩ := trail.leads name before
    exact ⟨first, isFirst, other, isOther, named, path.tail leads⟩
  · obtain rfl := List.mem_singleton.mp here
    exact ⟨document, trail.member, definition, trail.isTypedef, rfl, .single leads⟩

/-- A trail has come by fewer typedefs than there are definitions. -/
theorem length_lt (trail : scope.Trail above document definition) (lawful : scope.Lawful) :
    above.length < scope.size :=
  trail.descent.length_lt (trail.not_mem lawful)

end Trail

section Exceptions

variable {origin document : Document} {span : Span} {start : TypeReference}

/-- What names an exception passes the check for one, where the typedef that it may name directly
passes it with one step less. -/
theorem Orderly.checkExceptionWithin_succ (orderly : scope.Orderly)
    (member : document ∈ scope.documents) {reference : TypeReference}
    (exception : scope.NamesException document reference) {steps : Nat}
    (behind : ∀ {name place home definition}, reference = .named name place →
      scope.Refers document name home (.typedef definition) →
        scope.NamesException home definition.target →
          scope.checkExceptionWithin origin span start steps home definition.target = .ok ()) :
    scope.checkExceptionWithin origin span start (steps + 1) document reference = .ok () := by
  cases exception with
  | exception refers =>
    have isFound := (orderly.lookup_eq_some member).mpr refers
    rw [checkExceptionWithin, Outcome.bind_eq_ok]
    exact ⟨_, lookupAt_eq_ok.mpr isFound, rfl⟩
  | typedef refers furtherOn =>
    have isFound := (orderly.lookup_eq_some member).mpr refers
    rw [checkExceptionWithin, Outcome.bind_eq_ok]
    exact ⟨_, lookupAt_eq_ok.mpr isFound, behind rfl refers furtherOn⟩

/-- What a typedef at the end of a trail stands for is found to be an exception, where it is one and
there are steps left for all other definitions. The induction is on the steps: each of them prolongs
the trail. -/
theorem Lawful.checkExceptionWithin_eq_ok (lawful : scope.Lawful) {above : List String}
    {definition : TypedefDefinition} (trail : scope.Trail above document definition) {steps : Nat}
    (enough : scope.size ≤ above.length + steps)
    (exception : scope.NamesException document definition.target) :
    scope.checkExceptionWithin origin span start steps document definition.target = .ok () := by
  induction steps generalizing above document definition with
  | zero =>
    have short := trail.length_lt lawful
    omega
  | succ steps inductionHypothesis =>
    refine lawful.orderly.checkExceptionWithin_succ trail.member exception ?_
    intro name place home next isTarget refers furtherOn
    have onwards := trail.step lawful ⟨name, place, isTarget, refers⟩
    refine inductionHypothesis onwards ?_ furtherOn
    rw [List.length_append, List.length_singleton]
    omega

/-- What a field throws passes the check for exceptions, where it names one. -/
theorem Lawful.checkException_eq_ok (lawful : scope.Lawful) (member : document ∈ scope.documents)
    {field : FieldDefinition} (exception : scope.NamesException document field.type) :
    scope.checkException document field = .ok () := by
  refine lawful.orderly.checkExceptionWithin_succ member exception ?_
  intro name place home definition _ refers furtherOn
  obtain ⟨isHome, isTypedef⟩ := refers.mem member
  exact lawful.checkExceptionWithin_eq_ok (.start isHome isTypedef) (by simp) furtherOn

end Exceptions

end SchemaCodec.Scope
