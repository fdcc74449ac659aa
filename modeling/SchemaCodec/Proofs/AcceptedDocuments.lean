import SchemaCodec.Proofs.Completion
import SchemaCodec.Proofs.Pairing
import SchemaCodec.Proofs.TakenNames
import SchemaCodec.Proofs.WellFormedDocuments

/-!
# Documents that link are well formed

What linking has done with each definition tells that the definition is in order. A typedef of the
schema stands for what its own document makes of its target, and following it ends, so no typedef
leads back to itself.
-/

namespace SchemaCodec.Scope

open Linking

variable {scope : Scope} {document : Document}

section Definitions

/-- Fields that were linked are in order. -/
theorem FieldsFollow.valid (orderly : scope.Orderly) (member : document ∈ scope.documents)
    {allOptional : Bool} {definitions : List FieldDefinition} {fields : List Field}
    (follow : scope.FieldsFollow document allOptional definitions fields) :
    scope.ValidFields document definitions where
  ids := follow.ids
  names := follow.names
  types := Pairing.forall_left follow.each fun follows =>
    (orderly.exists_resolve_eq_ok member).mp ⟨_, follows.type⟩

/-- What passes the check for exceptions names one.

Proof: by induction on the steps of the check. Each step looks a name up and goes on only behind an
exception, where it ends, or behind a typedef, whose target is checked with one step less. -/
theorem namesException_of_checkExceptionWithin (orderly : scope.Orderly) {origin : Document}
    {span : Span} {start : TypeReference} {steps : Nat} {document : Document}
    (member : document ∈ scope.documents) {reference : TypeReference}
    (checked : scope.checkExceptionWithin origin span start steps document reference = .ok ()) :
    scope.NamesException document reference := by
  induction steps generalizing document reference with
  | zero => simp [checkExceptionWithin] at checked
  | succ steps inductionHypothesis =>
    cases reference with
    | named name place =>
      simp only [checkExceptionWithin, Outcome.bind_eq_ok] at checked
      obtain ⟨⟨home, found⟩, isFound, checked⟩ := checked
      have refers := (orderly.lookup_eq_some member).mp (lookupAt_eq_ok.mp isFound)
      cases found with
      | exception definition => exact .exception refers
      | typedef definition =>
        exact .typedef refers (inductionHypothesis (refers.mem member).1 checked)
      | _ => simp at checked
    | _ => simp [checkExceptionWithin] at checked

/-- A method that was linked is in order. -/
theorem MethodFollows.valid (orderly : scope.Orderly) (member : document ∈ scope.documents)
    {service : String} {definition : FunctionDefinition} {method : Method}
    (follows : scope.MethodFollows document service definition method) :
    scope.ValidMethod document definition where
  arguments := follows.arguments.valid orderly member
  returns reference isReturned := by
    have returns := follows.returns
    rw [Option.mem_def.mp isReturned] at returns
    cases isType : method.returns with
    | none => simp [isType] at returns
    | some type =>
      rw [isType, Option.rel_some_some] at returns
      exact (orderly.exists_resolve_eq_ok member).mp ⟨type, returns⟩
  throws := follows.throws.valid orderly member
  exceptions field isThrown :=
    namesException_of_checkExceptionWithin orderly member (follows.exceptions field isThrown)
  silent := follows.silent
  free := follows.free

/-- What was declared is in order, unless it is a typedef. -/
theorem Declares.valid (orderly : scope.Orderly) (member : document ∈ scope.documents)
    {found : Definition} {added : Additions} (declares : scope.Declares document found added)
    (typedef : ∀ definition, found = .typedef definition →
      scope.RefersToTypes document definition.target) :
    scope.ValidDefinition document found := by
  cases declares with
  | constant definition => trivial
  | typedef definition => exact typedef definition rfl
  | enum definition distinct fit => exact ⟨distinct, fit⟩
  | struct definition fields follow | exception definition fields follow
  | union definition fields follow => exact follow.valid orderly member
  | service definition parent methods extended follow =>
    exact ⟨(orderly.exists_linkParent_eq_ok member).mp ⟨parent, extended⟩, follow.names,
      Pairing.forall_left follow.each fun follows => follows.valid orderly member⟩

end Definitions

section Passes

variable {typed settled later : Linking} {definition : TypedefDefinition}

/-- Behind the first pass, a typedef of the documents is in the schema, with the type that its
target stands for.

Proof: the pass registers the qualified name as a typedef, and whatever it adds comes from what the
definitions declare, which are no typedefs, or from a typedef whose target is resolved. Names
identify definitions in orderly documents, so this typedef is the given one. -/
theorem Orderly.typedefTarget (orderly : scope.Orderly)
    (ran : (scope.documents.forM fun document =>
      document.definitions.forM (scope.linkDefinition document)) {} = .ok ((), typed))
    (member : document ∈ scope.documents) (isTypedef : .typedef definition ∈ document.definitions) :
    ∃ target, scope.resolve document definition.target = .ok target ∧
      typed.schema.typedefTarget (document.qualified definition.name) = .ok target := by
  obtain ⟨advance, registered⟩ := advance_linkDefinitions ran
  obtain ⟨declared, isFound, isType⟩ := Schema.resolve_eq_ok.mp
    ((registered .empty document member _ isTypedef).type rfl)
  obtain ⟨isDeclared, named⟩ := (advance.indexed .empty).declaration?_eq_some.mp isFound
  obtain ⟨additions, each, gains⟩ := gains_linkDefinitions ran
  obtain ⟨types, isTypes, -, origin⟩ := gains.types
  obtain rfl : typed.schema.types = types := isTypes
  rcases origin declared isDeclared with isAdded |
    ⟨home, isHome, other, isOther, target, resolved, rfl⟩
  · -- What the definitions declare are no typedefs.
    obtain ⟨added, isAddition, isAdded⟩ := List.mem_flatMap.mp isAdded
    obtain ⟨pair, -, declares⟩ := Pairing.exists_of_mem_right each isAddition
    obtain ⟨-, noTypedef⟩ := declares.name_of_mem_types isAdded
    cases declared with
    | typedef known => exact absurd rfl (noTypedef known)
    | _ => simp [TypeDeclaration.type] at isType
  · obtain ⟨rfl, same⟩ := orderly.eq_of_qualified isHome member isOther isTypedef named
    obtain rfl := Definition.typedef.inj same
    exact ⟨target, resolved, Schema.typedefTarget_eq_ok.mpr ⟨_, isFound, rfl⟩⟩

/-- A typedef that leads to another one stands for that one. -/
theorem Orderly.resolve_of_leadsTo (orderly : scope.Orderly) (member : document ∈ scope.documents)
    {home : Document} {next : TypedefDefinition}
    (leads : scope.LeadsTo (document, definition) (home, next)) :
    scope.resolve document definition.target = .ok (.typedef (home.qualified next.name)) := by
  obtain ⟨name, span, isTarget, refers⟩ := leads
  have isFound : scope.lookup document name = some (home, .typedef next) :=
    (orderly.lookup_eq_some member).mpr refers
  have same : definition.target = .named name span := isTarget
  rw [same, resolve, Outcome.bind_eq_ok]
  exact ⟨_, lookupAt_eq_ok.mpr isFound, rfl⟩

/-- Following a typedef comes by the typedef to which it leads. -/
theorem Passes.canonicalWithin_of_leadsTo (orderly : scope.Orderly)
    (passes : scope.Passes typed settled later) (member : document ∈ scope.documents)
    (isTypedef : .typedef definition ∈ document.definitions)
    {next : Document × TypedefDefinition} (leads : scope.LeadsTo (document, definition) next)
    {start behind : DataType} {steps : Nat}
    (followed : typed.schema.canonicalWithin start steps
      (.typedef (document.qualified definition.name)) = .ok behind) :
    (next.1 ∈ scope.documents ∧ .typedef next.2 ∈ next.1.definitions) ∧ ∃ fewer < steps,
      typed.schema.canonicalWithin start fewer (.typedef (next.1.qualified next.2.name)) =
        .ok behind := by
  have resolved := orderly.resolve_of_leadsTo member leads
  obtain ⟨target, alsoResolved, isTarget⟩ :=
    orderly.typedefTarget passes.definitions member isTypedef
  obtain rfl := Except.ok.inj (alsoResolved.symm.trans resolved)
  refine ⟨leads.mem member, ?_⟩
  cases steps with
  | zero => simp [Schema.canonicalWithin] at followed
  | succ steps =>
    simp only [Schema.canonicalWithin, isTarget, Outcome.bind_eq_ok, Except.ok.injEq,
      exists_eq_left'] at followed
    exact ⟨steps, steps.lt_succ_self, followed⟩

/-- Following a typedef comes by all typedefs to which it leads, with fewer steps left. -/
theorem Passes.canonicalWithin_of_transGen (orderly : scope.Orderly)
    (passes : scope.Passes typed settled later) (member : document ∈ scope.documents)
    (isTypedef : .typedef definition ∈ document.definitions)
    {next : Document × TypedefDefinition}
    (leads : Relation.TransGen scope.LeadsTo (document, definition) next) {start behind : DataType}
    {steps : Nat} (followed : typed.schema.canonicalWithin start steps
      (.typedef (document.qualified definition.name)) = .ok behind) :
    (next.1 ∈ scope.documents ∧ .typedef next.2 ∈ next.1.definitions) ∧ ∃ fewer < steps,
      typed.schema.canonicalWithin start fewer (.typedef (next.1.qualified next.2.name)) =
        .ok behind := by
  induction leads with
  | single leads => exact passes.canonicalWithin_of_leadsTo orderly member isTypedef leads followed
  | tail _ leads inductionHypothesis =>
    obtain ⟨⟨isHome, isNext⟩, fewer, isFewer, here⟩ := inductionHypothesis
    obtain ⟨isLast, least, isLeast, there⟩ :=
      passes.canonicalWithin_of_leadsTo orderly isHome isNext leads here
    exact ⟨isLast, least, isLeast.trans isFewer, there⟩

/-- No typedef leads back to itself.

Proof: following a typedef on a cycle comes back to it with fewer steps left, so by strong induction
it gives a type for no number of steps. A schema behind the first pass has an end for each typedef,
which is such a number. -/
theorem Passes.acyclic (orderly : scope.Orderly) (passes : scope.Passes typed settled later)
    (member : document ∈ scope.documents) (isTypedef : .typedef definition ∈ document.definitions) :
    ¬Relation.TransGen scope.LeadsTo (document, definition) (document, definition) := by
  intro cycle
  have endless (start behind : DataType) (steps : Nat) :
      typed.schema.canonicalWithin start steps
        (.typedef (document.qualified definition.name)) ≠ .ok behind := by
    induction steps using Nat.strongRecOn with
    | ind steps inductionHypothesis =>
      intro followed
      obtain ⟨-, fewer, isFewer, again⟩ :=
        passes.canonicalWithin_of_transGen orderly member isTypedef cycle followed
      exact inductionHypothesis fewer isFewer again
  obtain ⟨-, registered⟩ := advance_linkDefinitions passes.definitions
  obtain ⟨behind, ends⟩ := passes.typedSound.schema.chains
    ((registered .empty document member _ isTypedef).type rfl)
  exact endless .bool behind _ (ends .bool)

end Passes

/-- Where all passes succeed, the documents are well formed. -/
theorem Passes.wellFormed {typed settled later : Linking} (orderly : scope.Orderly)
    (passes : scope.Passes typed settled later)
    (includes : ∀ document ∈ scope.documents, ∀ included ∈ document.includes,
      ∃ home ∈ scope.documents, home.path = included.path) : scope.WellFormed where
  modules := orderly.modules
  includes := includes
  names := orderly.names
  definitions document member found isFound := by
    obtain ⟨additions, each, -⟩ := passes.gains
    have all : ∀ pair ∈ scope.definitions, ∃ added, scope.Declares pair.1 pair.2 added :=
      Pairing.forall_left each fun declares => ⟨_, declares⟩
    obtain ⟨added, declares⟩ := all (document, found) (mem_definitions.mpr ⟨member, isFound⟩)
    refine declares.valid orderly member ?_
    rintro definition rfl
    obtain ⟨target, resolved, -⟩ := orderly.typedefTarget passes.definitions member isFound
    exact (orderly.exists_resolve_eq_ok member).mp ⟨target, resolved⟩
  acyclic document member definition isTypedef := passes.acyclic orderly member isTypedef

end SchemaCodec.Scope
