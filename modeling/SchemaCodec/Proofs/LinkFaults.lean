import SchemaCodec.Proofs.ConstantSoundness
import SchemaCodec.Proofs.LinkedRegistry
import SchemaCodec.Proofs.WellFormedDocuments

/-!
# Faults of linking

What linking fails for is an ordinary fault of one definition, unless typedefs are followed: these
may lead back to themselves. So whatever is true of ordinary faults is true of all that linking
fails for, as soon as it is true of the faults of following a typedef.
-/

namespace SchemaCodec

namespace Linking

/-- Two steps fail when the first does or the second in the state that the first left. -/
theorem bind_eq_error {linking : Linking} {step : LinkM α} {next : α → LinkM β}
    {error : LinkError} :
    (step >>= next) linking = .error error ↔ step linking = .error error ∨
      ∃ middle between, step linking = .ok (middle, between) ∧
        next middle between = .error error := by
  have unfolded : (step >>= next) linking = step linking >>= fun out => next out.1 out.2 := rfl
  rw [unfolded, Outcome.bind_eq_error, Prod.exists]

/-- A step that fails, if at all, with a fault of some kind, whatever is linked so far. -/
def Blames (kind : LinkFault → Prop) (step : LinkM α) : Prop :=
  ∀ linking, FailsFor kind (step linking)

section Steps

variable {kind : LinkFault → Prop}

/-- Giving a result never fails. -/
theorem Blames.pure (value : α) : Blames kind (pure value) := by
  intro linking error failed
  cases failed

/-- Of two steps one fails. -/
theorem Blames.bind {step : LinkM α} {next : α → LinkM β} (first : Blames kind step)
    (second : ∀ middle, Blames kind (next middle)) : Blames kind (step >>= next) := by
  intro linking error failed
  rcases bind_eq_error.mp failed with here | ⟨middle, between, -, there⟩
  · exact first _ _ here
  · exact second _ _ _ there

/-- A failure of the kind. -/
theorem Blames.fail {error : LinkError} (isKind : kind error.fault) :
    Blames kind (fail error : LinkM α) := by
  intro linking found failed
  obtain rfl : error = found := Except.error.inj failed
  exact isKind

variable (ordinary : ∀ fault, LinkFault.IsOrdinary fault → kind fault)

include ordinary

/-- Failing for nothing but faults of a kind is a law of linking steps. -/
theorem blames_law : Law fun _ step => Blames kind step where
  pure := .pure
  bind := .bind
  schema? := by
    intro linking error failed
    cases failed
  fail isOrdinary := .fail (ordinary _ isOrdinary)

/-- Whoever adds to the schema fails where the name is taken. -/
theorem blames_insert {step : LinkM Unit} (added? : Schema → Option Schema)
    {document : Document} {span : Span} {name : String}
    (adds : ∀ linking, step linking = match added? linking.schema with
      | some schema => .ok ((), { linking with schema })
      | none => .error (document.errorAt span (.duplicateDefinition name))) : Blames kind step := by
  intro linking found failed
  rw [adds] at failed
  split at failed
  · cases failed
  · obtain rfl := Except.error.inj failed
    exact ordinary _ trivial

/-- A type that is added fails where its name is taken. -/
theorem blames_insertType (document : Document) (span : Span) (declared : TypeDeclaration) :
    Blames kind (insertType document span declared) :=
  blames_insert ordinary (·.insertType? declared) fun _ => rfl

/-- A service that is added fails where its name is taken. -/
theorem blames_insertService (document : Document) (span : Span) (declared : Service) :
    Blames kind (insertService document span declared) :=
  blames_insert ordinary (·.insertService? declared) fun _ => rfl

/-- A constant that is added fails where its name is taken. -/
theorem blames_insertConstant (document : Document) (span : Span) (declared : Constant) :
    Blames kind (insertConstant document span declared) :=
  blames_insert ordinary (·.insertConstant? declared) fun _ => rfl

end Steps

end Linking

open Linking

namespace Scope

variable {scope : Scope}

section Checks

variable {document : Document}

/-- A reference stands for a type or fails with an ordinary fault. -/
theorem ordinary_resolve (reference : TypeReference) :
    FailsFor LinkFault.IsOrdinary (scope.resolve document reference) := by
  induction reference with
  | base type => exact .ok _
  | list element inductionHypothesis | set element inductionHypothesis =>
    exact inductionHypothesis.bind fun _ => .ok _
  | map key value keyHypothesis valueHypothesis =>
    exact keyHypothesis.bind fun _ => valueHypothesis.bind fun _ => .ok _
  | named name span =>
    refine (ordinary_lookupAt _ _ _ _).bind fun ⟨home, found⟩ => ?_
    cases found with
    | service definition | constant definition => exact .error trivial
    | _ => exact .ok _

/-- A parent is found or fails with an ordinary fault. -/
theorem ordinary_linkParent (definition : ServiceDefinition) :
    FailsFor LinkFault.IsOrdinary (scope.linkParent document definition) := by
  unfold linkParent
  cases definition.parent with
  | none => exact .ok _
  | some parent =>
    refine (ordinary_lookupAt _ _ _ _).bind fun ⟨home, found⟩ => ?_
    cases found with
    | service above => exact .ok _
    | _ => exact .error trivial

/-- What is thrown is an exception or fails with an ordinary fault, even where typedefs lead back to
themselves. -/
theorem ordinary_checkExceptionWithin {origin : Document} {span : Span} {start : TypeReference}
    {steps : Nat} {document : Document} {reference : TypeReference} :
    FailsFor LinkFault.IsOrdinary
      (scope.checkExceptionWithin origin span start steps document reference) := by
  induction steps generalizing document reference with
  | zero => exact .error trivial
  | succ steps inductionHypothesis =>
    cases reference with
    | named name place =>
      refine (ordinary_lookupAt _ _ _ _).bind fun ⟨home, found⟩ => ?_
      cases found with
      | exception definition => exact .ok _
      | typedef definition => exact inductionHypothesis
      | _ => exact .error trivial
    | _ => exact .error trivial

/-- Members are numbered or fail with an ordinary fault. -/
theorem ordinary_linkMembers {enum : String} {members : List MemberDefinition}
    {names : List String} {next : Int} :
    FailsFor LinkFault.IsOrdinary (linkMembers document enum members names next) := by
  induction members generalizing names next with
  | nil => exact .ok _
  | cons member rest inductionHypothesis =>
    unfold linkMembers
    simp only
    split
    · exact .error trivial
    · split
      · exact .error trivial
      · exact inductionHypothesis.bind fun _ => .ok _

/-- Names are distinct or fail with an ordinary fault. -/
theorem ordinary_checkDefinitions {definitions : List Definition} {names : List String} :
    FailsFor LinkFault.IsOrdinary (checkDefinitions document definitions names) := by
  induction definitions generalizing names with
  | nil => exact .ok _
  | cons definition rest inductionHypothesis =>
    unfold checkDefinitions
    split
    · exact .error trivial
    · exact inductionHypothesis

/-- The check of modules and includes fails, if at all, for a module that is taken or an include
that is not there.

Proof: by induction on the documents that are left to check. The first one fails for its module or
for the first of its includes that no document has, and otherwise the rest is checked. -/
theorem failsFor_checkIncludes {kind : LinkFault → Prop} {documents rest : List Document}
    {modules : List (String × String)}
    (taken : ∀ module path, kind (.duplicateModule module path))
    (missing : ∀ document ∈ rest, ∀ found ∈ document.includes,
      (∀ other ∈ documents, other.path ≠ found.path) → kind (.unresolvedInclude found.path)) :
    FailsFor kind (checkIncludes documents rest modules) := by
  induction rest generalizing modules with
  | nil => exact .ok _
  | cons document rest inductionHypothesis =>
    obtain ⟨here, others⟩ := List.forall_mem_cons.mp missing
    unfold checkIncludes
    cases modules.find? (·.1 = document.module) with
    | some known => exact .error (taken _ _)
    | none =>
      cases search : document.includes.find? fun found => documents.all (·.path ≠ found.path) with
      | some found =>
        have absent : ∀ other ∈ documents, other.path ≠ found.path := by
          simpa using List.find?_some search
        exact .error (here found (List.mem_of_find?_eq_some search) absent)
      | none => exact inductionHypothesis others

/-- Documents form a scope or fail for a module that is taken, an include that is not there or an
ordinary fault. -/
theorem failsFor_ofDocuments {kind : LinkFault → Prop} {documents : List Document}
    (ordinary : ∀ fault, LinkFault.IsOrdinary fault → kind fault)
    (taken : ∀ module path, kind (.duplicateModule module path))
    (missing : ∀ document ∈ firstOfPaths documents [], ∀ found ∈ document.includes,
      (∀ other ∈ firstOfPaths documents [], other.path ≠ found.path) →
        kind (.unresolvedInclude found.path)) : FailsFor kind (ofDocuments documents) :=
  (failsFor_checkIncludes taken missing).bind fun _ =>
    (FailsFor.forM (fun _ => ordinary_checkDefinitions.mono ordinary) _).bind fun _ => .ok _

end Checks

section Typedefs

variable {kind : LinkFault → Prop} {document : Document}

/-- A typedef that is linked fails for a cycle where its name has come before or nothing may follow,
and otherwise as the typedef that its target names directly.

Proof: by the order in which the typedef is looked at. A name that stands for another kind of entry
and a target that is not there are ordinary faults; a name that has come before and a bound that is
used up are cycles; what is left is the typedef behind and the insertion. -/
theorem blames_linkTypedef_of (ordinary : ∀ fault, LinkFault.IsOrdinary fault → kind fault)
    {bound : Nat} {above : List String} {definition : TypedefDefinition}
    (repeated : document.qualified definition.name ∈ above →
      kind (.illegalTypedefCycle (above.dropWhile (· ≠ document.qualified definition.name) ++
        [document.qualified definition.name])))
    (last : document.qualified definition.name ∉ above → bound = 0 →
      kind (.illegalTypedefCycle (above ++ [document.qualified definition.name])))
    (onwards : document.qualified definition.name ∉ above → ∀ fewer, bound = fewer + 1 →
      ∀ home next, scope.directTypedef? document definition.target = some (home, next) →
        Blames kind
          (scope.linkTypedef fewer (above ++ [document.qualified definition.name]) home next)) :
    Blames kind (scope.linkTypedef bound above document definition) := by
  have law := blames_law ordinary
  unfold linkTypedef
  refine law.bind law.schema? fun schema => ?_
  split
  · exact .pure _
  · exact law.fail trivial
  · split
    · next came => exact .fail (repeated came)
    · next new =>
      cases bound with
      | zero => exact .fail (last new rfl)
      | succ fewer =>
        refine law.given_bind (ordinary_resolve _) fun target _ => ?_
        split
        · next home next direct =>
          exact (onwards new fewer rfl home next direct).bind fun _ =>
            blames_insertType ordinary _ _ _
        · exact blames_insertType ordinary _ _ _

end Typedefs

/-- A kind of faults that has all ordinary ones and those of typedefs from which linking starts. -/
structure Covers (scope : Scope) (kind : LinkFault → Prop) : Prop where
  ordinary : ∀ fault, LinkFault.IsOrdinary fault → kind fault
  typedefs : ∀ document ∈ scope.documents, ∀ definition,
    .typedef definition ∈ document.definitions →
      Blames kind (scope.linkTypedef (scope.size + 1) [] document definition)

section Definitions

variable {kind : LinkFault → Prop} {document : Document}

/-- A default is put aside without fail. -/
theorem blames_putDefaultAside (owner : FieldOwner) (field : FieldDefinition) (type : DataType) :
    Blames kind (putDefaultAside document owner field type) := by
  unfold putDefaultAside
  split
  · split
    · intro linking error failed
      cases failed
    · exact .pure _
  · exact .pure _

variable (covers : scope.Covers kind) (member : document ∈ scope.documents)

include covers

/-- What a kind covers is a law of linking steps. -/
theorem Covers.law : Law fun _ step => Blames kind step :=
  blames_law covers.ordinary

include member

/-- A reference fails as the typedef that it names directly. -/
theorem Covers.linkReference (reference : TypeReference) :
    Blames kind (scope.linkReference document reference) := by
  unfold Scope.linkReference
  refine covers.law.given_bind (ordinary_resolve _) fun type _ => ?_
  split
  · next home definition direct =>
    obtain ⟨isHome, isTypedef⟩ := mem_of_directTypedef? member direct
    exact (covers.typedefs home isHome definition isTypedef).bind fun _ => .pure _
  · exact .pure _

/-- Fields fail as their types do or where an id or a name comes again. -/
theorem Covers.linkFields {owner : FieldOwner} {fields : List FieldDefinition}
    {ids : List Int16} {names : List String} :
    Blames kind (scope.linkFields document owner fields ids names) := by
  induction fields generalizing ids names with
  | nil => exact .pure _
  | cons field rest inductionHypothesis =>
    unfold Scope.linkFields
    exact covers.law.bind (covers.law.failIf trivial) fun _ =>
      covers.law.bind (covers.law.failIf trivial) fun _ =>
        (covers.linkReference member _).bind fun _ =>
          (blames_putDefaultAside _ _ _).bind fun _ =>
            inductionHypothesis.bind fun _ => .pure _

/-- A method fails as its types do or with an ordinary fault of its own.

Proof: by the steps of linking a method. Arguments, result and exceptions fail as types do, and the
checks behind them, as well as the insertion of both structs, fail with ordinary faults. -/
theorem Covers.linkMethod (service : String) (function : FunctionDefinition) :
    Blames kind (scope.linkMethod document service function) := by
  unfold Scope.linkMethod
  refine (covers.linkFields member).bind fun arguments => ?_
  refine Blames.bind ?_ fun returns => ?_
  · unfold linkReturns
    split
    · exact (covers.linkReference member _).bind fun _ => .pure _
    · exact .pure _
  refine covers.law.given_bind
    (FailsFor.forM (fun _ => ordinary_checkExceptionWithin) _) fun _ _ => ?_
  refine (covers.linkFields member).bind fun throws => ?_
  refine covers.law.bind (covers.law.failIf trivial) fun _ => ?_
  refine (blames_insertType covers.ordinary _ _ _).bind fun _ => Blames.bind ?_ fun _ => .pure _
  unfold linkResult
  split
  · exact .pure _
  · exact covers.law.bind (covers.law.failIf trivial) fun _ =>
      (blames_insertType covers.ordinary _ _ _).bind fun _ => .pure _

/-- The methods of a service fail as one of them does or where a name comes again. -/
theorem Covers.linkMethods {service : String} {functions : List FunctionDefinition}
    {names : List String} :
    Blames kind (scope.linkMethods document service functions names) := by
  induction functions generalizing names with
  | nil => exact .pure _
  | cons function rest inductionHypothesis =>
    unfold Scope.linkMethods
    exact covers.law.bind (covers.law.failIf trivial) fun _ =>
      (covers.linkMethod member service function).bind fun _ =>
        inductionHypothesis.bind fun _ => .pure _

/-- A definition fails for a fault that is covered. -/
theorem Covers.linkDefinition {found : Definition} (isFound : found ∈ document.definitions) :
    Blames kind (scope.linkDefinition document found) := by
  cases found with
  | constant definition => exact .pure _
  | typedef definition => exact covers.typedefs document member definition isFound
  | enum definition =>
    exact covers.law.given_bind ordinary_linkMembers fun _ _ =>
      blames_insertType covers.ordinary _ _ _
  | struct definition | exception definition | union definition =>
    exact (covers.linkFields member).bind fun _ => blames_insertType covers.ordinary _ _ _
  | service definition =>
    exact covers.law.given_bind (ordinary_linkParent _) fun _ _ =>
      (covers.linkMethods member).bind fun _ => blames_insertService covers.ordinary _ _ _

end Definitions

section Constants

variable {kind : LinkFault → Prop} (covers : scope.Covers kind)

include covers

/-- A constant that is added fails as its type does, as the constants that it names or with an
ordinary fault of its own. -/
theorem Covers.addConstant {constant : Document → ConstantDefinition → LinkM Value}
    (linked : Law.OfConstants (fun _ step => Blames kind step) scope constant)
    (document : Document) (member : document ∈ scope.documents) (definition : ConstantDefinition)
    (_ : .constant definition ∈ document.definitions) :
    Blames kind (addConstant scope constant document definition) :=
  (covers.linkReference member _).bind fun _ =>
    Blames.bind (covers.law.convert member linked _ _) fun _ =>
      (blames_insertConstant covers.ordinary _ _ _).bind fun _ => .pure _

/-- Defaults fail for faults that are covered. -/
theorem Covers.linkDefaults {waiting : List PendingDefault}
    (known : ∀ pending ∈ waiting, pending.document ∈ scope.documents) :
    Blames kind (scope.linkDefaults waiting) := by
  induction waiting with
  | nil => exact .pure _
  | cons pending rest inductionHypothesis =>
    obtain ⟨here, others⟩ := List.forall_mem_cons.mp known
    refine Blames.bind ?_ fun value => Blames.bind ?_ fun _ => inductionHypothesis others
    · exact covers.law.convert here (fun home isHome other isOther =>
        covers.law.linkConstant covers.addConstant isHome other isOther) _ _
    · intro linking error failed
      cases failed

/-- All that linking fails for is covered. -/
theorem Covers.linkAll : FailsFor kind (scope.linkAll {}) := by
  intro error failed
  unfold Scope.linkAll at failed
  rcases bind_eq_error.mp failed with early | ⟨_, typed, definitions, failed⟩
  · refine covers.law.forM (fun document member => ?_) _ _ early
    exact covers.law.forM fun found isFound => covers.linkDefinition member isFound
  rcases bind_eq_error.mp failed with early | ⟨_, settled, constants, failed⟩
  · exact covers.law.linkConstants covers.addConstant _ _ early
  rcases bind_eq_error.mp failed with early | ⟨_, _, met, failed⟩
  · cases early
  obtain ⟨rfl, rfl⟩ := Prod.mk.inj (Except.ok.inj met)
  have typed := sound_of_linkDefinitions definitions
  have sound := (advances_linkConstants _ _ _ constants).sound typed
  exact covers.linkDefaults sound.pending _ _ failed

end Constants

section Includes

variable {path : String}

/-- An ordinary fault concerns no include. -/
theorem ne_unresolvedInclude_of_isOrdinary (fault : LinkFault) (ordinary : fault.IsOrdinary) :
    fault ≠ .unresolvedInclude path := by
  rintro rfl
  exact ordinary

/-- Following a typedef never fails for an include, whatever it leads to. The induction is on the
bound. -/
theorem blames_linkTypedef_no_include {bound : Nat} {above : List String} {document : Document}
    {definition : TypedefDefinition} :
    Blames (· ≠ .unresolvedInclude path) (scope.linkTypedef bound above document definition) := by
  induction bound generalizing above document definition with
  | zero =>
    exact blames_linkTypedef_of ne_unresolvedInclude_of_isOrdinary (fun _ => nofun)
      (fun _ _ => nofun) nofun
  | succ bound inductionHypothesis =>
    refine blames_linkTypedef_of ne_unresolvedInclude_of_isOrdinary (fun _ => nofun) nofun
      fun _ fewer same _ _ _ => ?_
    obtain rfl := Nat.succ.inj same
    exact inductionHypothesis

/-- No step of linking fails for an include. -/
theorem covers_no_include : scope.Covers (· ≠ .unresolvedInclude path) where
  ordinary := ne_unresolvedInclude_of_isOrdinary
  typedefs _ _ _ _ := blames_linkTypedef_no_include

end Includes

end Scope

open Scope in
/-- Linking documents that include only one another never fails for an include.

Proof: forming the scope looks for each include among the documents that are first of their paths.
The included path is one of theirs by the premise, so a first document of it is kept. Linking itself
never fails for an include. -/
theorem no_unresolvedInclude {documents : List Document} {error : LinkError}
    (closed : ∀ document ∈ documents, ∀ found ∈ document.includes,
      found.path ∈ documents.map (·.path))
    (failed : link documents = .error error) (path : String) :
    error.fault ≠ .unresolvedInclude path := by
  unfold link at failed
  rcases Outcome.bind_eq_error.mp failed with early | ⟨scope, -, failed⟩
  · have spared : FailsFor (· ≠ .unresolvedInclude path) (ofDocuments documents) := by
      apply failsFor_ofDocuments ne_unresolvedInclude_of_isOrdinary
      · exact fun _ _ => nofun
      intro document member found isFound absent
      -- The first document of the path that is included is kept.
      obtain ⟨home, isHome, samePath⟩ := List.mem_map.mp
        (closed document (mem_of_mem_firstOfPaths member) found isFound)
      have kept : ((firstOfPaths documents []).find? (·.path = found.path)).isSome := by
        rw [find?_firstOfPaths List.not_mem_nil, List.find?_isSome]
        exact ⟨home, isHome, decide_eq_true samePath⟩
      obtain ⟨other, isOther, same⟩ := List.find?_isSome.mp kept
      exact absurd (of_decide_eq_true same) (absent other isOther)
    exact spared error early
  rcases Outcome.bind_eq_error.mp failed with late | ⟨_, -, settled⟩
  · exact Scope.covers_no_include.linkAll error late
  · cases settled

end SchemaCodec
