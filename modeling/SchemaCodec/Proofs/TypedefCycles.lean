import SchemaCodec.Proofs.AcceptedDocuments
import SchemaCodec.Proofs.ConstantSoundness
import SchemaCodec.Proofs.CycleReports

/-!
# Typedef cycles

A cycle of typedefs that is reported is there, and where one is there the documents do not link.
Resolution ends all the same: whoever follows typedefs stops at the first name that comes again, and
whoever looks for includes lists each document once.
-/

namespace SchemaCodec

namespace Scope

open Linking

variable {scope : Scope}

section Cycles

variable {cycle : List String}

/-- Every typedef of some name has a target that is, as written, a name and not a container. -/
def NamesDirectly (scope : Scope) (name : String) : Prop :=
  ∀ document ∈ scope.documents, ∀ definition, .typedef definition ∈ document.definitions →
    document.qualified definition.name = name →
      ∃ written span, definition.target = .named written span

/-- Each name of a cycle leads to some name, the last one as the first one does.

Proof: by where the name stands in the cycle. Unless it is the last one, it leads to the one behind
it; the last one is the first one again, which leads to the second. -/
theorem IsCycle.exists_leadsByName (isCycle : scope.IsCycle cycle) {name : String}
    (member : name ∈ cycle) : ∃ next, scope.LeadsByName name next := by
  obtain ⟨long, closed, leads⟩ := isCycle
  obtain ⟨before, after, rfl⟩ := List.append_of_mem member
  cases after with
  | cons next rest =>
    exact ⟨next, (List.isChain_cons_cons.mp leads.right_of_append).1⟩
  | nil =>
    -- The name is the last one, so it is the first one as well and another one follows.
    match before with
    | [] => simp at long
    | [first] =>
      obtain rfl : first = name := by simpa using closed
      exact ⟨first, (List.isChain_cons_cons.mp leads).1⟩
    | first :: second :: rest =>
      obtain rfl : first = name := by simpa [List.getLast?_cons] using closed
      exact ⟨second, (List.isChain_cons_cons.mp leads).1⟩

/-- A cycle leads from a name back to it. -/
theorem IsCycle.transGen (isCycle : scope.IsCycle cycle) :
    ∃ name, Relation.TransGen scope.LeadsByName name name := by
  obtain ⟨long, closed, leads⟩ := isCycle
  match cycle with
  | [] | [_] => simp at long
  | first :: second :: rest =>
    obtain ⟨here, onwards⟩ := List.isChain_cons_cons.mp leads
    have back : (second :: rest).getLast (List.cons_ne_nil _ _) = first := by
      simpa [List.getLast?_cons, List.getLast_eq_getLastD] using closed.symm
    exact ⟨first, .head' here (List.relationReflTransGen_of_exists_isChain_cons _ onwards back)⟩

/-- A typedef leads where its name does. -/
theorem Orderly.leadsTo_of_leadsByName (orderly : scope.Orderly) {document : Document}
    (member : document ∈ scope.documents) {definition : TypedefDefinition}
    (isTypedef : .typedef definition ∈ document.definitions) {name : String}
    (leads : scope.LeadsByName (document.qualified definition.name) name) :
    ∃ home next, scope.LeadsTo (document, definition) (home, next) ∧
      home.qualified next.name = name := by
  obtain ⟨origin, isOrigin, other, isOther, same, home, next, leads, named⟩ := leads
  obtain ⟨rfl, sameFound⟩ := orderly.eq_of_qualified isOrigin member isOther isTypedef same
  obtain rfl := Definition.typedef.inj sameFound
  exact ⟨home, next, leads, named⟩

/-- The typedef of a name of a cycle names the next one directly. -/
theorem Orderly.namesDirectly_of_isCycle (orderly : scope.Orderly) (isCycle : scope.IsCycle cycle) :
    ∀ name ∈ cycle, scope.NamesDirectly name := by
  rintro name passed document member definition isTypedef rfl
  obtain ⟨next, leads⟩ := isCycle.exists_leadsByName passed
  obtain ⟨home, other, ⟨written, span, isTarget, -⟩, -⟩ :=
    orderly.leadsTo_of_leadsByName member isTypedef leads
  exact ⟨written, span, isTarget⟩

/-- A typedef leads, step by step, where its name does. -/
theorem Orderly.transGen_leadsTo (orderly : scope.Orderly) {document : Document}
    (member : document ∈ scope.documents) {definition : TypedefDefinition}
    (isTypedef : .typedef definition ∈ document.definitions) {name : String}
    (leads : Relation.TransGen scope.LeadsByName (document.qualified definition.name) name) :
    ∃ home ∈ scope.documents, ∃ next, .typedef next ∈ home.definitions ∧
      home.qualified next.name = name ∧
        Relation.TransGen scope.LeadsTo (document, definition) (home, next) := by
  induction leads with
  | single leads =>
    obtain ⟨home, next, onwards, named⟩ := orderly.leadsTo_of_leadsByName member isTypedef leads
    obtain ⟨isHome, isNext⟩ := onwards.mem member
    exact ⟨home, isHome, next, isNext, named, .single onwards⟩
  | tail _ leads inductionHypothesis =>
    obtain ⟨between, isBetween, middle, isMiddle, rfl, path⟩ := inductionHypothesis
    obtain ⟨home, next, onwards, named⟩ := orderly.leadsTo_of_leadsByName isBetween isMiddle leads
    obtain ⟨isHome, isNext⟩ := onwards.mem isBetween
    exact ⟨home, isHome, next, isNext, named, path.tail onwards⟩

/-- Where there is a cycle, some typedef leads back to itself. -/
theorem Orderly.exists_loop_of_isCycle (orderly : scope.Orderly) (isCycle : scope.IsCycle cycle) :
    ∃ document ∈ scope.documents, ∃ definition, .typedef definition ∈ document.definitions ∧
      Relation.TransGen scope.LeadsTo (document, definition) (document, definition) := by
  obtain ⟨name, leads⟩ := isCycle.transGen
  obtain ⟨second, ⟨document, member, definition, isTypedef, rfl, -⟩, -⟩ :=
    Relation.TransGen.head'_iff.mp leads
  obtain ⟨home, isHome, next, isNext, named, path⟩ :=
    orderly.transGen_leadsTo member isTypedef leads
  obtain ⟨rfl, same⟩ := orderly.eq_of_qualified isHome member isNext isTypedef named
  obtain rfl := Definition.typedef.inj same
  exact ⟨home, member, next, isTypedef, path⟩

end Cycles

section Ends

/-- Resolution ends by itself: no bound on the typedefs that are followed one after another or on
the documents that are listed as includes cuts it short, so larger bounds change nothing. -/
structure ResolutionEnds (scope : Scope) : Prop where
  typedefs : ∀ document ∈ scope.documents, ∀ definition,
    .typedef definition ∈ document.definitions → ∀ bound, scope.size < bound →
      scope.linkTypedef bound [] document definition =
        scope.linkTypedef (scope.size + 1) [] document definition
  includes : ∀ start bound, scope.documents.length ≤ bound →
    reachWithin scope.includesOf bound (scope.includesOf start)
        ((scope.documents.map (·.path)).filter (· ≠ start)) =
      reach (scope.documents.map (·.path)) scope.includesOf start

/-- A typedef is linked alike with a larger bound. The induction is on the bound: only distinct
names are passed before one comes again, and these are no more than the definitions.

With no steps left, as many names were passed as there are definitions, so the next name is among
them and the run is refused as a cycle, whatever the bound. -/
theorem linkTypedef_add {bound : Nat} (more : Nat) {above : List String} {document : Document}
    {definition : TypedefDefinition} (descent : scope.Descent above document definition)
    (enough : scope.size < bound + above.length) :
    scope.linkTypedef (bound + more) above document definition =
      scope.linkTypedef bound above document definition := by
  induction bound generalizing above document definition with
  | zero =>
    have repeated : document.qualified definition.name ∈ above := by
      by_contra new
      have short := descent.length_lt new
      omega
    unfold linkTypedef
    simp only [if_pos repeated]
  | succ bound inductionHypothesis =>
    rw [Nat.add_right_comm]
    unfold linkTypedef
    by_cases repeated : document.qualified definition.name ∈ above
    · simp only [if_pos repeated]
    · simp only [if_neg repeated]
      cases direct : scope.directTypedef? document definition.target with
      | none => rfl
      | some next =>
        obtain ⟨home, next⟩ := next
        have longer := inductionHypothesis (descent.step repeated direct)
          (by rw [List.length_append, List.length_singleton]; omega)
        simp only [longer]

/-- Resolution ends on all documents, whatever they include and whatever their typedefs lead to. -/
theorem resolutionEnds (scope : Scope) : scope.ResolutionEnds where
  typedefs document member definition isTypedef bound large := by
    obtain ⟨more, rfl⟩ := Nat.exists_eq_add_of_le large
    exact linkTypedef_add more (.start member isTypedef) (by simp)
  includes start bound large := by
    refine BreadthFirst.reachWithin_of_length_le ?_
    have kept := List.length_filter_le (· ≠ start) (scope.documents.map (·.path))
    rw [List.length_map] at kept
    exact kept.trans large

end Ends

end Scope

open Scope

/-- Typedef cycles that are reported are genuine. Documents whose modules and names have no dots
fail for a cycle only where the names that are told are one: at least two names, the first of them
again at the end, each of a typedef that names the next one directly and not in a container. Where
there is such a cycle the documents do not link. And resolution always ends.

Proof: the names that are passed while a typedef is linked are a chain, each leading to the next
one, and a cycle is reported when a name comes again. Conversely a typedef of a cycle leads back to
itself, and then no run of the passes succeeds, since each typedef is registered after the one that
it leads to. -/
theorem typedef_cycles_are_genuine {documents : List Document}
    (dotlessModules : ∀ document ∈ documents, Dotless document.module)
    (dotlessNames : ∀ document ∈ documents, ∀ found ∈ document.definitions, Dotless found.name) :
    (∀ error cycle, link documents = .error error → error.fault = .illegalTypedefCycle cycle →
        (Scope.mk (firstOfPaths documents [])).IsCycle cycle ∧
          ∀ name ∈ cycle, (Scope.mk (firstOfPaths documents [])).NamesDirectly name) ∧
      (∀ cycle, (Scope.mk (firstOfPaths documents [])).IsCycle cycle →
        ∀ schema, link documents ≠ .ok schema) ∧
      ∀ scope : Scope, scope.ResolutionEnds := by
  refine ⟨fun error cycle failed reported => ?_, fun cycle isCycle schema linked => ?_,
    resolutionEnds⟩
  · unfold link at failed
    rcases Outcome.bind_eq_error.mp failed with early | ⟨scope, formed, failed⟩
    · exact (cycleFree_ofDocuments _ _ early ⟨cycle, reported⟩).elim
    rcases Outcome.bind_eq_error.mp failed with here | ⟨_, -, late⟩
    · have orderly := orderly_of_ofDocuments formed dotlessModules dotlessNames
      obtain ⟨rfl, -⟩ := ofDocuments_eq_ok_iff.mp formed
      have isCycle := orderly.isCycle_of_linkAll here reported
      exact ⟨isCycle, orderly.namesDirectly_of_isCycle isCycle⟩
    · cases late
  · obtain ⟨scope, formed, typed, settled, later, passes, -⟩ := link_eq_ok.mp linked
    have orderly := orderly_of_ofDocuments formed dotlessModules dotlessNames
    obtain ⟨rfl, -⟩ := ofDocuments_eq_ok_iff.mp formed
    obtain ⟨document, member, definition, isTypedef, loop⟩ :=
      orderly.exists_loop_of_isCycle isCycle
    exact passes.acyclic orderly member isTypedef loop

/-- A document with a typedef that leads to another document and one that holds itself in a
list. -/
def oddDocument : Document where
  path := "odd.thrift"
  module := "odd"
  includes := [{ path := "even.thrift" }]
  definitions := [
    .typedef { name := "Tree", target := .list (.named "Tree" {}) },
    .typedef { name := "Odd", target := .named "even.Even" {} }]

/-- A document that is included and includes the other one in turn, with a typedef of some
target. -/
def evenDocument (target : TypeReference) : Document where
  path := "even.thrift"
  module := "even"
  includes := [{ path := "odd.thrift" }]
  definitions := [.typedef { name := "Even", target }]

/-- The two documents with a typedef that leads back directly. -/
def circularDocuments : List Document := [oddDocument, evenDocument (.named "odd.Odd" {})]

/-- The two documents with a typedef that leads back in a list. -/
def nestedDocuments : List Document := [oddDocument, evenDocument (.list (.named "odd.Odd" {}))]

/-- The names that are told where documents fail for a cycle of typedefs. -/
def reportedCycle? : Except LinkError Schema → Option (List String)
  | .error ⟨_, _, .illegalTypedefCycle cycle⟩ => some cycle
  | _ => none

/-- Names are told exactly where documents fail for the cycle of these. -/
theorem reportedCycle?_eq_some {outcome : Except LinkError Schema} {cycle : List String} :
    reportedCycle? outcome = some cycle ↔
      ∃ error, outcome = .error error ∧ error.fault = .illegalTypedefCycle cycle := by
  constructor
  · unfold reportedCycle?
    split
    · rintro ⟨⟩
      exact ⟨_, rfl, rfl⟩
    · rintro ⟨⟩
  · rintro ⟨⟨path, span, fault⟩, rfl, rfl⟩
    rfl

/-- The typedefs of two documents that include each other are reported as the cycle that they are,
and they link as soon as one of them leads back in a list. -/
theorem circularDocuments_do_not_link :
    (∃ error, link circularDocuments = .error error ∧
        error.fault = .illegalTypedefCycle ["odd.Odd", "even.Even", "odd.Odd"]) ∧
      (Scope.mk (firstOfPaths circularDocuments [])).IsCycle ["odd.Odd", "even.Even", "odd.Odd"] ∧
      (∀ schema, link circularDocuments ≠ .ok schema) ∧
      (Scope.mk circularDocuments).ResolutionEnds ∧ (link nestedDocuments).isOk = true := by
  have reported : reportedCycle? (link circularDocuments) =
      some ["odd.Odd", "even.Even", "odd.Odd"] := by decide +kernel
  obtain ⟨error, failed, isFault⟩ := reportedCycle?_eq_some.mp reported
  have links : (link nestedDocuments).isOk = true := by decide +kernel
  have dotlessModules : ∀ document ∈ circularDocuments, Dotless document.module := by decide
  have dotlessNames : ∀ document ∈ circularDocuments, ∀ found ∈ document.definitions,
      Dotless found.name := by decide
  obtain ⟨genuine, found, ends⟩ := typedef_cycles_are_genuine dotlessModules dotlessNames
  obtain ⟨isCycle, -⟩ := genuine _ _ failed isFault
  exact ⟨⟨error, failed, isFault⟩, isCycle, found _ isCycle, ends _, links⟩

end SchemaCodec
