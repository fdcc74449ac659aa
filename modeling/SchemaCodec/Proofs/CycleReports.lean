import Mathlib.Data.List.Chain
import SchemaCodec.Proofs.LinkFaults
import SchemaCodec.Proofs.TypedefTrails

/-!
# Reported typedef cycles

Linking follows a typedef to the one that its target names directly and remembers the names by which
it has come. So the names are a chain in which each typedef leads to the next one, and what is
reported when a name comes again is the part of the chain that begins with it. No other step of
linking tells of a cycle.
-/

namespace SchemaCodec

open Linking

namespace Scope

variable {scope : Scope}

section Cycles

/-- A typedef of the first name leads to one of the second name: its target, as written, is a name
and refers to that one. -/
def LeadsByName (scope : Scope) (first second : String) : Prop :=
  ∃ document ∈ scope.documents, ∃ definition, .typedef definition ∈ document.definitions ∧
    document.qualified definition.name = first ∧
      ∃ home next, scope.LeadsTo (document, definition) (home, next) ∧
        home.qualified next.name = second

/-- Names of typedefs of which each leads to the next one, from a name back to the same name. -/
structure IsCycle (scope : Scope) (cycle : List String) : Prop where
  long : 2 ≤ cycle.length
  closed : cycle.head? = cycle.getLast?
  leads : cycle.IsChain scope.LeadsByName

/-- A chain that comes to a name again is a cycle from there on. -/
theorem isCycle_of_repeated {above : List String} {name : String}
    (leads : (above ++ [name]).IsChain scope.LeadsByName) (repeated : name ∈ above) :
    scope.IsCycle (above.dropWhile (· ≠ name) ++ [name]) := by
  obtain ⟨before, after, rfl, new⟩ := List.eq_append_cons_of_mem repeated
  have others : ∀ other ∈ before, decide (other ≠ name) = true := fun other member =>
    decide_eq_true fun same => new (same ▸ member)
  have kept : (before ++ name :: after).dropWhile (· ≠ name) = name :: after := by
    rw [List.dropWhile_append_of_pos others, List.dropWhile_cons_of_neg (by simp)]
  rw [List.append_assoc] at leads
  rw [kept]
  exact ⟨by simp, by simp [List.getLast?_cons], leads.right_of_append⟩

end Cycles

section Reports

variable {document : Document}

/-- A fault that names a cycle, if it is one of cycles. -/
def ReportsCycles (scope : Scope) (fault : LinkFault) : Prop :=
  ∀ cycle, fault = .illegalTypedefCycle cycle → scope.IsCycle cycle

/-- An ordinary fault is none of cycles. -/
theorem reportsCycles_of_isOrdinary (fault : LinkFault) (ordinary : fault.IsOrdinary) :
    scope.ReportsCycles fault := by
  rintro cycle rfl
  exact ordinary.elim

/-- Documents form a scope or fail for another reason than a cycle of typedefs. -/
theorem cycleFree_ofDocuments (documents : List Document) (error : LinkError)
    (failed : ofDocuments documents = .error error) :
    ¬∃ cycle, error.fault = .illegalTypedefCycle cycle := by
  have spared : FailsFor (fun fault => ¬∃ cycle, fault = .illegalTypedefCycle cycle)
      (ofDocuments documents) := by
    apply failsFor_ofDocuments
    · rintro fault ordinary ⟨cycle, rfl⟩
      exact ordinary
    · exact fun _ _ => nofun
    · exact fun _ _ _ _ _ => nofun
  exact spared error failed

/-- A chain of names that comes to a name again reports a cycle. -/
theorem reportsCycles_of_repeated {above : List String} {name : String}
    (leads : (above ++ [name]).IsChain scope.LeadsByName) (repeated : name ∈ above) :
    scope.ReportsCycles (.illegalTypedefCycle (above.dropWhile (· ≠ name) ++ [name])) := by
  intro cycle same
  obtain rfl := LinkFault.illegalTypedefCycle.inj same
  exact isCycle_of_repeated leads repeated

/-- A typedef that is linked tells of a cycle only where there is one. The induction is on the
bound: the typedef that the target names directly is linked with a smaller one, and with its name
behind them the names are still a chain. -/
theorem Orderly.reportsCycles_linkTypedef (orderly : scope.Orderly) {bound : Nat}
    {above : List String} {definition : TypedefDefinition}
    (descent : scope.Descent above document definition)
    (leads : (above ++ [document.qualified definition.name]).IsChain scope.LeadsByName)
    (enough : scope.size < bound + above.length) :
    Blames scope.ReportsCycles (scope.linkTypedef bound above document definition) := by
  induction bound generalizing above document definition with
  | zero =>
    refine blames_linkTypedef_of reportsCycles_of_isOrdinary (reportsCycles_of_repeated leads)
      (fun new _ => ?_) nofun
    have short := descent.length_lt new
    omega
  | succ bound inductionHypothesis =>
    refine blames_linkTypedef_of reportsCycles_of_isOrdinary (reportsCycles_of_repeated leads)
      nofun fun new fewer same home next direct => ?_
    obtain rfl := Nat.succ.inj same
    have isNext : scope.LeadsByName (document.qualified definition.name)
        (home.qualified next.name) :=
      ⟨document, descent.member, definition, descent.isTypedef, rfl, home, next,
        (orderly.leadsTo_iff descent.member).mpr direct, rfl⟩
    refine inductionHypothesis (descent.step new direct) ?_ ?_
    · exact leads.append (List.isChain_singleton _) (by simpa using isNext)
    · rw [List.length_append, List.length_singleton]
      omega

/-- All that linking says of cycles is true. -/
theorem Orderly.covers_cycles (orderly : scope.Orderly) : scope.Covers scope.ReportsCycles where
  ordinary := reportsCycles_of_isOrdinary
  typedefs document member definition isTypedef :=
    orderly.reportsCycles_linkTypedef (.start member isTypedef) (List.isChain_singleton _) (by simp)

/-- Whatever linking reports as a cycle is one. -/
theorem Orderly.isCycle_of_linkAll (orderly : scope.Orderly) {error : LinkError}
    {cycle : List String} (failed : scope.linkAll {} = .error error)
    (reported : error.fault = .illegalTypedefCycle cycle) : scope.IsCycle cycle :=
  orderly.covers_cycles.linkAll error failed cycle reported

end Reports

end Scope

end SchemaCodec
