import Mathlib.Data.List.TakeWhile
import SchemaCodec.Schema.Scope

/-!
# Names with dots

Where modules and definitions have names without dots, a dot ends the module and the next one ends
the definition. So a qualified name, alone or with a further part behind another dot, tells which
module and which definition it belongs to.
-/

namespace SchemaCodec

/-- A name without a dot. A module and such a name can be told from their qualified name, since the
last dot is the one between them. -/
def Dotless (name : String) : Prop := '.' ∉ name.toList

/-- Whether a name has a dot can be computed. -/
instance : DecidablePred Dotless := fun name => inferInstanceAs (Decidable ('.' ∉ name.toList))

/-- The end of a name, or what stands at a dot. -/
def AtDot (rest : String) : Prop := rest = "" ∨ ∃ behind, rest = "." ++ behind

section Dots

variable {front other rest more name : String}

/-- The part before the first dot of a name is all that stands in front of it. -/
theorem Dotless.takeWhile_append (dotless : Dotless front) (atDot : AtDot rest) :
    (front ++ rest).toList.takeWhile (· ≠ '.') = front.toList := by
  have inFront : ∀ char ∈ front.toList, decide (char ≠ '.') = true := by
    intro char member
    exact decide_eq_true fun same => dotless (same ▸ member)
  rw [String.toList_append, List.takeWhile_append_of_pos inFront]
  rcases atDot with rfl | ⟨behind, rfl⟩
  · simp
  · simp [String.toList_append]

/-- A name falls apart at its first dot in one way only. -/
theorem Dotless.append_inj (dotless : Dotless front) (atDot : AtDot rest)
    (otherDotless : Dotless other) (moreAtDot : AtDot more) :
    front ++ rest = other ++ more ↔ front = other ∧ rest = more := by
  refine ⟨fun same => ?_, fun ⟨sameFront, sameRest⟩ => by rw [sameFront, sameRest]⟩
  have sameFront : front = other := by
    rw [← String.toList_inj, ← dotless.takeWhile_append atDot,
      ← otherDotless.takeWhile_append moreAtDot, same]
  subst sameFront
  refine ⟨rfl, String.toList_inj.mp ?_⟩
  have sameList := congrArg String.toList same
  rw [String.toList_append, String.toList_append] at sameList
  exact List.append_cancel_left sameList

/-- What follows a dot stands at a dot. -/
theorem atDot_dot (behind : String) : AtDot ("." ++ behind) := .inr ⟨behind, rfl⟩

/-- A name has no first dot when it has no dot. -/
theorem splitFirstDot?_eq_none : splitFirstDot? name = none ↔ Dotless name := by
  unfold splitFirstDot?
  split
  · next ended =>
    rw [List.dropWhile_eq_nil_iff] at ended
    refine iff_of_true rfl fun member => ?_
    simpa using ended _ member
  · next left =>
    refine iff_of_false (by simp) fun dotless => ?_
    have ended : name.toList.dropWhile (· ≠ '.') = [] :=
      List.dropWhile_eq_nil_iff.mpr fun char member =>
        decide_eq_true fun same => dotless (same ▸ member)
    rw [ended] at left
    simp at left

/-- A name is split at its first dot.

Proof: the characters in front of the first dot are the longest front without one, and what is left
begins with the dot. Conversely a front without dots is exactly what is taken in front of the dot
that follows it. -/
theorem splitFirstDot?_eq_some :
    splitFirstDot? name = some (front, rest) ↔ Dotless front ∧ front ++ ("." ++ rest) = name := by
  constructor
  · intro split
    unfold splitFirstDot? at split
    split at split
    · simp at split
    · next first behind left =>
      obtain ⟨rfl, rfl⟩ := Prod.mk.inj (Option.some.inj split)
      have isDot : first = '.' := by
        have stopped := List.head?_dropWhile_not (· ≠ '.') name.toList
        rw [left] at stopped
        simpa using stopped
      refine ⟨fun member => ?_, ?_⟩
      · rw [String.toList_ofList] at member
        simpa using List.mem_takeWhile_imp member
      · rw [← String.toList_inj, String.toList_append, String.toList_append, String.toList_ofList,
          String.toList_ofList]
        have parts := List.takeWhile_append_dropWhile (p := (· ≠ '.')) (l := name.toList)
        rw [left, isDot] at parts
        simpa using parts
  · rintro ⟨dotless, rfl⟩
    have atDot := atDot_dot rest
    have inFront := dotless.takeWhile_append atDot
    have parts := List.takeWhile_append_dropWhile (p := (· ≠ '.'))
      (l := (front ++ ("." ++ rest)).toList)
    rw [inFront, String.toList_append, String.toList_append] at parts
    have behind : (front ++ ("." ++ rest)).toList.dropWhile (· ≠ '.') = '.' :: rest.toList := by
      rw [String.toList_append, String.toList_append]
      exact List.append_cancel_left parts
    unfold splitFirstDot?
    rw [behind, inFront]
    simp

end Dots

/-- A qualified name, up to its end or to another dot, belongs to one module and one name. -/
theorem Document.qualified_append_inj {document home : Document} {name other rest more : String}
    (dotlessModule : Dotless document.module) (dotless : Dotless name) (atDot : AtDot rest)
    (otherDotlessModule : Dotless home.module) (otherDotless : Dotless other)
    (moreAtDot : AtDot more) :
    document.qualified name ++ rest = home.qualified other ++ more ↔
      document.module = home.module ∧ name = other ∧ rest = more := by
  unfold Document.qualified
  have dotsApart (module name rest : String) :
      module ++ "." ++ name ++ rest = module ++ ("." ++ (name ++ rest)) := by
    simp only [String.append_assoc]
  rw [dotsApart, dotsApart, dotlessModule.append_inj (atDot_dot _) otherDotlessModule (atDot_dot _)]
  refine and_congr_right fun _ => ?_
  rw [← dotless.append_inj atDot otherDotless moreAtDot, ← String.toList_inj, ← String.toList_inj,
    String.toList_append, String.toList_append (s := "."), List.append_cancel_left_eq]

end SchemaCodec
