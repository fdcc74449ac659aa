/-!
# Places inside a value

A path leads from a value to a value inside it, by field ids and element positions, outermost first.
An error gains one step for each value around the one at fault.
-/

namespace SchemaCodec

/-- One step from a value to a value directly inside it. -/
inductive PathStep where
  /-- The field of a struct or union. -/
  | field (id : Int16)
  /-- The position in a list or set. -/
  | index (position : Nat)
  /-- The key of the entry at a position in a map. -/
  | key (position : Nat)
  /-- The value of the entry at a position in a map. -/
  | value (position : Nat)
deriving DecidableEq, Repr

/-- The steps from the outermost value inwards; no step leads to the value itself. -/
abbrev FieldPath := List PathStep

/-- The text of one step. -/
def PathStep.display : PathStep → String
  | field id => "." ++ toString id.toInt
  | index position => "[" ++ toString position ++ "]"
  | key position => "[" ++ toString position ++ "].key"
  | value position => "[" ++ toString position ++ "].value"

/-- The id of a step into a field. -/
def PathStep.fieldId? : PathStep → Option Int16
  | field id => some id
  | _ => none

namespace FieldPath

/-- The text of a path, with a word for the path that stays at the root. -/
def display : FieldPath → String
  | [] => "<root>"
  | path => String.join (path.map PathStep.display)

/-- The field ids on a path, outermost first. -/
def fieldIds (path : FieldPath) : List Int16 := path.filterMap PathStep.fieldId?

end FieldPath

end SchemaCodec
