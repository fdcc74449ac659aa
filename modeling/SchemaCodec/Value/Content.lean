import SchemaCodec.Value.Order

/-!
# Comparing what values hold

What a struct, a union or an enum holds is compared apart from the value around it: the fields of
structs in their order, the id of a union before its value, and enums by their number alone. Each
has an equality of its own, which looks at the parts and not at their order.
-/

namespace SchemaCodec

/-- What a struct or exception holds: the fields that are set, ascending by id. -/
structure StructContent where
  fields : List (Int16 × Value)

namespace StructContent

/-- The struct with this content. -/
def toValue (content : StructContent) : Value := .struct content.fields

/-- Field by field, each id before its value. -/
instance : Ord StructContent where
  compare first second :=
    List.compareLex (fun one other => (compare one.1 other.1).then (one.2.order other.2))
      first.fields second.fields

/-- The same ids are set, to equal values. -/
instance : BEq StructContent where
  beq first second :=
    first.fields.length == second.fields.length &&
      (first.fields.zip second.fields).all fun (one, other) =>
        one.1 == other.1 && one.2 == other.2

end StructContent

/-- What a union holds: one field. -/
structure UnionContent where
  id : Int16
  value : Value

namespace UnionContent

/-- The union with this content. -/
def toValue (content : UnionContent) : Value := .union content.id content.value

/-- The id before the value. -/
instance : Ord UnionContent where
  compare first second := (compare first.id second.id).then (first.value.order second.value)

/-- The same field, with an equal value. -/
instance : BEq UnionContent where
  beq first second := first.id == second.id && first.value == second.value

end UnionContent

/-- What an enum holds: its number and a name for it. -/
structure EnumContent where
  number : Int32
  label : Option String

namespace EnumContent

/-- The enum with this content. -/
def toValue (content : EnumContent) : Value := .enum content.number content.label

/-- By the number; the label takes no part. -/
instance : Ord EnumContent where
  compare first second := compare first.number second.number

/-- The same number; the label takes no part. -/
instance : BEq EnumContent where
  beq first second := first.number == second.number

end EnumContent

end SchemaCodec
