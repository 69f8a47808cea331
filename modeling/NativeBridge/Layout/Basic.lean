import NativeBridge.Layout.Scalar

/-! Layout of described values: one element, or named fields in an item of fixed size. -/

namespace NativeBridge

/-- A named field of a structured item. -/
structure Field where
  name : String
  offset : Nat
  scalar : ScalarType
  deriving DecidableEq, Repr

/-- The first byte after the field. -/
def Field.stop (field : Field) : Nat := field.offset + field.scalar.size

/-- What a descriptor describes. Nothing relates the fields to the item size or to each other:
    they may overlap, share a name or reach past the item. -/
inductive Layout where
  | scalar (type : ScalarType)
  | record (fields : List Field) (itemSize : Nat)
  deriving DecidableEq, Repr

namespace Layout

/-- The fields in an item that ends with the last of them. -/
def packed (fields : List Field) : Layout :=
  .record fields (fields.foldl (fun size field => max size field.stop) 0)

/-- Number of bytes of an item. -/
def itemSize : Layout → Nat
  | scalar type => type.size
  | record _ size => size

/-- Whether the layout has fields. -/
def isRecord : Layout → Bool
  | scalar _ => false
  | record .. => true

/-- The first field of this name. -/
def field? (layout : Layout) (name : String) : Option Field :=
  match layout with
  | scalar _ => none
  | record fields _ => fields.find? (·.name == name)

end Layout

end NativeBridge
