/-! Kinds of host objects. -/

namespace NativeBridge

/-- What an object is to the helpers: its kind promises how its contents are read. -/
inductive Kind where
  | complex | float | int | arrayScalar | descriptor | bytes | legacyBuffer
  | recordHolder | recordArray | record | recordKind | other
  deriving DecidableEq, Repr

namespace Kind

/-- Every kind, by number. -/
def all : List Kind :=
  [.complex, .float, .int, .arrayScalar, .descriptor, .bytes, .legacyBuffer,
    .recordHolder, .recordArray, .record, .recordKind, .other]

/-- The number that stands for the kind in an object's type. -/
def number : Kind → Nat
  | complex => 1 | float => 2 | int => 3 | arrayScalar => 4 | descriptor => 5 | bytes => 6
  | legacyBuffer => 7 | recordHolder => 8 | recordArray => 9 | record => 10 | recordKind => 11
  | other => 12

/-- The kind as reports name it. -/
def name : Kind → String
  | complex => "complex" | float => "float" | int => "int" | arrayScalar => "array-scalar"
  | descriptor => "descriptor" | bytes => "bytes" | legacyBuffer => "legacy-buffer"
  | recordHolder => "record-holder" | recordArray => "record-array" | record => "record"
  | recordKind => "record-kind" | other => "other"

/-- The kind as a type description names it. -/
def label : Kind → String
  | complex => "Complex" | float => "Float" | int => "Int" | arrayScalar => "ArrayScalar"
  | descriptor => "Descriptor" | bytes => "Bytes" | legacyBuffer => "LegacyBuffer"
  | recordHolder => "RecordHolder" | recordArray => "RecordArray" | record => "Record"
  | recordKind => "RecordKind" | other => "Other"

/-- The kind that reports call so. -/
def ofName? (name : String) : Option Kind := all.find? (·.name == name)

end Kind

end NativeBridge
