import NativeBridge.Number.Function

/-! The helpers that are exported to compiled code, in the order of registration. -/

namespace NativeBridge

/-- Which of the two formats a mathematical helper works on. -/
inductive Precision where
  | double | single
  deriving DecidableEq, Repr

/-- An exported helper. -/
inductive Helper where
  | sdiv | srem | udiv | urem | cpow
  | complexAdaptor | extractRecordData | releaseRecordBuffer | recreateRecord
  | roundEven | roundfEven | fptoui
  | unary (function : UnaryFunction) (precision : Precision)
  | binary (function : BinaryFunction) (precision : Precision)
  deriving DecidableEq, Repr

namespace Helper

/-- The helpers that are not plain mathematical functions. -/
def core : List Helper :=
  [.sdiv, .srem, .udiv, .urem, .cpow, .complexAdaptor, .extractRecordData,
    .releaseRecordBuffer, .recreateRecord, .roundEven, .roundfEven, .fptoui]

/-- The mathematical functions, each in double and then in single precision. -/
def mathematical : List Helper :=
  UnaryFunction.all.flatMap (fun f => [.unary f .double, .unary f .single]) ++
    BinaryFunction.all.flatMap (fun f => [.binary f .double, .binary f .single])

/-- Every helper. -/
def all : List Helper := core ++ mathematical

/-- What a name gets at its end for single precision. -/
def ending : Precision → String
  | .double => ""
  | .single => "f"

/-- The exported name. -/
def name : Helper → String
  | sdiv => "sdiv"
  | srem => "srem"
  | udiv => "udiv"
  | urem => "urem"
  | cpow => "cpow"
  | complexAdaptor => "complex_adaptor"
  | extractRecordData => "extract_record_data"
  | releaseRecordBuffer => "release_record_buffer"
  | recreateRecord => "recreate_record"
  | roundEven => "round_even"
  | roundfEven => "roundf_even"
  | fptoui => "fptoui"
  | unary function precision => function.name ++ ending precision
  | binary function precision => function.name ++ ending precision

/-- The helper of this name. -/
def ofName? (name : String) : Option Helper := all.find? (·.name == name)

/-- The place of a name in the order of registration. -/
def index? (name : String) : Option Nat := all.findIdx? (·.name == name)

end Helper

/-- A helper that cannot do its work. -/
inductive StandIn where
  | complexAdaptor | extractRecordData | recreateRecord | releaseRecordBuffer | cpow
  deriving DecidableEq, Repr

/-- What an address leads to: a helper, one that fails in its place, or something else. -/
inductive Code where
  | helper (helper : Helper)
  | standIn (standIn : StandIn)
  | other
  deriving DecidableEq, Repr

end NativeBridge
