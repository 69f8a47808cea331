import NativeBridge.Number.Complex

/-! Element types of array scalars and record fields.

    An element is stored little-endian in as many bytes as its type has. `ScalarType.cast` reads
    it as a complex number without changing its value where a double can hold it. -/

namespace NativeBridge

/-- Bytes read as one unsigned integer, the lowest byte first. -/
def littleEndian (bytes : List UInt8) : Nat := bytes.foldr (fun b n => b.toNat + 256 * n) 0

/-- The lowest `size` bytes of a number, the lowest first. -/
def toLittleEndian : Nat → Nat → List UInt8
  | 0, _ => []
  | size + 1, n => .ofNat n :: toLittleEndian size (n / 256)

/-- Size of an integer element. -/
inductive IntWidth where
  | one | two | four | eight
  deriving DecidableEq, Repr

namespace IntWidth

/-- Every size. -/
def all : List IntWidth := [.one, .two, .four, .eight]

/-- Number of bytes. -/
def bytes : IntWidth → Nat
  | one => 1
  | two => 2
  | four => 4
  | eight => 8

/-- Number of bits. -/
def bits (w : IntWidth) : Nat := 8 * w.bytes

end IntWidth

/-- The type of one stored element. -/
inductive ScalarType where
  | bool
  | int (width : IntWidth)
  | uint (width : IntWidth)
  | float32 | float64 | complex64 | complex128
  deriving DecidableEq, Repr

namespace ScalarType

/-- Every element type. -/
def all : List ScalarType :=
  [.bool] ++ IntWidth.all.map .int ++ IntWidth.all.map .uint ++
    [.float32, .float64, .complex64, .complex128]

/-- Number of bytes of an element. -/
def size : ScalarType → Nat
  | bool => 1
  | int w | uint w => w.bytes
  | float32 => 4
  | float64 | complex64 => 8
  | complex128 => 16

/-- Whether elements have an imaginary part. -/
def isComplex : ScalarType → Bool
  | complex64 | complex128 => true
  | _ => false

/-- The name of the type. -/
def name : ScalarType → String
  | bool => "bool"
  | int w => "int" ++ toString w.bits
  | uint w => "uint" ++ toString w.bits
  | float32 => "float32"
  | float64 => "float64"
  | complex64 => "complex64"
  | complex128 => "complex128"

/-- The type of this name. -/
def ofName? (name : String) : Option ScalarType := all.find? (·.name == name)

/-- The element at the start of the bytes as a complex number. Narrow parts are widened, a
    64-bit integer goes to the nearest double, and a real element has imaginary part `+0`. -/
def cast (type : ScalarType) (raw : List UInt8) : Complex :=
  let word (start size : Nat) := littleEndian ((raw.drop start).take size)
  match type with
  | bool => .ofReal (.ofInt (if word 0 1 = 0 then 0 else 1))
  | int w => .ofReal (.ofInt ((word 0 w.bytes : Int).bmod (pow2 w.bits)))
  | uint w => .ofReal (.ofInt (word 0 w.bytes))
  | float32 => .ofReal (Binary.ofBits (word 0 4) : Single).convert
  | float64 => .ofReal (.ofBits (word 0 8))
  | complex64 =>
    ⟨(Binary.ofBits (word 0 4) : Single).convert, (Binary.ofBits (word 4 4) : Single).convert⟩
  | complex128 => ⟨.ofBits (word 0 8), .ofBits (word 8 8)⟩

end ScalarType

end NativeBridge
