import NativeBridge.Buffer.View
import NativeBridge.Export.Table

/-! What the host sees once the helpers are loaded. -/

namespace NativeBridge

/-- The export table and the constants that the code generator reads. -/
structure HelperModule where
  table : ExportTable
  viewSize : Nat
  longMin : Int
  longMax : Int
  deriving DecidableEq, Repr

/-- Loads the helpers; without a table nothing is exposed. -/
def HelperModule.load : Except InitError HelperModule :=
  match ExportTable.real with
  | .error error => .error error
  | .ok table => .ok ⟨table, View.byteSize, -(pow2 63), pow2 63 - 1⟩

end NativeBridge
