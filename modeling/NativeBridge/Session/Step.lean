import NativeBridge.Buffer.Extraction
import NativeBridge.Record.Services

/-! What can be done in a session, and what is answered.

    Steps speak of objects and views by the names they are bound to. Where a step takes `none`
    for an object or a view, it passes the null pointer. -/

namespace NativeBridge

/-- Contents of memory to be made; `none` is the null address. -/
abbrev Contents := Option (List UInt8)

/-- An object to be made. -/
inductive NewObject where
  | complex (value : Complex)
  | complex128 (value : Complex)
  | complex64 (real imag : Single)
  | float (value : Double)
  | int (value : Int)
  | realScalar (type : ScalarType) (data : List UInt8)
  | scalarWithoutDescriptor
  | scalarWithRecordDescriptor
  | bytes (data : List UInt8)
  | holder (data : String)
  | descriptor (layout : Layout)
  | window (window : Window String Contents)
  | custom (custom : Custom String Contents)
  deriving DecidableEq, Repr

/-- The runtime that rebuilds a record: the installed one, or one that is passed, or none. -/
inductive RuntimeChoice where
  | installed
  | passed (runtime : Option Services)
  deriving DecidableEq, Repr

/-- One step of a session. A step that yields an object binds it to `as`, or drops it. -/
inductive Step where
  | make (object : NewObject) (as : Option String)
  | clone (object : String) (as : Option String)
  | borrow (object as : Option String)
  | unwrap (object : String) (as : Option String)
  | drop (name : String)
  | references (object : String)
  | retain (object : Option String)
  | release (object : Option String)
  | describe (object : String)
  | attribute (object : Option String) (name : String) (as : Option String)
  | numericKind (object : String)
  | adapt (object : Option String)
  | enterAdaptor (object : Option String)
  | coerce (object : String) (as : Option String)
  | setError (error : HelperError)
  | takeError
  | takeErrorElsewhere
  | extract (object : Option String) (strategies : List Strategy) (view : Option String)
  | enterExtract (object : Option String) (view : String)
  | showView (view : String)
  | unguard (view : String)
  | dropGuard (view : String)
  | releaseView (view : Option String)
  | enterRelease (view : Option String)
  | exports (object : String)
  | cycle (object : Option String) (times : Nat)
  | readSegment (object : String) (segment : Int)
  | recreate (data : Contents) (length : Nat) (dtype : Option String) (runtime : RuntimeChoice)
      (as : Option String)
  | enterRecreate (data : Contents) (size : Int) (dtype as : Option String)
  | recordBytes (object : String)
  | recordField (object name : String)
  | elementDescriptor (object : String) (as : Option String)
  | descriptor (object : String)
  | recordKind (as : Option String)
  | combine (kind dtype : String) (as : Option String)
  | array (data : List UInt8) (descr : String) (as : Option String)
  | item (object : String) (index : Nat) (as : Option String)
  | install
  | hasRuntime
  | enableTracking
  | isTracking
  | live
  | track (kind : Kind) (delta : Int)
  | report (since : Int)
  | resetTracking
  deriving DecidableEq, Repr

/-- An object as an answer shows it: its type, its kind and the first name it already had. -/
structure Binding where
  typeName : String
  kind : Kind
  known : Option String
  deriving DecidableEq, Repr

/-- How an answer names an object: the first name bound to it, a question mark without one. -/
def shownName (known : Option String) : String := known.getD "?"

/-- A view as an answer shows it: its fields, the name of its owner, and what it shows. -/
structure ViewReport where
  view : View
  owner : Option String
  bytes : Option (List UInt8)
  deriving DecidableEq, Repr

/-- The answer to a step. -/
inductive Answer where
  | nothing
  | flag (value : Bool)
  | number (value : Int)
  | text (value : String)
  | unusable (name : String)
  | failure (error : HelperError)
  | pending (error : Option HelperError)
  | object (binding : Option Binding)
  | type (name : String) (kind : Kind) (description : String)
  | complex (value : Option Complex)
  | adapted (status : Int) (out : Complex)
  | noSlot
  | coerced (value : Option Double) (binding : Option Binding)
  | view (view : Option ViewReport)
  | extracted (view : ViewReport) (length : Int) (isNull : Bool) (bytes : List UInt8)
  | entered (isNull isViewStart : Bool) (view : ViewReport)
  | segment (size : Int) (isNull : Bool) (bytes : Option (List UInt8))
  | bytes (value : Option (List UInt8))
  | descriptor (value : Option (Layout × Bool))
  | live (counts : List (Kind × Int))
  | report (rows : List (Kind × Int)) (total delta : Int) (isQuiet : Bool)
  deriving DecidableEq, Repr

end NativeBridge
