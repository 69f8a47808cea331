/-! What can go wrong, by cause. The wording is in one place, `HelperError.message`. -/

namespace NativeBridge

/-- Why a value has no native complex number. -/
inductive ConversionError where
  | notNumeric | descriptorUnavailable | castFailed
  deriving DecidableEq, Repr

/-- Why an object has no buffer. -/
inductive ExtractError where
  | noDataAttribute | noBufferProtocol
  deriving DecidableEq, Repr

/-- Why a record cannot be rebuilt from bytes. -/
inductive ReconstructError where
  | runtimeUnavailable | badDescriptor | copyFailed
  deriving DecidableEq, Repr

/-- Why an export table cannot be built. -/
inductive InitError where
  | duplicateSymbol (name : String)
  | nullAddress (name : String)
  deriving DecidableEq, Repr

/-- Any failure that a helper can leave for the host. -/
inductive HelperError where
  | conversion (error : ConversionError)
  | extract (error : ExtractError)
  | reconstruct (error : ReconstructError)
  | init (error : InitError)
  deriving DecidableEq, Repr

/-- The failure in words. -/
def InitError.message : InitError → String
  | duplicateSymbol name => "helper `" ++ name ++ "` is registered twice"
  | nullAddress name => "helper `" ++ name ++ "` has a null address"

namespace HelperError

/-- The failure in words. -/
def message : HelperError → String
  | conversion .notNumeric => "value has no numeric coercion"
  | conversion .descriptorUnavailable => "array scalar has no resolvable element descriptor"
  | conversion .castFailed => "array scalar could not be cast to double-precision complex"
  | extract .noDataAttribute => "object has no `data` attribute"
  | extract .noBufferProtocol => "`data` attribute exposes no usable buffer protocol"
  | reconstruct .runtimeUnavailable => "host runtime has no record kind"
  | reconstruct .badDescriptor => "cannot build a record descriptor from the given type descriptor"
  | reconstruct .copyFailed => "cannot materialise the byte region as a record array"
  | init error => error.message

/-- The name of the cause. -/
def label : HelperError → String
  | conversion .notNumeric => "NotNumeric"
  | conversion .descriptorUnavailable => "DescriptorUnavailable"
  | conversion .castFailed => "CastFailed"
  | extract .noDataAttribute => "NoDataAttribute"
  | extract .noBufferProtocol => "NoBufferProtocol"
  | reconstruct .runtimeUnavailable => "RuntimeUnavailable"
  | reconstruct .badDescriptor => "BadDescriptor"
  | reconstruct .copyFailed => "CopyFailed"
  | init (.duplicateSymbol _) => "DuplicateSymbol"
  | init (.nullAddress _) => "NullAddress"

/-- The failure with its group, as messages about failures show it. -/
def describe (error : HelperError) : String :=
  match error with
  | conversion _ => "Conversion(" ++ error.label ++ ")"
  | extract _ => "Extract(" ++ error.label ++ ")"
  | reconstruct _ => "Reconstruct(" ++ error.label ++ ")"
  | init (.duplicateSymbol name) | init (.nullAddress name) =>
    "Init(" ++ error.label ++ "(\"" ++ name ++ "\"))"

/-- The failure of this name; `name` is the helper that a table failure is about. -/
def ofLabel? (label name : String) : Option HelperError :=
  [conversion .notNumeric, conversion .descriptorUnavailable, conversion .castFailed,
    extract .noDataAttribute, extract .noBufferProtocol, reconstruct .runtimeUnavailable,
    reconstruct .badDescriptor, reconstruct .copyFailed, init (.duplicateSymbol name),
    init (.nullAddress name)].find? (·.label == label)

end HelperError

end NativeBridge
