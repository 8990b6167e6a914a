import DeviceTree.Encoding.Text

/-!
# Failures

A `ParseError` says what is wrong with a blob and where; an `Error` is what an operation on the
devices of a tree can end in. Each is a cause, and `message` is its one wording.
-/
namespace DeviceTree

/-- The layout rule that a blob's header breaks. -/
inductive HeaderFault
  | structBeforeReservations
  | structOffsetOutOfBounds
  | stringsOffsetOutOfBounds
  | structOverflows
  | stringsOverflow
  | stringsBeforeStruct
  | structUnaligned
deriving DecidableEq, Repr

namespace HeaderFault

/-- The offset of the header field at fault. -/
def offset : HeaderFault → Nat
  | structBeforeReservations => 16
  | structOffsetOutOfBounds => 8
  | stringsOffsetOutOfBounds => 12
  | structOverflows => 36
  | stringsOverflow => 32
  | stringsBeforeStruct => 12
  | structUnaligned => 8

def message : HeaderFault → String
  | structBeforeReservations => "dt_struct not after memrsvmap"
  | structOffsetOutOfBounds => "struct offset out of bounds"
  | stringsOffsetOutOfBounds => "strings offset out of bounds"
  | structOverflows => "struct block overflows"
  | stringsOverflow => "strings block overflows"
  | stringsBeforeStruct => "strings block not after struct block"
  | structUnaligned => "struct block unaligned"

end HeaderFault

inductive ParseFault
  | invalidMagic
  | unsupportedVersion (version : Nat)
  | invalidLength
  | invalidHeader (fault : HeaderFault)
  | badToken (word : UInt32)
  | invalidOffset
  | invalidString
  | invalidPropertyLength
  | reservationsNotTerminated
  | invalidReservation
deriving DecidableEq, Repr

namespace ParseFault

def message : ParseFault → String
  | invalidMagic => "invalid FDT magic number"
  | unsupportedVersion version => "the FDT version " ++ toString version ++ " is not supported"
  | invalidLength => "invalid FDT length"
  | invalidHeader fault => "FDT header has failed validation: " ++ fault.message
  | badToken word => "bad FDT token: " ++ Text.hex word.toNat
  | invalidOffset => "invalid offset in FDT"
  | invalidString => "invalid string in FDT"
  | invalidPropertyLength => "invalid property length"
  | reservationsNotTerminated => "memory reservation block not terminated with a null entry"
  | invalidReservation =>
    "memory reservation block has an entry that is unaligned or has invalid size"

end ParseFault

/-- A fault and the offset in the blob at which it was met. -/
structure ParseError where
  fault : ParseFault
  offset : Nat
deriving DecidableEq, Repr

def ParseError.message (error : ParseError) : String :=
  error.fault.message ++ " at offset " ++ toString error.offset

/-- An argument that its caller should not have passed. -/
inductive Misuse
  | rewindForward
  | tooManyCells
  | unknownValueType
  | staleHandle
  | destroyRoot
  | liveChildren
  | foreignNode
  | offEntryBoundary
  | unknownMemoryType
  | unknownMemoryAttributes
  | valueTooWide
deriving DecidableEq, Repr

namespace Misuse

def message : Misuse → String
  | rewindForward => "cannot rewind forward"
  | tooManyCells => "cell count exceeds MAX_CELLS"
  | unknownValueType => "unknown value type"
  | staleHandle => "stale device handle"
  | destroyRoot => "the root device can't be destroyed"
  | liveChildren => "device has live children"
  | foreignNode => "node isn't part of this tree"
  | offEntryBoundary => "cursor isn't at an entry boundary"
  | unknownMemoryType => "unknown memory type tag"
  | unknownMemoryAttributes => "unknown memory attribute bits"
  | valueTooWide => "value wider than the access"

end Misuse

/-- A request that is understood and cannot be served. -/
inductive Limitation
  | needsBus
  | addressTooWide
  | noRegisterIO
  | outsideWindow
deriving DecidableEq, Repr

namespace Limitation

def message : Limitation → String
  | needsBus => "value type requires bus context"
  | addressTooWide => "address beyond the CPU address width"
  | noRegisterIO => "bus has no register I/O"
  | outsideWindow => "access outside the register window"

end Limitation

/-- What is wrong with the tree, or with an address taken from it. -/
inductive DeviceFault
  | parse (error : ParseError)
  | tooManyCells (cells : UInt32)
  | malformedProperty (name : String)
  | uncovered (address length : Nat)
  | tooManyHops
  | addressOverflow
deriving DecidableEq, Repr

namespace DeviceFault

def message : DeviceFault → String
  | parse error => error.message
  | tooManyCells cells => toString cells.toNat ++ " cells exceed the supported maximum"
  | malformedProperty name => "malformed `" ++ name ++ "` property"
  | uncovered address length =>
    "address " ++ Text.hex address ++ " (length " ++ Text.hex length ++
      ") is not covered by any ranges entry"
  | tooManyHops => "address translation did not terminate"
  | addressOverflow => "address arithmetic overflowed"

end DeviceFault

/-- Why an operation does not succeed. -/
inductive Error
  | notFound
  | outOfBounds
  | invalidParameter (misuse : Misuse)
  | device (fault : DeviceFault)
  | unsupported (limitation : Limitation)
  | timeout
  | outOfResources
  /-- A sum was too large for its word. This is not reported: the program stops there. -/
  | trap
deriving DecidableEq, Repr

namespace Error

def message : Error → String
  | notFound => "not found"
  | outOfBounds => "property cursor advanced out of bounds"
  | invalidParameter misuse => "invalid parameter: " ++ misuse.message
  | device fault => "device error: " ++ fault.message
  | unsupported limitation => "unsupported: " ++ limitation.message
  | timeout => "timed out"
  | outOfResources => "out of resources"
  | trap => "attempt to add with overflow"

def ofParse (error : ParseError) : Error :=
  .device (.parse error)

end Error

/-- Reading the blob fails inside a larger operation as a device error. -/
instance : MonadLift (Except ParseError) (Except Error) :=
  ⟨Except.mapError Error.ofParse⟩

end DeviceTree
