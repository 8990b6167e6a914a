import DeviceTree.Blob.Walk
import DeviceTree.Standard.Cells
import DeviceTree.Standard.Status

/-!
# Standard properties of a node

The properties with a fixed meaning, each with the answer that stands for its absence, and what is
looked up through them: strings of a list, cell counts, and the node that a phandle names.
-/
namespace DeviceTree

namespace Blob

def compatible (b : Blob) (n : Node) : Except ParseError (Option (Items String)) :=
  return (← b.property n "compatible").map Property.strings

/-- Whether `value` stands anywhere in the node's `compatible` list. -/
def isCompatible (b : Blob) (n : Node) (value : String) : Except ParseError Bool := do
  match ← b.compatible n with
  | some entries => return (← entries.position? (· = value)).isSome
  | none => return false

def stringIndex (b : Blob) (n : Node) (name value : String) : Except Error Nat := do
  match ← b.property n name with
  | some property =>
    match ← property.strings.position? (· = value) with
    | some index => return index
    | none => throw .notFound
  | none => throw .notFound

def optionalString (b : Blob) (n : Node) (name : String) : Except ParseError (Option String) := do
  match ← b.property n name with
  | some property => return some (← property.asString)
  | none => return none

def model (b : Blob) (n : Node) : Except ParseError (Option String) :=
  b.optionalString n "model"

def deviceType (b : Blob) (n : Node) : Except ParseError (Option String) :=
  b.optionalString n "device_type"

/-- The property that holds the node's phandle; the older name counts where the newer is absent. -/
def phandleProperty (b : Blob) (n : Node) : Except ParseError (Option Property) := do
  match ← b.property n "phandle" with
  | some property => return some property
  | none => b.property n "linux,phandle"

def phandle (b : Blob) (n : Node) : Except ParseError (Option UInt32) := do
  match ← b.phandleProperty n with
  | some property => return some (← property.asCell)
  | none => return none

def status (b : Blob) (n : Node) : Except ParseError Status := do
  match ← b.property n "status" with
  | some property =>
    match property.asString with
    | .ok text => return Status.ofText text
    | .error _ => return .broken
  | none => return .okay

def dmaCoherent (b : Blob) (n : Node) : Except ParseError Bool :=
  return (← b.property n "dma-coherent").isSome

def cellCount (b : Blob) (n : Node) (name : String) (absent : UInt32) : Except Error UInt32 := do
  let count ← match ← b.property n name with
    | some property => property.asCell
    | none => pure absent
  if Cells.maximum < count then throw (.device (.tooManyCells count))
  return count

def addressCells (b : Blob) (n : Node) : Except Error UInt32 :=
  b.cellCount n "#address-cells" Cells.defaultAddress

def sizeCells (b : Blob) (n : Node) : Except Error UInt32 :=
  b.cellCount n "#size-cells" Cells.defaultSize

/-- The cell counts of `n` below `parent`; without a parent its own stand for both pairs. -/
def cells (b : Blob) (n : Node) (parent : Option Node) : Except Error Cells := do
  let childAddress ← b.addressCells n
  let childSize ← b.sizeCells n
  match parent with
  | some p =>
    return { address := ← b.addressCells p, size := ← b.sizeCells p, childAddress, childSize }
  | none => return { address := childAddress, size := childSize, childAddress, childSize }

/-- Phandle values that never name a node. -/
def isReservedPhandle (phandle : UInt32) : Bool :=
  phandle = 0 || phandle = 0xffffffff

/-- The first node of the walk whose phandle is `phandle`. -/
def nodeByPhandle (b : Blob) (phandle : UInt32) : Except ParseError (Option Node) := do
  if isReservedPhandle phandle then return none
  let visit ← b.walk.first? fun v => return (← b.phandle v.node) == some phandle
  return visit.map Visit.node

end Blob

/-- The cell counts of the child `n` of a node whose counts are `cells`. -/
def Cells.forChild (cells : Cells) (b : Blob) (n : Node) : Except Error Cells :=
  return { address := cells.childAddress, size := cells.childSize,
           childAddress := ← b.addressCells n, childSize := ← b.sizeCells n }

end DeviceTree
