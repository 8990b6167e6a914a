import DeviceTree.Bus.Registry
import DeviceTree.Value.Element

/-!
# Resolving addresses towards the CPU

An address in the space of a device's children is mapped through the `ranges` of that device, of
its parent, and so on. A device with register I/O of its own ends the way, since it mediates all
accesses below it; so do the root and a device without `ranges`. An empty `ranges` maps one to one,
and any other has to hold the whole stretch in one entry.
-/
namespace DeviceTree

/-- The property that addresses go through on their way. -/
inductive Route
  | ranges
  | dmaRanges
deriving DecidableEq, Repr

namespace Route

def propertyName : Route → String
  | ranges => "ranges"
  | dmaRanges => "dma-ranges"

def ofPropertyName (name : String) : Route :=
  if name = dmaRanges.propertyName then dmaRanges else ranges

end Route

structure Location where
  /-- An address of the CPU, or in the address space of `bus` if that is set. -/
  address : Nat
  bus : Option Handle
deriving DecidableEq, Repr

structure RangeEntry where
  childBase : Nat
  parentBase : Nat
  size : Nat
deriving DecidableEq, Repr

namespace RangeEntry

def covers (entry : RangeEntry) (address length : Nat) : Bool :=
  entry.childBase ≤ address && address + length ≤ entry.childBase + entry.size

/-- Where the entry maps an address that it covers. -/
def map (entry : RangeEntry) (address : Nat) : Nat :=
  entry.parentBase + (address - entry.childBase)

end RangeEntry

/-- One more than the widest address. -/
def addressLimit : Nat :=
  Cell.limit Cursor.maximumCells

/-- Whether the last byte of a stretch, or its address if it is empty, has at most `cells` cells. -/
def checkEnd (address length : Nat) (cells : UInt32) : Except Error Unit :=
  if address + (length - 1) < Cell.limit (min cells.toNat Cursor.maximumCells) then .ok ()
  else .error (.device .addressOverflow)

def readRangeEntry (cells : Cells) : Reader RangeEntry := do
  let childBase ← Cursor.readUint cells.childAddress.toNat
  let parentBase ← Cursor.readUint cells.address.toNat
  let size ← Cursor.readUint cells.childSize.toNat
  return { childBase, parentBase, size }

def readRangeEntries (cells : Cells) : Nat → Reader (List RangeEntry)
  | 0 => return []
  | count + 1 => do
    let entry ← readRangeEntry cells
    return entry :: (← readRangeEntries cells count)

/-- The entries of a `ranges` property, which has to hold whole ones with addresses on both
sides. -/
def rangeEntries (cells : Cells) (value : List UInt8) : Except Error (List RangeEntry) := do
  let width := cells.rangeWidth * Cell.size
  if cells.childAddress = 0 ∨ cells.address = 0 ∨ value.length % width ≠ 0 then
    throw (.device (.malformedProperty Route.ranges.propertyName))
  (readRangeEntries cells (value.length / width)).run' (Cursor.start "" value)

/-- Maps a stretch through the first entry that covers it. -/
def mapThrough (cells : Cells) (value : List UInt8) (address length : Nat) : Except Error Nat := do
  match (← rangeEntries cells value).find? (·.covers address length) with
  | some entry =>
    let mapped := entry.map address
    if addressLimit ≤ mapped then throw (.device .addressOverflow)
    checkEnd mapped length cells.address
    return mapped
  | none => throw (.device (.uncovered address length))

namespace Registry

variable {ι : Type}

/-- The most devices that an address goes through. -/
def maximumHops : Nat := 32

def resolveWithin (r : Registry ι) (route : Route) (length : Nat) :
    Nat → Handle → Nat → Except Error Location
  | 0, _, _ => throw (.device .tooManyHops)
  | hops + 1, h, address => do
    let device ← r.device h
    let arrive (bus : Option Handle) : Except Error Location := do
      checkEnd address length device.cells.childAddress
      return { address, bus }
    if route = .ranges ∧ device.io.isSome then arrive (some h)
    else
      match device.parent with
      | none => arrive none
      | some parent =>
        match ← r.blob.property device.node route.propertyName with
        | none => arrive none
        | some { value := [], .. } => r.resolveWithin route length hops parent address
        | some { value, .. } =>
          let address ← mapThrough device.cells value address length
          r.resolveWithin route length hops parent address

/-- Resolves `length` bytes from `address` on in the address space of the children of `h`. -/
def resolve (r : Registry ι) (route : Route) (h : Handle) (address length : Nat) :
    Except Error Location :=
  r.resolveWithin route length maximumHops h address

end Registry

end DeviceTree
