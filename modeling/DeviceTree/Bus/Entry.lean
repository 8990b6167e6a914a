import DeviceTree.Bus.Basic
import DeviceTree.Bus.Lookup
import DeviceTree.Bus.Resolution

/-!
# Entries of `reg`, `ranges` and `dma-ranges`

An entry is read and its address resolved, and if the CPU reaches it, it is to be claimed from the
platform as the memory that the node says it is. All of this is known before anything is called:
`Registry.readReg` and `Registry.readRange` say what the answer and the claim are, and the claim is
the one thing left to do.
-/
namespace DeviceTree

/-- The properties that say what kind of memory the entries are. -/
def regKindProperty : String := "uefi,reg-attributes"

def rangesKindProperty : String := "uefi,ranges-attributes"

/-- The width of an entry of such a property: a type and two cells of attribute bits. -/
def kindWidth : Nat := 3

def readKind (index : Nat) : Reader (UInt32 × UInt64) := do
  Cursor.skipElements index kindWidth
  return (← Cursor.readU32, ← Cursor.readU64)

/-- The kind of memory of the `index`-th entry of a node, as its property `name` says; without the
property it is uncached device memory. -/
def Blob.memoryKind (b : Blob) (n : Node) (name : String) (index : Nat) :
    Except Error (MemoryType × MemoryAttributes) := do
  match ← b.property n name with
  | none => return (.memoryMappedIO, .uncached)
  | some property =>
    if property.value.length % (kindWidth * Cell.size) ≠ 0 then
      throw (.device (.malformedProperty name))
    match (readKind index).run' (Cursor.start name property.value) with
    | .error _ => throw (.device (.malformedProperty name))
    | .ok (tag, bits) =>
      let type ← MemoryType.ofTag tag
      match MemoryAttributes.ofBits? bits with
      | some attributes => return (type, attributes)
      | none => throw (.invalidParameter .unknownMemoryAttributes)

namespace Cursor

/-- Moves to the `index`-th entry of `width` cells, and returns its place counted from the start of
the property. The cursor has to stand between entries. -/
def seekEntry (index width : Nat) : Reader Nat := do
  if width = 0 then return index
  if (← get).position % (width * Cell.size) ≠ 0 then throw (.invalidParameter .offEntryBoundary)
  skipElements index width
  return (← get).position / (width * Cell.size)

/-- The place, base and length of a `reg` entry. -/
def readRegEntry (index : Nat) (cells : Cells) : Reader (Nat × Nat × Nat) := do
  let place ← seekEntry index cells.regWidth
  let base ← readAddress 0 cells.address
  let length ← readElement 0 cells.size.toNat
  return (place, base, length)

/-- The place of a `ranges` entry, and the entry. -/
def readRangesEntry (index : Nat) (cells : Cells) : Reader (Nat × RangeEntry) := do
  let place ← seekEntry index cells.rangeWidth
  let childBase ← readAddress 0 cells.childAddress
  let parentBase ← readAddress 0 cells.address
  let size ← readElement 0 cells.childSize.toNat
  return (place, { childBase, parentBase, size })

end Cursor

/-- An entry that was read, where that left the cursor, and the memory to claim for the entry. -/
structure EntryRead (α : Type) where
  value : α
  cursor : Cursor
  claim? : Option Claim

namespace Registry

variable {ι : Type}

/-- The claim for `length` bytes at `location`, which belong to the entry of `n` at `place`; memory
that the CPU does not reach is left to the bus that mediates it. -/
def claimFor (r : Registry ι) (n : Node) (kindProperty : String) (place : Nat)
    (location : Location) (length : Nat) : Except Error (Option Claim) := do
  if location.bus.isSome then return none
  let (type, attributes) ← r.blob.memoryKind n kindProperty place
  return some { base := location.address, length, type, attributes }

def readReg (r : Registry ι) (h : Handle) (cursor : Cursor) (index : Nat) :
    Except Error (EntryRead Window) := do
  let device ← r.device h
  let ((place, base, length), cursor) ← Cursor.readRegEntry index device.cells cursor
  let location ← r.resolve .ranges (device.parent.getD h) base length
  let claim? ← r.claimFor device.node regKindProperty place location length
  return { value := { base, length, resolvedBase := location.address, bus := location.bus },
           cursor, claim? }

/-- Reads the `index`-th entry from a cursor over a `ranges` or `dma-ranges` property of `h`; the
latter is never claimed. -/
def readRange (r : Registry ι) (h : Handle) (cursor : Cursor) (index : Nat) :
    Except Error (EntryRead AddressRange) := do
  let device ← r.device h
  let route := Route.ofPropertyName cursor.name
  let ((place, entry), cursor) ← Cursor.readRangesEntry index device.cells cursor
  let location ← r.resolve route (device.parent.getD h) entry.parentBase entry.size
  let claim? ← match route with
    | .ranges => r.claimFor device.node rangesKindProperty place location entry.size
    | .dmaRanges => pure none
  return { value := { childBase := entry.childBase, parentBase := entry.parentBase,
                      length := entry.size, resolvedParentBase := location.address,
                      bus := location.bus },
           cursor, claim? }

end Registry

namespace Bus

variable {σ ι : Type} [Platform σ ι]

/-- Makes the claim that goes with an entry. -/
def settle {α : Type} (read : EntryRead α) : BusM σ ι (α × Cursor) := do
  match read.claim? with
  | some c => claim c
  | none => pure ()
  return (read.value, read.cursor)

def parseReg (h : Handle) (cursor : Cursor) (index : Nat) : BusM σ ι (Window × Cursor) := do
  settle (← ask (·.readReg h cursor index))

/-- The `index`-th entry from a cursor over a `ranges` or `dma-ranges` property of `h`. -/
def parseRange (h : Handle) (cursor : Cursor) (index : Nat) :
    BusM σ ι (AddressRange × Cursor) := do
  settle (← ask (·.readRange h cursor index))

def reg (h : Handle) (index : Nat) : BusM σ ι Window := do
  let cursor ← ask (·.property h "reg")
  return (← parseReg h cursor index).1

/-- The `reg` entry that `reg-names` calls `name`. -/
def regByName (h : Handle) (name : String) : BusM σ ι Window := do
  let index ← ask (·.stringIndex h "reg-names" name)
  reg h index

/-- The `index`-th entry of the property that addresses go through on `route`. -/
def range (route : Route) (h : Handle) (index : Nat) : BusM σ ι AddressRange := do
  let cursor ← ask (·.property h route.propertyName)
  return (← parseRange h cursor index).1

end Bus

end DeviceTree
