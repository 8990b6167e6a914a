import DeviceTree.Bus.Reference

/-!
# Cursors that are moved in place

A parse moves a cursor step by step while the bus is asked and called, and puts it back if one of
the steps fails. The steps are written once, for all that moves a cursor in front of a bus.
-/
namespace DeviceTree

/-- What moves a cursor in front of a bus, one step after another. -/
class MovesCursor (σ ι : outParam Type) (m : Type → Type) extends Monad m where
  onBus {α : Type} (x : BusM σ ι α) : m α
  /-- Puts the cursor back if `x` fails, and nothing else. -/
  restoring {α : Type} (x : m α) : m α
  /-- The name of the property. -/
  name : m String
  regWidth (cells : Cells) : m Nat
  rangeWidth (cells : Cells) : m Nat
  seekEntry (index width : Nat) : m Nat
  readAddress (index : Nat) (width : UInt32) : m Nat
  readElement (index width : Nat) : m Nat
  elementU32 (index : Nat) : m UInt32

namespace MovesCursor

variable {σ ι : Type} {m : Type → Type} [Platform σ ι] [MovesCursor σ ι m]

/-- Claims `length` bytes at `location`, if the CPU reaches them. -/
def claimReached (n : Node) (kindProperty : String) (place : Nat) (location : Location)
    (length : Nat) : m Unit := do
  if location.bus.isNone then
    let (type, attributes) ← onBus (Bus.ask (·.blob.memoryKind n kindProperty place))
    onBus (Bus.claim { base := location.address, length, type, attributes })

def parseReg (h : Handle) (index : Nat) : m Window := do
  let device ← onBus (Bus.ask (·.device h))
  restoring do
    let place ← seekEntry index (← regWidth device.cells)
    let base ← readAddress 0 device.cells.address
    let length ← readElement 0 device.cells.size.toNat
    let location ← onBus (Bus.ask (·.resolve .ranges (device.parent.getD h) base length))
    claimReached device.node regKindProperty place location length
    return { base, length, resolvedBase := location.address, bus := location.bus }

def parseRange (h : Handle) (index : Nat) : m AddressRange := do
  let device ← onBus (Bus.ask (·.device h))
  let route := Route.ofPropertyName (← name)
  restoring do
    let place ← seekEntry index (← rangeWidth device.cells)
    let childBase ← readAddress 0 device.cells.childAddress
    let parentBase ← readAddress 0 device.cells.address
    let length ← readElement 0 device.cells.childSize.toNat
    let location ← onBus (Bus.ask (·.resolve route (device.parent.getD h) parentBase length))
    if route = .ranges then
      claimReached device.node rangesKindProperty place location length
    return { childBase, parentBase, length, resolvedParentBase := location.address,
             bus := location.bus }

def parseDevice (h : Handle) (index : Nat) : m Handle := do
  let _ ← onBus (Bus.ask (·.device h))
  restoring do
    let phandle ← elementU32 index
    onBus (Bus.follow phandle)

end MovesCursor

/-- A bus and a cursor, both of which are changed. -/
abbrev InPlace (σ ι : Type) := EStateM Error (Bus σ ι × Cursor)

namespace InPlace

variable {σ ι α : Type}

/-- Reads at the cursor, which stays where it is if that fails. -/
def read (reader : Reader α) : InPlace σ ι α := fun (bus, cursor) =>
  match reader cursor with
  | .ok (a, moved) => .ok a (bus, moved)
  | .error e => .error e (bus, cursor)

def onBus (x : BusM σ ι α) : InPlace σ ι α := fun (bus, cursor) =>
  match x bus with
  | .ok a bus => .ok a (bus, cursor)
  | .error e bus => .error e (bus, cursor)

def restored (cursor : Cursor) : EStateM.Result Error (Bus σ ι × Cursor) α →
    EStateM.Result Error (Bus σ ι × Cursor) α
  | .ok a s => .ok a s
  | .error e (bus, _) => .error e (bus, cursor)

def restoring (x : InPlace σ ι α) : InPlace σ ι α := fun (bus, cursor) =>
  restored cursor (x (bus, cursor))

/-- Takes the cursor that `parse` gives back; without one the old cursor is kept. -/
def taking (parse : Cursor → BusM σ ι (α × Cursor)) : InPlace σ ι α := fun (bus, cursor) =>
  match parse cursor bus with
  | .ok (a, moved) bus => .ok a (bus, moved)
  | .error e bus => .error e (bus, cursor)

instance : MovesCursor σ ι (InPlace σ ι) where
  onBus := onBus
  restoring := restoring
  name := return (← get).2.name
  regWidth cells := return cells.regWidth
  rangeWidth cells := return cells.rangeWidth
  seekEntry index width := read (Cursor.seekEntry index width)
  readAddress index width := read (Cursor.readAddress index width)
  readElement index width := read (Cursor.readElement index width)
  elementU32 index := read (Cursor.elementU32 index)

variable [Platform σ ι]

def parseReg (h : Handle) (index : Nat) : InPlace σ ι Window :=
  MovesCursor.parseReg h index

def parseRange (h : Handle) (index : Nat) : InPlace σ ι AddressRange :=
  MovesCursor.parseRange h index

def parseDevice (h : Handle) (index : Nat) : InPlace σ ι Handle :=
  MovesCursor.parseDevice h index

end InPlace

end DeviceTree
