import DeviceTree.Bus.InPlace
import DeviceTree.Bus.Operation
import DeviceTree.Machine.Mapping

/-!
# Parsing on a machine

What the bus offers to do with a cursor once more, on a tape that is moved in place while the bus is
asked, finds devices, connects drivers and claims memory. The counts of an entry are added as words
of 32 bits.
-/
namespace DeviceTree

namespace Machine

/-- The sum of two counts, which has to be a count. -/
def addCells (m n : UInt32) : Machine UInt32 :=
  if m.toNat + n.toNat < UInt32.size then return m + n else trap

end Machine

namespace TapeM

variable {σ ι α : Type}

def onBus (x : BusM σ ι α) : TapeM (Bus σ ι) α :=
  ExceptT.mk fun (bus, tape) => Part.some <| match x bus with
    | .ok a next => (.ok a, (next, tape))
    | .error e next => (.error e, (next, tape))

def seekEntry (index width : Nat) : TapeM σ Nat := do
  let bytes ← Machine.mul width Cell.size
  if bytes = 0 then
    skipElements index width
    return index
  if (← tape).position % bytes ≠ 0 then throw (.invalidParameter .offEntryBoundary)
  skipElements index width
  return (← tape).position / bytes

def regWidth (cells : Cells) : TapeM σ Nat := do
  return (← Machine.addCells cells.address cells.size).toNat

def rangeWidth (cells : Cells) : TapeM σ Nat := do
  let sides ← Machine.addCells cells.childAddress cells.address
  return (← Machine.addCells sides cells.childSize).toNat

instance : MovesCursor σ ι (TapeM (Bus σ ι)) where
  onBus := onBus
  restoring := restoring
  name := return (← tape).name
  regWidth := regWidth
  rangeWidth := rangeWidth
  seekEntry := seekEntry
  readAddress := readAddress
  readElement := readElement
  elementU32 := elementU32

variable [Platform σ ι]

def parseReg (h : Handle) (index : Nat) : TapeM (Bus σ ι) Window :=
  MovesCursor.parseReg h index

def parseRange (h : Handle) (index : Nat) : TapeM (Bus σ ι) AddressRange :=
  MovesCursor.parseRange h index

def parseDevice (h : Handle) (index : Nat) : TapeM (Bus σ ι) Handle :=
  MovesCursor.parseDevice h index

def parseElement (h : Handle) (type : ElementType) (index : Nat) : TapeM (Bus σ ι) Element := do
  match type with
  | .device => return .device (← parseDevice h index)
  | .reg => return .reg (← parseReg h index)
  | .range => return .range (← parseRange h index)
  | _ =>
    let device ← onBus (Bus.ask (·.device h))
    decode type index device.cells

end TapeM

/-- All that can be done with a cursor, and what is done with the bus in between. -/
inductive CursorOperation (σ ι : Type)
  | advance (cells : Nat)
  | rewind (position : Nat)
  | reset
  | readCells (cells : Nat)
  | readU32
  | readU64
  | readUint (cells : Nat)
  | readString
  | decode (type : ElementType) (index : Nat) (cells : Cells)
  | parseElement (h : Handle) (type : ElementType) (index : Nat)
  | parseDevice (h : Handle) (index : Nat)
  | parseReg (h : Handle) (index : Nat)
  | parseRange (h : Handle) (index : Nat)
  | elsewhere (op : Operation σ ι)

namespace CursorOperation

variable {σ ι : Type}

abbrev Answer : CursorOperation σ ι → Type
  | advance _ | rewind _ | reset => Unit
  | readCells _ => List Cell
  | readU32 => UInt32
  | readU64 => UInt64
  | readUint _ => Nat
  | readString => String
  | decode .. | parseElement .. => Element
  | parseDevice .. => Handle
  | parseReg .. => Window
  | parseRange .. => AddressRange
  | elsewhere op => op.Answer

variable [Platform σ ι]

def steps : (op : CursorOperation σ ι) → TapeM (Bus σ ι) op.Answer
  | advance cells => TapeM.advance cells
  | rewind position => TapeM.rewind position
  | reset => TapeM.reset
  | readCells cells => TapeM.readCells cells
  | readU32 => TapeM.readU32
  | readU64 => TapeM.readU64
  | readUint cells => TapeM.readUint cells
  | readString => TapeM.readString
  | decode type index cells => TapeM.decode type index cells
  | parseElement h type index => TapeM.parseElement h type index
  | parseDevice h index => TapeM.parseDevice h index
  | parseReg h index => TapeM.parseReg h index
  | parseRange h index => TapeM.parseRange h index
  | elsewhere op => TapeM.onBus op.perform

def perform : (op : CursorOperation σ ι) → InPlace σ ι op.Answer
  | advance cells => .read (Cursor.advance cells)
  | rewind position => .read (Cursor.rewind position)
  | reset => modify fun (bus, c) => (bus, c.reset)
  | readCells cells => .read (Cursor.readCells cells)
  | readU32 => .read Cursor.readU32
  | readU64 => .read Cursor.readU64
  | readUint cells => .read (Cursor.readUint cells)
  | readString => .read Cursor.readString
  | decode type index cells => .read (Cursor.decode type index cells)
  | parseElement h type index => .taking (Bus.parseElement h · type index)
  | parseDevice h index => .taking (Bus.parseDevice h · index)
  | parseReg h index => .taking (Bus.parseReg h · index)
  | parseRange h index => .taking (Bus.parseRange h · index)
  | elsewhere op => .onBus op.perform

/-- Does one operation after another, whether they succeed or fail. -/
def stepAll : List (CursorOperation σ ι) → TapeM (Bus σ ι) Unit
  | [] => return
  | op :: ops => do
    TapeM.trying op.steps
    stepAll ops

end CursorOperation

end DeviceTree
