import DeviceTree.Bus.Discovery
import DeviceTree.Bus.Entry

/-!
# References between devices

A phandle leads to the device of the node that bears it. Whoever follows one finds the drivers of
that device and of all its ancestors connected, the outermost first, or learns which failed.
-/
namespace DeviceTree

namespace Registry

variable {ι : Type}

/-- The device and its ancestors up to the nearest connected one, the outermost first. A parent is
always older than its children. -/
def unconnected (r : Registry ι) (h : Handle) : Except Error (List Handle) := do
  let device ← r.device h
  if device.connected then return []
  match device.parent with
  | none => return [h]
  | some parent =>
    if parent.index < h.index then return (← r.unconnected parent) ++ [h]
    else return [h]
termination_by h.index

end Registry

namespace Bus

variable {σ ι : Type} [Platform σ ι]

def connectDriver (h : Handle) : BusM σ ι Unit := do
  let device ← ask (·.device h)
  (← call (.connect h device.node device.name) : Except Error Unit)
  onRegistry (modify (·.modify h fun device => { device with connected := true }))

/-- Connects the drivers of a device and of its ancestors that are not connected yet. -/
def connect (h : Handle) : BusM σ ι Unit := do
  let pending ← ask (·.unconnected h)
  pending.forM connectDriver

/-- Finds the device that `phandle` stands for, and connects it. -/
def follow (phandle : UInt32) : BusM σ ι Handle := do
  match ← ask fun r => r.blob.nodeByPhandle phandle with
  | none => throw .notFound
  | some n =>
    let target ← onRegistry (Registry.deviceOf n)
    connect target
    return target

/-- Follows the `index`-th phandle from a cursor over a property of `h`. -/
def parseDevice (h : Handle) (cursor : Cursor) (index : Nat) : BusM σ ι (Handle × Cursor) := do
  let _ ← ask (·.device h)
  let (phandle, cursor) ← Cursor.elementU32 index cursor
  return (← follow phandle, cursor)

def device (h : Handle) (name : String) (index : Nat) : BusM σ ι Handle := do
  let cursor ← ask (·.property h name)
  return (← parseDevice h cursor index).1

/-- Decodes the `index`-th element from a cursor over a property of `h`. -/
def parseElement (h : Handle) (cursor : Cursor) (type : ElementType) (index : Nat) :
    BusM σ ι (Element × Cursor) := do
  match type with
  | .device =>
    let (target, cursor) ← parseDevice h cursor index
    return (.device target, cursor)
  | .reg =>
    let (window, cursor) ← parseReg h cursor index
    return (.reg window, cursor)
  | .range =>
    let (range, cursor) ← parseRange h cursor index
    return (.range range, cursor)
  | _ =>
    let device ← ask (·.device h)
    Cursor.decode type index device.cells cursor

/-- The element of the property `name` at the place that `wanted` has in the list `names`. -/
def elementByName (h : Handle) (name names wanted : String) (type : ElementType) :
    BusM σ ι Element := do
  let index ← ask (·.stringIndex h names wanted)
  let cursor ← ask (·.property h name)
  return (← parseElement h cursor type index).1

end Bus

end DeviceTree
