import DeviceTree.Bus.Registry

/-!
# Discovering devices

A device is created when its parent is enumerated, when it is looked up by path, or when something
refers to its node; whichever comes first, there is one live device for a node. What was created
before a failure stays.
-/
namespace DeviceTree

namespace Registry

variable {ι : Type}

/-- What the device of `n` under `parent` would be. -/
def newDevice (r : Registry ι) (parent : Handle) (n : Node) : Except Error (Device ι) := do
  let above ← r.device parent
  let cells ← above.cells.forChild r.blob n
  Device.ofNode r.blob n (some parent) cells

/-- The device of `n`, which is created under `parent` if there is none. -/
def childDevice (parent : Handle) (n : Node) : RegistryM ι Handle := do
  let r ← get
  match r.handleOf? n with
  | some h => return h
  | none =>
    let device ← r.newDevice parent n
    set (r.add parent device)
    return r.nextHandle

def childDevices (parent : Handle) : Items Node → RegistryM ι (List Handle)
  | [] => return []
  | .error e :: _ => throw (Error.ofParse e)
  | .ok n :: rest => do
    let h ← childDevice parent n
    return h :: (← childDevices parent rest)

def children (h : Handle) : RegistryM ι (List Handle) := do
  let r ← get
  let device ← r.device h
  childDevices h (r.blob.children device.node)

/-- The device of the first node of `line`, each node of which is the parent of the one before it;
creates what is missing from the outermost on. -/
def deviceOfLine : List Node → RegistryM ι Handle
  | [] => throw (.invalidParameter .foreignNode)
  | n :: above => do
    match (← get).handleOf? n with
    | some h => return h
    | none =>
      let parent ← deviceOfLine above
      childDevice parent n

/-- The device of a node, which is created with its missing ancestors if there is none. -/
def deviceOf (n : Node) : RegistryM ι Handle := do
  let r ← get
  match r.handleOf? n with
  | some h => return h
  | none =>
    let visit ← r.blob.visit n
    deviceOfLine (visit.node :: visit.ancestors)

def findDevice (path : String) : RegistryM ι Handle := do
  let r ← get
  match ← r.blob.findNode path with
  | some n => deviceOf n
  | none => throw .notFound

end Registry

end DeviceTree
