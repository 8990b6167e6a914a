import Std.Data.TreeMap.Basic
import DeviceTree.Bus.Window
import DeviceTree.Standard.Properties

/-!
# The devices of a bus

A registry holds one device for each node that was discovered so far. Handles are positions in
`slots`; a destroyed device leaves its slot empty for good. `index` finds the live device of a node,
and every device lists the live devices below it.
-/
namespace DeviceTree

structure Device (ι : Type) where
  node : Node
  name : String
  parent : Option Handle
  status : Status
  cells : Cells
  dmaCoherent : Bool
  deviceType : Option String
  connected : Bool := false
  children : List Handle := []
  /-- The register I/O that accesses to this device's children go through. -/
  io : Option ι := none

structure Registry (ι : Type) where
  blob : Blob
  slots : Array (Option (Device ι))
  index : Std.TreeMap Nat Handle

abbrev RegistryM (ι : Type) := EStateM Error (Registry ι)

instance {σ : Type} : MonadLift (Except Error) (EStateM Error σ) where
  monadLift
    | .ok a => pure a
    | .error e => throw e

variable {ι : Type}

/-- A device that is not connected yet, from what its node says. -/
def Device.ofNode (b : Blob) (n : Node) (parent : Option Handle) (cells : Cells) :
    Except ParseError (Device ι) :=
  return { node := n, name := ← b.name n, parent, status := ← b.status n, cells,
           dmaCoherent := ← b.dmaCoherent n, deviceType := ← b.deviceType n }

namespace Registry

def rootHandle : Handle := ⟨0⟩

/-- The registry that knows the root of `b` alone; the root counts as connected. -/
def ofBlob (b : Blob) : Except Error (Registry ι) := do
  let root ← b.root
  let cells ← b.cells root none
  let device ← Device.ofNode b root none cells
  return { blob := b, slots := #[some { device with connected := true }],
           index := ({} : Std.TreeMap Nat Handle).insert root.offset rootHandle }

def device? (r : Registry ι) (h : Handle) : Option (Device ι) :=
  r.slots[h.index]?.join

def device (r : Registry ι) (h : Handle) : Except Error (Device ι) :=
  match r.device? h with
  | some device => .ok device
  | none => .error (.invalidParameter .staleHandle)

/-- The live device of a node. -/
def handleOf? (r : Registry ι) (n : Node) : Option Handle :=
  r.index[n.offset]?

def nextHandle (r : Registry ι) : Handle :=
  ⟨r.slots.size⟩

def modify (r : Registry ι) (h : Handle) (change : Device ι → Device ι) : Registry ι :=
  { r with slots := r.slots.modify h.index (Option.map change) }

def add (r : Registry ι) (parent : Handle) (device : Device ι) : Registry ι :=
  { r with slots := r.slots.push (some device),
           index := r.index.insert device.node.offset r.nextHandle }.modify parent
    fun above => { above with children := above.children ++ [r.nextHandle] }

/-- Takes `device`, which is `h` under `parent`, out of the registry. -/
def remove (r : Registry ι) (parent h : Handle) (device : Device ι) : Registry ι :=
  { r with slots := r.slots.modify h.index fun _ => none,
           index := r.index.erase device.node.offset }.modify parent
    fun above => { above with children := above.children.filter (· ≠ h) }

/-- Destroys a device without live children; the root cannot be destroyed. -/
def destroy (h : Handle) : RegistryM ι Unit := do
  let r ← get
  let device ← r.device h
  match device.parent with
  | none => throw (.invalidParameter .destroyRoot)
  | some parent =>
    if device.children ≠ [] then throw (.invalidParameter .liveChildren)
    set (r.remove parent h device)

/-- Sets or clears the register I/O of a device and returns what it had. -/
def exchangeIO (h : Handle) (io : Option ι) : RegistryM ι (Option ι) := do
  let r ← get
  let device ← r.device h
  set (r.modify h fun device => { device with io })
  return device.io

end Registry

end DeviceTree
