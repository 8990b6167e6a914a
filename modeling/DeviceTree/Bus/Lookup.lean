import DeviceTree.Bus.Registry
import DeviceTree.Value.Element

/-!
# Properties of devices

What can be read of a device without changing anything. Each look-up of an element starts at the
front of the property.
-/
namespace DeviceTree

namespace Registry

variable {ι : Type}

def property (r : Registry ι) (h : Handle) (name : String) : Except Error Cursor := do
  let device ← r.device h
  match ← r.blob.property device.node name with
  | some property => return Cursor.start property.name property.value
  | none => throw .notFound

def stringIndex (r : Registry ι) (h : Handle) (name value : String) : Except Error Nat := do
  let device ← r.device h
  r.blob.stringIndex device.node name value

def isCompatible (r : Registry ι) (h : Handle) (value : String) : Except Error Bool := do
  let device ← r.device h
  r.blob.isCompatible device.node value

def readProperty {α : Type} (r : Registry ι) (h : Handle) (name : String) (read : Reader α) :
    Except Error α := do
  read.run' (← r.property h name)

def u32 (r : Registry ι) (h : Handle) (name : String) (index : Nat) : Except Error UInt32 :=
  r.readProperty h name (Cursor.elementU32 index)

def u64 (r : Registry ι) (h : Handle) (name : String) (index : Nat) : Except Error UInt64 :=
  r.readProperty h name (Cursor.elementU64 index)

def u128 (r : Registry ι) (h : Handle) (name : String) (index : Nat) : Except Error Nat :=
  r.readProperty h name (Cursor.readElement index 4)

def string (r : Registry ι) (h : Handle) (name : String) (index : Nat) : Except Error String :=
  r.readProperty h name (Cursor.elementString index)

end Registry

end DeviceTree
