/-!
# Register windows and address ranges

What a `reg` and a `ranges` entry say once their addresses are resolved. Addresses and lengths
are plain numbers; the readers that make them keep them below `2 ^ 128`.
-/
namespace DeviceTree

/-- A device of a bus. A handle is never given out twice. -/
structure Handle where
  index : Nat
deriving DecidableEq, Repr

structure Window where
  /-- The address in the parent's address space. -/
  base : Nat
  length : Nat
  /-- The address of the CPU, or in the address space of `bus` if that is set. -/
  resolvedBase : Nat
  /-- The device whose register I/O mediates accesses to the window. -/
  bus : Option Handle
deriving DecidableEq, Repr

def Window.isMediated (w : Window) : Bool :=
  w.bus.isSome

/-- A stretch of a node's address space and where its parent's address space has it. -/
structure AddressRange where
  childBase : Nat
  parentBase : Nat
  length : Nat
  /-- `parentBase` as an address of the CPU, or in the address space of `bus` if that is set. -/
  resolvedParentBase : Nat
  bus : Option Handle
deriving DecidableEq, Repr

end DeviceTree
