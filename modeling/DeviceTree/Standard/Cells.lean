import DeviceTree.Encoding.BigEndian

/-!
# Cell counts

A node's own `#address-cells` and `#size-cells` describe its children, while its `reg` is read with
its parent's. `Cells` keeps both pairs side by side.
-/
namespace DeviceTree

structure Cells where
  /-- The parent's `#address-cells`: the width of this node's addresses. -/
  address : UInt32
  /-- The parent's `#size-cells`: the width of this node's sizes. -/
  size : UInt32
  /-- This node's `#address-cells`: the width of its children's addresses. -/
  childAddress : UInt32
  /-- This node's `#size-cells`: the width of its children's sizes. -/
  childSize : UInt32
deriving DecidableEq, Repr

namespace Cells

/-- The widest count that is decoded; four cells hold 128 bits. -/
def maximum : UInt32 := 4

def defaultAddress : UInt32 := 2

def defaultSize : UInt32 := 1

instance : Inhabited Cells := ⟨⟨defaultAddress, defaultSize, defaultAddress, defaultSize⟩⟩

def regWidth (cells : Cells) : Nat :=
  cells.address.toNat + cells.size.toNat

def rangeWidth (cells : Cells) : Nat :=
  cells.childAddress.toNat + cells.address.toNat + cells.childSize.toNat

end Cells

end DeviceTree
