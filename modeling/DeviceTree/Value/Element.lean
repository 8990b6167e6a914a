import DeviceTree.Bus.Window
import DeviceTree.Value.Cursor
import DeviceTree.Standard.Cells

/-!
# Elements of property values

An element is decoded as the `index`-th of its type, counted from the cursor's position and not from
the start of the value, so that decoding index zero again and again goes through the value.
-/
namespace DeviceTree

inductive ElementType
  | u32
  | u64
  | u128
  /-- An address on the parent's side. -/
  | busAddress
  /-- An address on the children's side. -/
  | childBusAddress
  | size
  | childSize
  | string
  /-- A phandle, which stands for a device. -/
  | device
  | reg
  | range
deriving DecidableEq, Repr

namespace ElementType

def all : List ElementType :=
  [u32, u64, u128, busAddress, childBusAddress, size, childSize, string, device, reg, range]

/-- The type whose number is its place in `all`. -/
def ofTag (tag : Nat) : Except Error ElementType :=
  match all[tag]? with
  | some type => .ok type
  | none => .error (.invalidParameter .unknownValueType)

/-- The width of one element in cells; strings have none. -/
def width? (cells : Cells) : ElementType → Option Nat
  | u32 | device => some 1
  | u64 => some 2
  | u128 => some 4
  | busAddress => some cells.address.toNat
  | childBusAddress => some cells.childAddress.toNat
  | size => some cells.size.toNat
  | childSize => some cells.childSize.toNat
  | reg => some cells.regWidth
  | range => some cells.rangeWidth
  | string => none

/-- The width as it is added up in words of 32 bits. -/
def width (cells : Cells) (type : ElementType) : Except Error (Option Nat) :=
  match type.width? cells with
  | some width => if width < UInt32.size then .ok (some width) else .error .trap
  | none => .ok none

end ElementType

inductive Element
  | u32 (value : UInt32)
  | u64 (value : UInt64)
  | u128 (value : Nat)
  | busAddress (address : Nat)
  | childBusAddress (address : Nat)
  | size (size : Nat)
  | childSize (size : Nat)
  | string (text : String)
  | device (handle : Handle)
  | reg (window : Window)
  | range (range : AddressRange)
deriving DecidableEq, Repr

namespace Cursor

/-- Moves past `index` elements of `width` cells. -/
def skipElements (index width : Nat) : Reader Unit :=
  skipCells (index * width)

/-- The `index`-th number of `width` cells. -/
def readElement (index width : Nat) : Reader Nat := do
  skipElements index width
  readUint width

/-- The `index`-th address of `width` cells; an address without cells does not exist. -/
def readAddress (index : Nat) (width : UInt32) : Reader Nat := do
  if width = 0 then throw .notFound
  readElement index width.toNat

def elementU32 (index : Nat) : Reader UInt32 := do
  skipElements index 1
  readU32

def elementU64 (index : Nat) : Reader UInt64 := do
  skipElements index 2
  readU64

def elementString (index : Nat) : Reader String := do
  skipStrings index
  readString

/-- The `index`-th element of a type that needs no bus. -/
def decode (type : ElementType) (index : Nat) (cells : Cells) : Reader Element :=
  match type with
  | .u32 => return .u32 (← elementU32 index)
  | .u64 => return .u64 (← elementU64 index)
  | .u128 => return .u128 (← readElement index 4)
  | .busAddress => return .busAddress (← readAddress index cells.address)
  | .childBusAddress => return .childBusAddress (← readAddress index cells.childAddress)
  | .size => return .size (← readElement index cells.size.toNat)
  | .childSize => return .childSize (← readElement index cells.childSize.toNat)
  | .string => return .string (← elementString index)
  | .device | .reg | .range => throw (.unsupported .needsBus)

end Cursor

end DeviceTree
