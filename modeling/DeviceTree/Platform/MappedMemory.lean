import DeviceTree.Platform.Call

/-!
# Memory mapped into the CPU's address space

Accesses of a little-endian CPU to bytes at the bottom of its 64-bit address space. Bytes outside
the memory read as zero and are not written.
-/
namespace DeviceTree

/-- The `k` low-order bytes of `n`, least significant first. -/
def littleEndian (k n : Nat) : List UInt8 :=
  (bigEndian k n).reverse

structure MappedMemory where
  bytes : Array UInt8

namespace MappedMemory

def checkAddress (address : Nat) : Except Error Unit :=
  if address < UInt64.size then .ok () else .error (.unsupported .addressTooWide)

def byteAt (m : MappedMemory) (address : Nat) : UInt8 :=
  m.bytes.getD address 0

def read (m : MappedMemory) (width : Width) (address : Nat) : Except Error UInt64 := do
  checkAddress address
  let bytes := (List.range width.bytes).map fun i => m.byteAt (address + i)
  return UInt64.ofNat (ofBigEndian bytes.reverse)

def store (m : MappedMemory) (address : Nat) : List UInt8 → MappedMemory
  | [] => m
  | byte :: rest => store { bytes := m.bytes.setIfInBounds address byte } (address + 1) rest

def write (m : MappedMemory) (width : Width) (address : Nat) (value : UInt64) :
    Except Error MappedMemory := do
  checkAddress address
  return m.store address (littleEndian width.bytes value.toNat)

end MappedMemory

end DeviceTree
