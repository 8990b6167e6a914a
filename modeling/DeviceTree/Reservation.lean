import DeviceTree.Encoding.BigEndian

/-!
# Memory reservations

A physical memory range that must not be used as general-purpose memory. A list of them is stored
as pairs of big-endian 64-bit numbers and closed by a pair of zeros.
-/
namespace DeviceTree

structure Reservation where
  address : UInt64
  size : UInt64
deriving DecidableEq, Repr

namespace Reservation

/-- The address just past the range, which may be `2 ^ 64`. -/
def stop (r : Reservation) : Nat :=
  r.address.toNat + r.size.toNat

def contains (r : Reservation) (address : UInt64) : Bool :=
  r.address ≤ address && address.toNat < r.stop

def entrySize : Nat := 16

def terminator : Reservation := ⟨0, 0⟩

def toBytes (r : Reservation) : List UInt8 :=
  bigEndian 8 r.address.toNat ++ bigEndian 8 r.size.toNat

def ofBytes (bytes : List UInt8) : Reservation where
  address := UInt64.ofNat (ofBigEndian (bytes.take 8))
  size := UInt64.ofNat (ofBigEndian ((bytes.drop 8).take 8))

end Reservation

end DeviceTree
