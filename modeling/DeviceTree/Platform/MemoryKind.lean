import DeviceTree.Failure

/-!
# Memory types and attributes

What a range of physical memory is claimed as: its type, which trees store as a number from one to
five, and a set of attribute bits.
-/
namespace DeviceTree

inductive MemoryType
  | reserved
  | systemMemory
  | memoryMappedIO
  | persistent
  | moreReliable
deriving DecidableEq, Repr

namespace MemoryType

def tag : MemoryType → UInt32
  | reserved => 1
  | systemMemory => 2
  | memoryMappedIO => 3
  | persistent => 4
  | moreReliable => 5

def ofTag (tag : UInt32) : Except Error MemoryType :=
  match [reserved, systemMemory, memoryMappedIO, persistent, moreReliable].find? (·.tag = tag) with
  | some type => .ok type
  | none => .error (.invalidParameter .unknownMemoryType)

end MemoryType

structure MemoryAttributes where
  bits : UInt64
deriving DecidableEq, Repr

namespace MemoryAttributes

/-- The attributes with a meaning and the bit of each. -/
def flags : List (String × UInt64) :=
  [("UC", 0x1), ("WC", 0x2), ("WT", 0x4), ("WB", 0x8), ("UCE", 0x10), ("WP", 0x1000),
    ("RP", 0x2000), ("XP", 0x4000), ("NV", 0x8000), ("MORE_RELIABLE", 0x10000), ("RO", 0x20000),
    ("SP", 0x40000), ("CPU_CRYPTO", 0x80000), ("RUNTIME", 0x8000000000000000)]

def uncached : MemoryAttributes := ⟨0x1⟩

def writeBack : MemoryAttributes := ⟨0x8⟩

def knownBits : UInt64 :=
  flags.foldl (fun bits flag => bits ||| flag.2) 0

def ofKnownBits (bits : UInt64) : MemoryAttributes :=
  ⟨bits &&& knownBits⟩

/-- The attributes whose bits are `bits`, if each of them is known. -/
def ofBits? (bits : UInt64) : Option MemoryAttributes :=
  if bits &&& knownBits = bits then some ⟨bits⟩ else none

def names (attributes : MemoryAttributes) : List String :=
  (flags.filter fun flag => attributes.bits &&& flag.2 = flag.2).map Prod.fst

end MemoryAttributes

end DeviceTree
