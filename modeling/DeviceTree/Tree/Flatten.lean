import DeviceTree.Blob.Token
import DeviceTree.Tree.Basic

/-!
# Flattening a tree

The blob of a tree: the header, the reservations, the structure block, and the names of properties
in the order of their first use. Every part before the strings is a whole number of cells, so values
and names are padded by their own lengths alone.
-/
namespace DeviceTree

namespace Tree

/-- Fills up to a cell boundary with zeros. -/
def padded (bytes : List UInt8) : List UInt8 :=
  bytes ++ List.replicate (aligned bytes.length - bytes.length) 0

/-- The names of properties that were used so far, with where they start in the strings block. -/
structure StringTable where
  offsets : List (String × Nat) := []
  size : Nat := 0

namespace StringTable

/-- Where `name` starts, which is added at the end if it was not used before. -/
def offset (name : String) : StateM StringTable Nat := fun table =>
  match table.offsets.lookup name with
  | some offset => (offset, table)
  | none =>
    (table.size, { offsets := table.offsets ++ [(name, table.size)]
                   size := table.size + name.utf8ByteSize + 1 })

def toBytes (table : StringTable) : List UInt8 :=
  table.offsets.flatMap fun (name, _) => Text.terminated name

end StringTable

def Property.write (p : Property) : StateM StringTable (List UInt8) := do
  let nameOffset ← StringTable.offset p.name
  return Token.property.toCell.toBytes ++ bigEndian 4 p.value.length ++ bigEndian 4 nameOffset ++
    padded p.value

def writeProperties : List Property → StateM StringTable (List UInt8)
  | [] => return []
  | p :: rest => return (← p.write) ++ (← writeProperties rest)

mutual

def Node.write : Node → StateM StringTable (List UInt8)
  | ⟨name, properties, children⟩ => do
    let properties ← writeProperties properties
    let children ← writeAll children
    return Token.beginNode.toCell.toBytes ++ padded (Text.terminated name) ++ properties ++
      children ++ Token.endNode.toCell.toBytes

def writeAll : List Node → StateM StringTable (List UInt8)
  | [] => return []
  | n :: rest => return (← n.write) ++ (← writeAll rest)

end

/-- The format version that is written, and the oldest that its readers may know. -/
def writtenVersion : Nat := 17

def writtenCompatibleVersion : Nat := 16

/-- The header of a blob whose blocks have the given sizes and follow one another. -/
def headerFor (reservationsSize structSize stringsSize : Nat) : Header where
  magic := Header.magicNumber
  totalSize := Header.size + reservationsSize + structSize + stringsSize
  structOffset := Header.size + reservationsSize
  stringsOffset := Header.size + reservationsSize + structSize
  reservationsOffset := Header.size
  version := writtenVersion
  lastCompatibleVersion := writtenCompatibleVersion
  bootCpu := 0
  stringsSize
  structSize

/-- The blob of a tree, which its header can describe below 4 GiB. -/
def flatten (t : Tree) : List UInt8 :=
  let reservations := (t.reservations ++ [Reservation.terminator]).flatMap Reservation.toBytes
  let (nodes, table) := t.root.write.run {}
  let tokens := nodes ++ Token.finish.toCell.toBytes
  (headerFor reservations.length tokens.length table.toBytes.length).toBytes ++
    reservations ++ tokens ++ table.toBytes

end Tree

end DeviceTree
