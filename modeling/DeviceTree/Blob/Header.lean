import DeviceTree.Encoding.BigEndian
import DeviceTree.Failure

/-!
# The header of a blob

Ten big-endian words name the blocks of a blob. `Blob.parse` accepts bytes whose header has the
right magic number, a version that this library reads, the length of the bytes, and blocks that lie
inside them in order; an accepted blob keeps the last of these as `layout`.
-/
namespace DeviceTree

structure Header where
  magic : Nat
  totalSize : Nat
  structOffset : Nat
  stringsOffset : Nat
  reservationsOffset : Nat
  version : Nat
  lastCompatibleVersion : Nat
  bootCpu : Nat
  stringsSize : Nat
  structSize : Nat
deriving DecidableEq, Repr

namespace Header

def size : Nat := 40

def magicNumber : Nat := 0xd00dfeed

/-- The format version that is read here. -/
def readVersion : Nat := 17

/-- `readVersion` is one of the versions that the blob can be read as. -/
def IsReadable (h : Header) : Prop :=
  h.lastCompatibleVersion ≤ readVersion ∧ readVersion ≤ h.version

instance (h : Header) : Decidable h.IsReadable :=
  inferInstanceAs (Decidable (_ ∧ _))

def structEnd (h : Header) : Nat :=
  h.structOffset + h.structSize

def stringsEnd (h : Header) : Nat :=
  h.stringsOffset + h.stringsSize

def words (h : Header) : List Nat :=
  [h.magic, h.totalSize, h.structOffset, h.stringsOffset, h.reservationsOffset, h.version,
    h.lastCompatibleVersion, h.bootCpu, h.stringsSize, h.structSize]

def toBytes (h : Header) : List UInt8 :=
  h.words.flatMap (bigEndian 4)

def ofBytes? (bytes : List UInt8) : Option Header :=
  match (Cell.ofBytes (bytes.take size)).map UInt32.toNat with
  | [magic, totalSize, structOffset, stringsOffset, reservationsOffset, version,
      lastCompatibleVersion, bootCpu, stringsSize, structSize] =>
    some { magic, totalSize, structOffset, stringsOffset, reservationsOffset, version,
           lastCompatibleVersion, bootCpu, stringsSize, structSize }
  | _ => none

/-- The blocks lie inside `length` bytes: reservations, then tokens on a cell boundary, then
strings. -/
structure Fits (h : Header) (length : Nat) : Prop where
  reservations_le : h.reservationsOffset ≤ h.structOffset
  structEnd_le : h.structEnd ≤ h.stringsOffset
  stringsEnd_le : h.stringsEnd ≤ length
  aligned : h.structOffset % Cell.size = 0

/-- The layout rules for a blob of `length` bytes, and the fault that each excludes. -/
def layoutRules (h : Header) (length : Nat) : List (Bool × HeaderFault) :=
  [(h.reservationsOffset ≤ h.structOffset, .structBeforeReservations),
    (h.structOffset ≤ length, .structOffsetOutOfBounds),
    (h.stringsOffset ≤ length, .stringsOffsetOutOfBounds),
    (h.structEnd ≤ length, .structOverflows),
    (h.stringsEnd ≤ length, .stringsOverflow),
    (h.structEnd ≤ h.stringsOffset, .stringsBeforeStruct),
    (h.structOffset % Cell.size = 0, .structUnaligned)]

/-- The first rule that is broken. -/
def layoutFault? (h : Header) (length : Nat) : Option HeaderFault :=
  ((h.layoutRules length).find? fun rule => !rule.1).map Prod.snd

theorem layoutFault?_eq_none_iff {h : Header} {length : Nat} :
    h.layoutFault? length = none ↔ h.Fits length := by
  have structLe : h.structOffset ≤ h.structEnd := Nat.le_add_right _ _
  have stringsLe : h.stringsOffset ≤ h.stringsEnd := Nat.le_add_right _ _
  simp only [layoutFault?, layoutRules, Option.map_eq_none_iff, List.find?_eq_none,
    List.forall_mem_cons, List.not_mem_nil, false_implies, implies_true, and_true,
    Bool.not_eq_true', Bool.not_eq_false, decide_eq_true_eq]
  exact ⟨fun ⟨reservations, _, _, _, strings, struct, aligned⟩ =>
      ⟨reservations, struct, strings, aligned⟩,
    fun ⟨reservations, struct, strings, aligned⟩ =>
      ⟨reservations, by omega, by omega, by omega, strings, struct, aligned⟩⟩

end Header

structure Blob where
  bytes : Array UInt8
  header : Header
  layout : header.Fits bytes.size

namespace Blob

def parse (bytes : Array UInt8) : Except ParseError Blob :=
  match Header.ofBytes? (bytes.extract 0 Header.size).toList with
  | none => .error ⟨.invalidLength, 0⟩
  | some header =>
    if header.magic ≠ Header.magicNumber then .error ⟨.invalidMagic, 0⟩
    else if ¬ header.IsReadable then .error ⟨.unsupportedVersion header.version, 20⟩
    else if header.totalSize ≠ bytes.size then .error ⟨.invalidLength, 4⟩
    else
      match free : header.layoutFault? bytes.size with
      | some fault => .error ⟨.invalidHeader fault, fault.offset⟩
      | none => .ok { bytes, header, layout := Header.layoutFault?_eq_none_iff.1 free }

/-- Reads a blob at the front of `memory`, as long as its own header says it is. -/
def parsePrefix (memory : Array UInt8) : Except ParseError Blob :=
  match Header.ofBytes? (memory.extract 0 Header.size).toList with
  | none => .error ⟨.invalidLength, 0⟩
  | some header => parse (memory.extract 0 header.totalSize)

def size (b : Blob) : Nat :=
  b.bytes.size

def structEnd (b : Blob) : Nat :=
  b.header.structEnd

/-- The bytes from `start` to just before `stop`. -/
def slice (b : Blob) (start stop : Nat) : List UInt8 :=
  (b.bytes.extract start stop).toList

theorem structEnd_le_size (b : Blob) : b.structEnd ≤ b.size :=
  Nat.le_trans b.layout.structEnd_le
    (Nat.le_trans (Nat.le_add_right _ _) b.layout.stringsEnd_le)

end Blob

end DeviceTree
