import Std.Data.TreeMap.Basic
import DeviceTree.Platform.Call

/-!
# Platforms held in memory

A register file keeps one value per address: a read gives the stored value masked to its width, a
write replaces it, and addresses do not overlap. `Simulated` is a platform over such files, one for
the CPU and one for each register I/O, which can be told to refuse calls and to change values after
some stalling.
-/
namespace DeviceTree

structure RegisterFile where
  label : String
  values : Std.TreeMap Nat UInt64 := {}
  /-- The addresses whose accesses fail. -/
  refused : List Nat := []

namespace RegisterFile

def get (file : RegisterFile) (address : Nat) : UInt64 :=
  file.values.getD address 0

def set (file : RegisterFile) (address : Nat) (value : UInt64) : RegisterFile :=
  { file with values := file.values.insert address value }

def read (file : RegisterFile) (width : Width) (address : Nat) : Except Error UInt64 :=
  if address ∈ file.refused then .error .outOfResources
  else .ok (width.mask (file.get address))

def write (file : RegisterFile) (address : Nat) (value : UInt64) : Except Error RegisterFile :=
  if address ∈ file.refused then .error .outOfResources
  else .ok (file.set address value)

end RegisterFile

/-- A value that an address of the CPU takes once enough time was stalled. -/
structure Delayed where
  address : Nat
  value : UInt64
  after : Nat

/-- The number of a register file other than the CPU's. -/
structure FileNumber where
  index : Nat
deriving DecidableEq, Repr

structure Simulated where
  cpu : RegisterFile
  files : Array RegisterFile := #[]
  delayed : List Delayed := []
  stalled : Nat := 0
  /-- The bases whose claims are refused. -/
  refusedClaims : List Nat := []
  /-- The names of nodes whose drivers cannot be connected. -/
  refusedDrivers : List String := []

namespace Simulated

def addFile (s : Simulated) (file : RegisterFile) : FileNumber × Simulated :=
  (⟨s.files.size⟩, { s with files := s.files.push file })

/-- The registers of an address space; a file that was never added is empty. -/
def file (s : Simulated) : AddressSpace FileNumber → RegisterFile
  | .cpu => s.cpu
  | .attached number => s.files.getD number.index { label := "" }

def setFile (s : Simulated) (file : RegisterFile) : AddressSpace FileNumber → Simulated
  | .cpu => { s with cpu := file }
  | .attached number => { s with files := s.files.setIfInBounds number.index file }

def settle (s : Simulated) (address : Nat) : Simulated :=
  let due := s.delayed.filter fun d => d.address = address ∧ d.after ≤ s.stalled
  { s with cpu := due.foldl (fun file d => file.set d.address d.value) s.cpu }

def respond : (call : Call FileNumber) → Simulated → call.Reply × Simulated
  | .read space width address, s =>
    let s := if space = .cpu then s.settle address else s
    ((s.file space).read width address, s)
  | .write space _ address value, s =>
    match (s.file space).write address value with
    | .ok file => (.ok (), s.setFile file space)
    | .error e => (.error e, s)
  | .claim claim, s =>
    (if claim.base ∈ s.refusedClaims then .error .outOfResources else .ok (), s)
  | .connect _ _ name, s =>
    (if name ∈ s.refusedDrivers then .error .notFound else .ok (), s)
  | .stall microseconds, s => ((), { s with stalled := s.stalled + microseconds })

instance : Platform Simulated FileNumber := ⟨respond⟩

end Simulated

end DeviceTree
