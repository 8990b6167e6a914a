import DeviceTree.Blob.Node
import DeviceTree.Bus.Window
import DeviceTree.Platform.MemoryKind

/-!
# Calls to the outside

Everything that a bus asks of the world around it is a `Call`, and a platform is what replies to
calls. Register I/O attached to a device is known to the bus by a name of type `ι` alone; the
platform holds what is behind it. `Recorded` replies as the platform inside it does and writes each
call down with its reply.
-/
namespace DeviceTree

inductive Width
  | w8
  | w16
  | w32
  | w64
deriving DecidableEq, Repr

namespace Width

def bytes : Width → Nat
  | w8 => 1
  | w16 => 2
  | w32 => 4
  | w64 => 8

/-- The largest value that an access of this width carries. -/
def maxValue : Width → UInt64
  | w8 => 0xff
  | w16 => 0xffff
  | w32 => 0xffffffff
  | w64 => 0xffffffffffffffff

def mask (width : Width) (value : UInt64) : UInt64 :=
  value &&& width.maxValue

end Width

/-- Where an access goes: to the CPU's address space, or to one behind register I/O. -/
inductive AddressSpace (ι : Type)
  | cpu
  | attached (io : ι)
deriving DecidableEq, Repr

/-- A range of physical memory and what it is claimed as. -/
structure Claim where
  base : Nat
  length : Nat
  type : MemoryType
  attributes : MemoryAttributes
deriving DecidableEq, Repr

inductive Call (ι : Type)
  | read (space : AddressSpace ι) (width : Width) (address : Nat)
  | write (space : AddressSpace ι) (width : Width) (address : Nat) (value : UInt64)
  | claim (claim : Claim)
  /-- Connects the driver of a device, whose node bears `name`. -/
  | connect (handle : Handle) (node : Node) (name : String)
  | stall (microseconds : Nat)
deriving DecidableEq, Repr

namespace Call

abbrev Reply {ι : Type} : Call ι → Type
  | read .. => Except Error UInt64
  | write .. | claim .. | connect .. => Except Error Unit
  | stall .. => Unit

end Call

class Platform (σ : Type) (ι : outParam Type) where
  respond : (call : Call ι) → σ → call.Reply × σ

structure Event (ι : Type) where
  call : Call ι
  reply : call.Reply

structure Recorded (σ ι : Type) where
  inner : σ
  /-- The calls so far, the latest first. -/
  log : List (Event ι) := []

instance {σ ι : Type} [Platform σ ι] : Platform (Recorded σ ι) ι where
  respond call recorded :=
    let (reply, inner) := Platform.respond call recorded.inner
    (reply, { inner, log := ⟨call, reply⟩ :: recorded.log })

end DeviceTree
