import DeviceTree.Bus.Registry
import DeviceTree.Platform.Call

/-!
# Buses

A bus is a registry of devices together with the platform that it calls. What an operation did
before it failed stays done.
-/
namespace DeviceTree

structure Bus (σ ι : Type) where
  registry : Registry ι
  platform : σ

abbrev BusM (σ ι : Type) := EStateM Error (Bus σ ι)

namespace Bus

variable {σ ι : Type}

def ofBlob (b : Blob) (platform : σ) : Except Error (Bus σ ι) :=
  return { registry := ← Registry.ofBlob b, platform }

def onRegistry {α : Type} (operation : RegistryM ι α) : BusM σ ι α := fun bus =>
  match operation bus.registry with
  | .ok a registry => .ok a { bus with registry }
  | .error e registry => .error e { bus with registry }

def ask {α : Type} (question : Registry ι → Except Error α) : BusM σ ι α := do
  question (← get).registry

def call [Platform σ ι] (request : Call ι) : BusM σ ι request.Reply := fun bus =>
  let (reply, platform) := Platform.respond request bus.platform
  .ok reply { bus with platform }

def claim [Platform σ ι] (c : Claim) : BusM σ ι Unit := do
  (← call (.claim c) : Except Error Unit)

/-- Claims the reservations of the blob and returns how many there were. -/
def claimAll [Platform σ ι] : Items Reservation → BusM σ ι Nat
  | [] => return 0
  | .error e :: _ => throw (Error.ofParse e)
  | .ok r :: rest => do
    claim { base := r.address.toNat, length := r.size.toNat, type := .reserved,
            attributes := .writeBack }
    return (← claimAll rest) + 1

def claimReservations [Platform σ ι] : BusM σ ι Nat := do
  claimAll (← get).registry.blob.reservations

end Bus

end DeviceTree
