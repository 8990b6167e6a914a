import DeviceTree.Bus.Access
import DeviceTree.Machine.Mapping

/-!
# Register accesses on a machine

Polling once more. A machine counts the time that it has waited, and goes on polling for as long as
its turns say so. A difference that is negative and a sum that is no word trap.
-/
namespace DeviceTree

/-- Computations of a bus on a machine. What was done before a failure stays done. -/
abbrev BusMachine (σ ι α : Type) := ExceptT Error (StateT (Bus σ ι) Part) α

namespace BusMachine

section Bus

variable {σ ι α β : Type}

instance : MonadLift Machine (BusMachine σ ι) where
  monadLift x := ExceptT.mk fun bus =>
    x.run.map fun outcome => (outcome.mapError Error.ofParse, bus)

/-- Does what the bus does, which neither traps nor goes on for ever. -/
def ofBus (x : BusM σ ι α) : BusMachine σ ι α :=
  ExceptT.mk fun bus => Part.some <| match x bus with
    | .ok a next => (.ok a, next)
    | .error e next => (.error e, next)

def loop (turn : β → BusMachine σ ι (Machine.Turn β α)) (start : β) : BusMachine σ ι α :=
  ExceptT.mk fun bus => PFun.fix (fun (place, bus) => ((turn place).run.run bus).map fun
    | (.ok (.again next), bus) => .inr (next, bus)
    | (.ok (.done a), bus) => .inl (.ok a, bus)
    | (.error e, bus) => .inl (.error e, bus)) (start, bus)

end Bus

variable {σ ι : Type} [Platform σ ι]

/-- Reads the register and waits once more, after `waited` microseconds, if that is not all. -/
def pollTurn (w : Window) (offset : Nat) (width : Width) (mask expected : UInt64)
    (timeout waited : Nat) : BusMachine σ ι (Machine.Turn Nat UInt64) := do
  let value ← ofBus (Bus.readRegister w offset width)
  if value &&& mask = expected then return .done value
  if timeout ≤ waited then throw .timeout
  let interval := min Bus.pollInterval (← Machine.sub timeout waited)
  ofBus (Bus.call (.stall interval))
  return .again (← Machine.add waited interval)

def pollRegister (w : Window) (offset : Nat) (width : Width) (mask expected : UInt64)
    (timeout : Nat) : BusMachine σ ι UInt64 :=
  loop (pollTurn w offset width mask expected timeout) 0

end BusMachine

end DeviceTree
