import DeviceTree.Bus.Basic
import DeviceTree.Bus.Resolution

/-!
# Register accesses

Accesses go to the registers of a window and nowhere else: an access that does not lie inside it is
refused before anything is called. Whether the CPU or the register I/O of a device is called is
settled at each access, since register I/O can be exchanged at any time.
-/
namespace DeviceTree

/-- The address of `count` registers at `offset` in a window. -/
def Window.address (w : Window) (offset : Nat) (width : Width) (count : Nat) : Except Error Nat :=
  if w.length < offset + width.bytes * count then .error (.unsupported .outsideWindow)
  else if addressLimit ≤ w.resolvedBase + offset then .error (.device .addressOverflow)
  else .ok (w.resolvedBase + offset)

/-- Where accesses to a window go now. -/
def Registry.spaceOf {ι : Type} (r : Registry ι) (w : Window) :
    Except Error (AddressSpace ι) :=
  match w.bus with
  | none => return .cpu
  | some h => do
    match (← r.device h).io with
    | some io => return .attached io
    | none => throw (.unsupported .noRegisterIO)

namespace Bus

variable {σ ι : Type} [Platform σ ι]

def readAt (w : Window) (width : Width) (address : Except Error Nat) : BusM σ ι UInt64 := do
  let space ← ask (·.spaceOf w)
  (← call (.read space width (← address)) : Except Error UInt64)

def writeAt (w : Window) (width : Width) (address : Except Error Nat) (value : UInt64) :
    BusM σ ι Unit := do
  let space ← ask (·.spaceOf w)
  (← call (.write space width (← address) value) : Except Error Unit)

def readRegister (w : Window) (offset : Nat) (width : Width) : BusM σ ι UInt64 := do
  let address ← w.address offset width 1
  readAt w width (.ok address)

def writeRegister (w : Window) (offset : Nat) (width : Width) (value : UInt64) :
    BusM σ ι Unit := do
  if width.maxValue < value then throw (.invalidParameter .valueTooWide)
  let address ← w.address offset width 1
  writeAt w width (.ok address) value

/-- How long `pollRegister` stalls between reads, in microseconds. -/
def pollInterval : Nat := 10

/-- Reads a register until the bits of `mask` are `expected`, stalling for `timeout` microseconds
at most; the register is read once more after the last stall. -/
def pollRegister (w : Window) (offset : Nat) (width : Width) (mask expected : UInt64)
    (timeout : Nat) : BusM σ ι UInt64 := do
  let value ← readRegister w offset width
  if value &&& mask = expected then return value
  if _spent : timeout = 0 then throw .timeout
  else
    call (.stall (min pollInterval timeout))
    pollRegister w offset width mask expected (timeout - pollInterval)
termination_by timeout
decreasing_by simp only [pollInterval]; omega

/-- The address of register `index` of a run. It was not checked that there is one. -/
def runAddress (start : Nat) (width : Width) (index : Nat) : Except Error Nat :=
  if start + index * width.bytes < addressLimit then .ok (start + index * width.bytes)
  else .error .trap

/-- Copies the last `left` of `count` registers, or the first `left` backwards. -/
def copyRun (dst src : Window) (dstStart srcStart : Nat) (width : Width) (backwards : Bool)
    (count : Nat) : Nat → BusM σ ι Unit
  | 0 => return
  | left + 1 => do
    let index := if backwards then left else count - (left + 1)
    let value ← readAt src width (runAddress srcStart width index)
    writeAt dst width (runAddress dstStart width index) value
    copyRun dst src dstStart srcStart width backwards count left

/-- Copies `count` registers, from the end where that keeps a window from overwriting what it still
has to copy. -/
def copyRegisters (dst : Window) (dstOffset : Nat) (src : Window) (srcOffset : Nat) (width : Width)
    (count : Nat) : BusM σ ι Unit := do
  let dstStart ← dst.address dstOffset width count
  let srcStart ← src.address srcOffset width count
  copyRun dst src dstStart srcStart width (dst = src && srcStart < dstStart) count count

end Bus

end DeviceTree
