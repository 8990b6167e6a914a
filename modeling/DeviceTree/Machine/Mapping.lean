import DeviceTree.Bus.Resolution
import DeviceTree.Machine.Tape

/-!
# Addresses on a machine

The mapping of a stretch through `ranges` once more, with a cursor that moves from entry to entry
until one of them covers the stretch. Addresses and lengths are words of 128 bits: a sum that is too
large and a difference that is negative are found before anything is compared with them.
-/
namespace DeviceTree

namespace Machine

/-- The product, which has to be a word. -/
def mul (m n : Nat) : Machine Nat :=
  match product? m n with
  | some count => return count
  | none => trap

/-- The sum, if it is an address. -/
def sum? (m n : Nat) : Option Nat :=
  if m + n < addressLimit then some (m + n) else none

/-- The difference, if it is not negative. -/
def difference? (m n : Nat) : Option Nat :=
  if n ≤ m then some (m - n) else none

/-- Whether `value` has at most `cells` cells. -/
def fitsInCells (value cells : Nat) : Bool :=
  Cursor.maximumCells ≤ cells || value >>> (32 * cells) = 0

def checkEnd (address length : Nat) (cells : UInt32) : Except Error Unit :=
  match sum? address (length - 1) with
  | none => .error (.device .addressOverflow)
  | some last =>
    if fitsInCells last cells.toNat then .ok () else .error (.device .addressOverflow)

end Machine

namespace TapeM

variable {σ α : Type}

def loop (turn : TapeM σ (Option α)) : TapeM σ α :=
  ExceptT.mk fun s => PFun.fix (fun s => (turn.run.run s).map fun
    | (.ok none, t) => .inr t
    | (.ok (some a), t) => .inl (.ok a, t)
    | (.error e, t) => .inl (.error e, t)) s

def readRangeEntry (cells : Cells) : TapeM σ RangeEntry := do
  let childBase ← readUint cells.childAddress.toNat
  let parentBase ← readUint cells.address.toNat
  let size ← readUint cells.childSize.toNat
  return { childBase, parentBase, size }

/-- Where the entry maps a stretch, if it covers it. -/
def mapBy (entry : RangeEntry) (cells : Cells) (address length : Nat) : TapeM σ (Option Nat) := do
  match Machine.difference? address entry.childBase with
  | none => return none
  | some offset =>
    if entry.size < offset then return none
    if (← Machine.sub entry.size offset) < length then return none
    match Machine.sum? entry.parentBase offset with
    | none => throw (.device .addressOverflow)
    | some mapped =>
      Machine.checkEnd mapped length cells.address
      return some mapped

/-- Tries the next entry. -/
def mapTurn (cells : Cells) (address length : Nat) : TapeM σ (Option Nat) := do
  if (← remainingCells) = 0 then throw (.device (.uncovered address length))
  let entry ← readRangeEntry cells
  mapBy entry cells address length

def mapThrough (cells : Cells) (address length : Nat) : TapeM σ Nat := do
  let width ← Machine.mul (← Machine.add (← Machine.add cells.childAddress.toNat
    cells.address.toNat) cells.childSize.toNat) Cell.size
  if cells.childAddress = 0 ∨ cells.address = 0 ∨ (← tape).value.length % width ≠ 0 then
    throw (.device (.malformedProperty Route.ranges.propertyName))
  loop (mapTurn cells address length)

end TapeM

end DeviceTree
