import DeviceTree.Machine.Basic
import DeviceTree.Value.Element

/-!
# The cursor on a machine

The readers of a cursor once more, step by step. A tape is a property value with a position that
each step moves in place, and nothing but the program keeps that position inside the value: products
are checked, sums, differences and slices can trap, and a step that fails leaves the position where
it had come to. It is `restoring` that puts it back.
-/
namespace DeviceTree

structure Tape where
  name : String
  value : List UInt8
  position : Nat := 0

/-- Computations on a machine that move a tape in place, and change the rest of the state as well.
What was done before a failure stays done. -/
abbrev TapeM (σ α : Type) := ExceptT Error (StateT (σ × Tape) Part) α

namespace Machine

/-- The product, if it is a word. -/
def product? (m n : Nat) : Option Nat :=
  if m * n < UInt64.size then some (m * n) else none

/-- The number of `bits` bits that `cells` spell, each of them shifted in. -/
def compose (bits : Nat) (cells : List Cell) : BitVec bits :=
  cells.foldl (fun n cell => n <<< 32 ||| BitVec.ofNat bits cell.toNat) 0

end Machine

namespace TapeM

variable {σ α : Type}

instance : MonadLift Machine (TapeM σ) where
  monadLift x := ExceptT.mk fun s => x.run.map fun outcome => (outcome.mapError Error.ofParse, s)

def tape : TapeM σ Tape :=
  return (← get).2

def moveTo (position : Nat) : TapeM σ Unit :=
  modify fun (rest, tape) => (rest, { tape with position })

def goOn (count : Nat) : TapeM σ Unit := do
  moveTo (← Machine.add (← tape).position count)

/-- Puts the position back if `x` fails. -/
def restoring (x : TapeM σ α) : TapeM σ α := do
  let start := (← tape).position
  try x
  catch e =>
    moveTo start
    throw e

/-- Does `x`, whether it succeeds or fails. -/
def trying (x : TapeM σ α) : TapeM σ Unit := do
  try
    let _ ← x
  catch _ => pure ()

def remaining : TapeM σ (List UInt8) := do
  let tape ← tape
  Machine.slice tape.value tape.position tape.value.length

def remainingCells : TapeM σ Nat := do
  let tape ← tape
  return (← Machine.sub tape.value.length tape.position) / Cell.size

def reset : TapeM σ Unit :=
  moveTo 0

def rewind (position : Nat) : TapeM σ Unit := do
  if (← tape).position < position then throw (.invalidParameter .rewindForward)
  moveTo position

def advance (cells : Nat) : TapeM σ Unit := do
  match Machine.product? cells Cell.size with
  | none => throw .outOfBounds
  | some count =>
    let tape ← tape
    if (← Machine.sub tape.value.length tape.position) < count then throw .outOfBounds
    goOn count

def skipCells (cells : Nat) : TapeM σ Unit := do
  try advance cells
  catch _ => throw .notFound

def readCells (cells : Nat) : TapeM σ (List Cell) := do
  match Machine.product? cells Cell.size with
  | none => throw .notFound
  | some count =>
    match Machine.slice? (← remaining) 0 count with
    | none => throw .notFound
    | some bytes =>
      goOn count
      return Cell.ofBytes bytes

def readU32 : TapeM σ UInt32 := do
  match (← readCells 1).head? with
  | some cell => return cell
  | none => throw .notFound

def readU64 : TapeM σ UInt64 :=
  return UInt64.ofBitVec (Machine.compose 64 (← readCells 2))

def readUint (cells : Nat) : TapeM σ Nat := do
  if Cursor.maximumCells < cells then throw (.invalidParameter .tooManyCells)
  return (Machine.compose 128 (← readCells cells)).toNat

def untilNul : TapeM σ Nat := do
  match (← remaining).findIdx? (· = 0) with
  | some length => return length
  | none => throw .notFound

def readString : TapeM σ String := do
  let length ← untilNul
  match Text.decode? (← Machine.slice (← remaining) 0 length) with
  | none => throw (.device (.malformedProperty "string"))
  | some text =>
    goOn (← Machine.add length 1)
    return text

def skipString : TapeM σ Unit := do
  goOn (← Machine.add (← untilNul) 1)

def skipStringsOnward : Nat → TapeM σ Unit
  | 0 => return
  | count + 1 => do
    skipString
    skipStringsOnward count

def skipStrings (count : Nat) : TapeM σ Unit :=
  restoring (skipStringsOnward count)

def skipElements (index width : Nat) : TapeM σ Unit := do
  match Machine.product? index width with
  | none => throw .notFound
  | some cells => skipCells cells

def readElement (index width : Nat) : TapeM σ Nat := do
  skipElements index width
  readUint width

def readAddress (index : Nat) (width : UInt32) : TapeM σ Nat := do
  if width = 0 then throw .notFound
  readElement index width.toNat

def elementU32 (index : Nat) : TapeM σ UInt32 := do
  skipElements index 1
  readU32

def elementU64 (index : Nat) : TapeM σ UInt64 := do
  skipElements index 2
  readU64

def elementString (index : Nat) : TapeM σ String := do
  skipStrings index
  readString

/-- The `index`-th element of a type that needs no bus, wherever a failure leaves the position. -/
def decodeAt (type : ElementType) (index : Nat) (cells : Cells) : TapeM σ Element :=
  match type with
  | .u32 => return .u32 (← elementU32 index)
  | .u64 => return .u64 (← elementU64 index)
  | .u128 => return .u128 (← readElement index 4)
  | .busAddress => return .busAddress (← readAddress index cells.address)
  | .childBusAddress => return .childBusAddress (← readAddress index cells.childAddress)
  | .size => return .size (← readElement index cells.size.toNat)
  | .childSize => return .childSize (← readElement index cells.childSize.toNat)
  | .string => return .string (← elementString index)
  | .device | .reg | .range => throw (.unsupported .needsBus)

def decode (type : ElementType) (index : Nat) (cells : Cells) : TapeM σ Element :=
  restoring (decodeAt type index cells)

end TapeM

end DeviceTree
