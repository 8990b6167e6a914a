import DeviceTree.Encoding.BigEndian
import DeviceTree.Failure

/-!
# Cursors over property values

A cursor is a value with a read position that stays inside it. A `Reader` either moves the cursor
and answers or fails, and a failed reader leaves no cursor behind: its caller still has the one it
passed.
-/
namespace DeviceTree

structure Cursor where
  name : String
  value : List UInt8
  position : Nat := 0
  position_le : position ≤ value.length := by omega
deriving DecidableEq, Repr

abbrev Reader := StateT Cursor (Except Error)

namespace Cursor

def start (name : String) (value : List UInt8) : Cursor :=
  { name, value }

def remaining (c : Cursor) : List UInt8 :=
  c.value.drop c.position

/-- The number of whole cells left to read. -/
def remainingCells (c : Cursor) : Nat :=
  (c.value.length - c.position) / Cell.size

/-- Runs `read`, keeping the cursor as it was if that fails. -/
def attempt {α : Type} (c : Cursor) (read : Reader α) : Except Error α × Cursor :=
  match read c with
  | .ok (a, moved) => (.ok a, moved)
  | .error e => (.error e, c)

def reset (c : Cursor) : Cursor :=
  { c with position := 0, position_le := Nat.zero_le _ }

/-- Moves back to `position`, never forward. -/
def rewind (position : Nat) : Reader Unit := fun c =>
  if back : position ≤ c.position then
    .ok ((), { c with position, position_le := Nat.le_trans back c.position_le })
  else .error (.invalidParameter .rewindForward)

/-- Takes the next `count` bytes, or fails with `short` where there are fewer. -/
def take (count : Nat) (short : Error) : Reader (List UInt8) := fun c =>
  if fits : count ≤ c.value.length - c.position then
    have := c.position_le
    .ok (c.remaining.take count,
      { c with position := c.position + count, position_le := by omega })
  else .error short

def advance (cells : Nat) : Reader Unit :=
  discard (take (cells * Cell.size) .outOfBounds)

/-- Moves past `cells` cells, a short value counting as the end of what it lists. -/
def skipCells (cells : Nat) : Reader Unit :=
  discard (take (cells * Cell.size) .notFound)

def readCells (cells : Nat) : Reader (List Cell) :=
  return Cell.ofBytes (← take (cells * Cell.size) .notFound)

def readU32 : Reader UInt32 :=
  return UInt32.ofNat (Cell.join (← readCells 1))

def readU64 : Reader UInt64 :=
  return UInt64.ofNat (Cell.join (← readCells 2))

/-- The most cells that one number may have. -/
def maximumCells : Nat := 4

/-- Reads a number of `cells` cells; zero cells hold zero. -/
def readUint (cells : Nat) : Reader Nat := do
  if maximumCells < cells then throw (.invalidParameter .tooManyCells)
  return Cell.join (← readCells cells)

/-- Moves past the next terminator and returns the bytes before it. -/
def takeTerminated : Reader (List UInt8) := do
  match Text.untilNul? (← get).remaining with
  | some (text, _) =>
    let _ ← take (text.length + 1) .notFound
    return text
  | none => throw .notFound

/-- Reads a terminated string and moves past its terminator. -/
def readString : Reader String := do
  match Text.decode? (← takeTerminated) with
  | some text => return text
  | none => throw (.device (.malformedProperty "string"))

/-- Moves past `count` terminated strings, whatever bytes they hold. -/
def skipStrings : Nat → Reader Unit
  | 0 => return
  | count + 1 => do
    let _ ← takeTerminated
    skipStrings count

end Cursor

end DeviceTree
