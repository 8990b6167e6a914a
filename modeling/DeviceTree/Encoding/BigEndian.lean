/-!
# Big-endian numbers

Bytes and cells, most significant first. A cell is the 32-bit unit that device trees count in.
-/
namespace DeviceTree

/-- The `k` low-order bytes of `n`, most significant first. -/
def bigEndian : Nat → Nat → List UInt8
  | 0, _ => []
  | k + 1, n => bigEndian k (n / 256) ++ [UInt8.ofNat n]

def ofBigEndian (bytes : List UInt8) : Nat :=
  bytes.foldl (fun n byte => 256 * n + byte.toNat) 0

@[simp] theorem length_bigEndian (k n : Nat) : (bigEndian k n).length = k := by
  induction k generalizing n with
  | zero => rfl
  | succ k ih => simp [bigEndian, ih]

abbrev Cell := UInt32

namespace Cell

def size : Nat := 4

def toBytes (cell : Cell) : List UInt8 :=
  bigEndian 4 cell.toNat

/-- The whole cells at the front of `bytes`; up to three bytes are left over. -/
def ofBytes : List UInt8 → List Cell
  | a :: b :: c :: d :: rest => UInt32.ofNat (ofBigEndian [a, b, c, d]) :: ofBytes rest
  | _ => []

/-- One more than the largest number of `count` cells. -/
def limit : Nat → Nat
  | 0 => 1
  | count + 1 => UInt32.size * limit count

/-- The number that `cells` spell, the first cell being the most significant. -/
def join (cells : List Cell) : Nat :=
  cells.foldl (fun n cell => UInt32.size * n + cell.toNat) 0

end Cell

end DeviceTree
