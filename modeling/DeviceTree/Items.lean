import DeviceTree.Failure

/-!
# Items read one after another

Each item of a blob may have failed to read. A search goes through the items in order and ends at
the first one it accepts, or with the first failure that comes before it.
-/
namespace DeviceTree

abbrev Items (α : Type) := List (Except ParseError α)

namespace Items

variable {α : Type}

/-- The first item that `accept` takes. -/
def first? (accept : α → Except ParseError Bool) : Items α → Except ParseError (Option α)
  | [] => .ok none
  | .error e :: _ => .error e
  | .ok a :: rest => do
    if ← accept a then return some a
    first? accept rest

/-- How many items come before the first one that `accept` takes. -/
def position? (accept : α → Bool) : Items α → Except ParseError (Option Nat)
  | [] => .ok none
  | .error e :: _ => .error e
  | .ok a :: rest =>
    if accept a then .ok (some 0) else (position? accept rest).map (Option.map (· + 1))

end Items

end DeviceTree
