import Mathlib.Control.Lawful
import Mathlib.Data.PFun
import DeviceTree.Items

/-!
# Computations on a machine

A machine counts in words of 64 bits and reads from slices. It traps where a sum is not a word,
where a difference is negative, and where a slice is not inside the list that it is cut from, and
its loops go on for as long as their turns say so. A computation that traps or does not end has no
value, so an equation `x = returns outcome` says at once that `x` ends, that it does not trap, and
what comes out.
-/
namespace DeviceTree

abbrev Machine (α : Type) := ExceptT ParseError Part α

namespace Machine

section Word

variable {α : Type}

def returns (outcome : Except ParseError α) : Machine α :=
  ExceptT.mk (Part.some outcome)

def trap : Machine α :=
  ExceptT.mk Part.none

def add (m n : Nat) : Machine Nat :=
  if m + n < UInt64.size then return m + n else trap

def sub (m n : Nat) : Machine Nat :=
  if n ≤ m then return m - n else trap

def slice? (list : List α) (start stop : Nat) : Option (List α) :=
  if start ≤ stop ∧ stop ≤ list.length then some ((list.drop start).take (stop - start)) else none

def slice (list : List α) (start stop : Nat) : Machine (List α) :=
  match slice? list start stop with
  | some entries => return entries
  | none => trap

end Word

/-- Where a turn of a loop leads. -/
inductive Turn (σ α : Type)
  | again (state : σ)
  | done (result : α)

namespace Turn

variable {σ α : Type}

/-- A loop is left with a result or with a failure. -/
def leave : Except ParseError (Turn σ α) → Except ParseError α ⊕ σ
  | .ok (.again state) => .inr state
  | .ok (.done result) => .inl (.ok result)
  | .error e => .inl (.error e)

end Turn

/-- Takes turns from `state` on until one of them is the last. -/
def loop {σ α : Type} (turn : σ → Machine (Turn σ α)) (state : σ) : Machine α :=
  ExceptT.mk (PFun.fix (fun state => (turn state).run.map Turn.leave) state)

/-- An iterator: `step` gives the next item with the state after it. One that is done has no state
any more. -/
structure Iterator (σ α : Type) where
  step : σ → Machine (Option (α × σ))
  state : Option σ

namespace Iterator

variable {σ α β : Type}

/-- One call: an item or the end, and the iterator for the next call. After a failure and after the
end it is done for good. -/
def next (it : Iterator σ α) : Part (Option (Except ParseError α) × Iterator σ α) :=
  match it.state with
  | none => Part.some (none, it)
  | some state =>
    (it.step state).run.map fun
      | .ok (some (a, state)) => (some (.ok a), { it with state := some state })
      | .ok none => (none, { it with state := none })
      | .error e => (some (.error e), { it with state := none })

/-- What the call number `k` gives, counted from zero. -/
def call (it : Iterator σ α) : Nat → Part (Option (Except ParseError α))
  | 0 => it.next.map Prod.fst
  | k + 1 => it.next.bind fun (_, rest) => rest.call k

/-- Takes the items in turn, until `body` breaks off or an item has failed. -/
def each (body : β → α → Machine (ForInStep β)) (it : Iterator σ α) (acc : β) : Machine β :=
  loop (fun (it, acc) => do
    match ← it.next with
    | (none, _) => return .done acc
    | (some item, rest) =>
      match ← body acc (← returns item) with
      | .done acc => return .done acc
      | .yield acc => return .again (rest, acc)) (it, acc)

def first (accept : α → Machine Bool) (it : Iterator σ α) : Machine (Option α) :=
  it.each (fun _ a => return if ← accept a then .done (some a) else .yield none) none

end Iterator

end Machine

end DeviceTree
