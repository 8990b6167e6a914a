import DeviceTree.Blob.Node

/-!
# The tree that a blob holds

There are two ways through it. `walk` goes once over the structure block and keeps the stack of
open nodes, so that a blob without parent links still tells the ancestors of every node it meets.
`outline` goes down through `children`. Paths, parents and phandles are looked up by the walk, and
nodes by path through the children.
-/
namespace DeviceTree

/-- A node met by the walk, and its ancestors from the nearest to the root. -/
structure Visit where
  node : Node
  ancestors : List Node
deriving DecidableEq, Repr

inductive Outline
  | node (node : Node) (depth : Nat)
  | failed (error : ParseError) (depth : Nat)
deriving DecidableEq, Repr

namespace Blob

/-- The first node from `offset` on, before which only fillers may stand. -/
def rootFrom (b : Blob) (offset : Nat) : Except ParseError Node :=
  match at_ : b.token offset with
  | .error e => .error e
  | .ok .beginNode => .ok ⟨offset⟩
  | .ok .nop =>
    have := add_le_of_token at_
    b.rootFrom (offset + Cell.size)
  | .ok token => .error ⟨.badToken token.toCell, offset⟩
termination_by b.structEnd - offset
decreasing_by all_goals simp only [Cell.size] at *; omega

def root (b : Blob) : Except ParseError Node :=
  b.rootFrom b.header.structOffset

/-- The visits from `offset` on, where the nodes of `line` are open, the innermost first. -/
def walkFrom (b : Blob) (offset : Nat) (line : List Node) : Items Visit :=
  match at_ : b.token offset with
  | .error e => [.error e]
  | .ok .beginNode =>
    match inside : b.contents offset with
    | .error e => [.error e]
    | .ok next =>
      have := add_le_of_token at_
      have := lt_of_contents inside
      .ok ⟨⟨offset⟩, line⟩ :: b.walkFrom next (⟨offset⟩ :: line)
  | .ok .property =>
    match after : b.afterProperty offset with
    | .error e => [.error e]
    | .ok next =>
      have := add_le_of_token at_
      have := lt_of_afterProperty after
      b.walkFrom next line
  | .ok .nop =>
    have := add_le_of_token at_
    b.walkFrom (offset + Cell.size) line
  | .ok .endNode =>
    have := add_le_of_token at_
    match line.tail with
    | [] => []
    | outer => b.walkFrom (offset + Cell.size) outer
  | .ok .finish => []
termination_by b.structEnd - offset
decreasing_by all_goals simp only [Cell.size] at *; omega

def walk (b : Blob) : Items Visit :=
  match b.root with
  | .error e => [.error e]
  | .ok root =>
    match b.contents root.offset with
    | .error e => [.error e]
    | .ok inside => .ok ⟨root, []⟩ :: b.walkFrom inside [root]

def visit (b : Blob) (n : Node) : Except ParseError Visit := do
  match ← b.walk.first? fun v => return v.node == n with
  | some visit => return visit
  | none => throw ⟨.invalidOffset, n.offset⟩

def parent (b : Blob) (n : Node) : Except ParseError (Option Node) :=
  return (← b.visit n).ancestors.head?

/-- The names on the way from the root to `n`, the root's own left out, each after a slash. -/
def path (b : Blob) (n : Node) : Except ParseError String := do
  let visit ← b.visit n
  let names ← (visit.node :: visit.ancestors).reverse.mapM b.name
  return if names.length = 1 then "/" else String.join (names.tail.map ("/" ++ ·))

/-- The node reached from `n` by taking the child of each name in turn. -/
def descend (b : Blob) (n : Node) : List String → Except ParseError (Option Node)
  | [] => return some n
  | name :: names => do
    match ← b.child n name with
    | some c => b.descend c names
    | none => return none

def findNode (b : Blob) (path : String) : Except ParseError (Option Node) := do
  if Text.isAbsolute path then b.descend (← b.root) (Text.components path)
  else return none

/-- The subtree below `n` from its children, each before its own. -/
def outline (b : Blob) (n : Node) (depth : Nat) : List Outline :=
  .node n depth :: (b.children n).attach.flatMap fun
    | ⟨.ok c, mem⟩ =>
      have := bounds_of_mem_children mem
      b.outline c (depth + 1)
    | ⟨.error e, _⟩ => [.failed e (depth + 1)]
termination_by b.structEnd - n.offset

/-- The reservations from `offset` on, up to the terminator. -/
def reservationsFrom (b : Blob) (offset : Nat) : Items Reservation :=
  if offset % 8 ≠ 0 then [.error ⟨.invalidReservation, offset⟩]
  else if b.header.structOffset < offset + Reservation.entrySize then
    [.error ⟨.reservationsNotTerminated, offset⟩]
  else
    let entry := Reservation.ofBytes (b.slice offset (offset + Reservation.entrySize))
    if entry = Reservation.terminator then []
    else .ok entry :: b.reservationsFrom (offset + Reservation.entrySize)
termination_by b.header.structOffset - offset
decreasing_by simp only [Reservation.entrySize] at *; omega

def reservations (b : Blob) : Items Reservation :=
  b.reservationsFrom b.header.reservationsOffset

end Blob

end DeviceTree
