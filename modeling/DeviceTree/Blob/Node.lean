import DeviceTree.Blob.Property
import DeviceTree.Blob.Token

/-!
# Nodes of a blob

A node is the offset of its token; its name, properties and children are read from the blob. The
scans go over the tokens inside the node once, and stop with the first failure.
-/
namespace DeviceTree

structure Node where
  offset : Nat
deriving DecidableEq, Repr

/-- A node together with where its blob lies in memory; two of them are the same node of the same
blob, or different ones whatever their blobs hold. -/
structure PlacedNode where
  base : Nat
  size : Nat
  node : Node
deriving DecidableEq, Repr

namespace Blob

def placed (b : Blob) (base : Nat) (n : Node) : PlacedNode where
  base := base
  size := b.size
  node := n

theorem placed_inj {b : Blob} {base : Nat} {m n : Node} :
    b.placed base m = b.placed base n ↔ m = n := by
  simp [placed]

/-- Blobs that lie apart have no node in common. -/
theorem placed_ne {b c : Blob} {base there : Nat} {m n : Node} (hm : m.offset < b.size)
    (hapart : base + b.size ≤ there ∨ there + c.size ≤ base) :
    b.placed base m ≠ c.placed there n := by
  intro heq
  obtain ⟨rfl, hsize, -⟩ := PlacedNode.mk.inj heq
  omega

def name (b : Blob) (n : Node) : Except ParseError String :=
  b.nodeName n.offset

/-- The name without its unit address. -/
def bareName (b : Blob) (n : Node) : Except ParseError String :=
  return Text.withoutUnit (← b.name n)

def propertyAt (b : Blob) (offset : Nat) : Except ParseError Property := do
  let header ← b.propertyHeader offset
  let name ← b.propertyName header.nameOffset
  let start := offset + 3 * Cell.size
  return { name, value := b.slice start (start + header.length), valueOffset := start }

/-- The properties from `offset` on, up to the first token of another kind. -/
def propertiesFrom (b : Blob) (offset : Nat) : Items Property :=
  match at_ : b.token offset with
  | .error e => [.error e]
  | .ok .property =>
    match after : b.afterProperty offset with
    | .error e => [.error e]
    | .ok next =>
      have := add_le_of_token at_
      have := lt_of_afterProperty after
      match b.propertyAt offset with
      | .error e => [.error e]
      | .ok property => .ok property :: b.propertiesFrom next
  | .ok .nop =>
    have := add_le_of_token at_
    b.propertiesFrom (offset + Cell.size)
  | .ok _ => []
termination_by b.structEnd - offset
decreasing_by all_goals simp only [Cell.size] at *; omega

def properties (b : Blob) (n : Node) : Items Property :=
  match b.contents n.offset with
  | .error e => [.error e]
  | .ok inside => b.propertiesFrom inside

/-- The first property called `name`. -/
def property (b : Blob) (n : Node) (name : String) : Except ParseError (Option Property) :=
  (b.properties n).first? fun p => return p.name == name

/-- The nodes from `offset` on, up to the end of the node around them. -/
def childrenFrom (b : Blob) (offset : Nat) : Items Node :=
  match at_ : b.token offset with
  | .error e => [.error e]
  | .ok .beginNode =>
    match after : b.afterNode offset with
    | .error e => [.error e]
    | .ok next =>
      have := add_le_of_token at_
      have := lt_of_afterNode after
      .ok ⟨offset⟩ :: b.childrenFrom next
  | .ok .property =>
    match after : b.afterProperty offset with
    | .error e => [.error e]
    | .ok next =>
      have := add_le_of_token at_
      have := lt_of_afterProperty after
      b.childrenFrom next
  | .ok .nop =>
    have := add_le_of_token at_
    b.childrenFrom (offset + Cell.size)
  | .ok _ => []
termination_by b.structEnd - offset
decreasing_by all_goals simp only [Cell.size] at *; omega

def children (b : Blob) (n : Node) : Items Node :=
  match b.contents n.offset with
  | .error e => [.error e]
  | .ok inside => b.childrenFrom inside

/-- The first child called `name`; a name without a unit address also stands for a child that has
one. -/
def child (b : Blob) (n : Node) (name : String) : Except ParseError (Option Node) :=
  (b.children n).first? fun c => do
    if (← b.name c) = name then return true
    if Text.hasUnit name then return false
    return (← b.bareName c) == name

theorem bounds_of_mem_childrenFrom {b : Blob} {offset : Nat} {c : Node}
    (h : .ok c ∈ b.childrenFrom offset) : offset ≤ c.offset ∧ c.offset < b.structEnd := by
  fun_induction childrenFrom b offset with
  | case1 | case2 | case4 | case7 => simp at h
  | case3 offset at_ next after le lt ih =>
    have : Cell.size = 4 := rfl
    simp only [List.mem_cons, Except.ok.injEq] at h
    rcases h with rfl | h
    · simp only
      omega
    · have := ih h
      omega
  | case5 offset at_ next after le lt ih =>
    have := ih h
    omega
  | case6 offset at_ le ih =>
    have := ih h
    omega

theorem bounds_of_mem_children {b : Blob} {n c : Node} (h : .ok c ∈ b.children n) :
    n.offset < c.offset ∧ c.offset < b.structEnd := by
  unfold children at h
  cases hc : b.contents n.offset with
  | error e => simp [hc] at h
  | ok inside =>
    have := lt_of_contents hc
    have := bounds_of_mem_childrenFrom (by simpa [hc] using h)
    omega

end Blob

end DeviceTree
