import DeviceTree.Proofs.Blob.Order
import DeviceTree.Proofs.Value.Encoders
import DeviceTree.Standard.Properties

/-!
# The node that a phandle names

Nothing keeps two nodes from bearing one phandle, or a node from a phandle that cannot be read. A
phandle names the first node in the order of the tree that bears it, if nothing fails on the way
there; what comes after that node is of no account.
-/
namespace DeviceTree

namespace Blob

variable {b : Blob} {n : Node} {p : UInt32}

/-- The node has the property `name`, and its value is the one cell `p`. -/
def HoldsCell (b : Blob) (n : Node) (name : String) (p : UInt32) : Prop :=
  ∃ found, b.property n name = .ok (some found) ∧ found.value = Cell.toBytes p

/-- The phandle of the node is `p`: its `phandle` says so, or where that is absent its
`linux,phandle`. -/
def Bears (b : Blob) (n : Node) (p : UInt32) : Prop :=
  b.HoldsCell n "phandle" p ∨ b.property n "phandle" = .ok none ∧ b.HoldsCell n "linux,phandle" p

/-- Of the nodes that going down comes to, `n` is the first one whose phandle is `p`. Nothing fails
on the way to `n`, nor where the phandles of the nodes before it are looked up. -/
def FirstBears (b : Blob) (n : Node) (p : UInt32) : Prop :=
  ∃ earlier, b.ComesTo n earlier ∧ b.Bears n p ∧ ∀ m depth, .node m depth ∈ earlier →
    ¬b.Bears m p ∧ ∃ found, b.phandle m = .ok found

theorem phandle_eq_ok_some_iff : b.phandle n = .ok (some p) ↔ b.Bears n p := by
  have hcell : ∀ property : Property,
      (return some (← property.asCell) : Except ParseError (Option UInt32)) = .ok (some p) ↔
        property.value = Cell.toBytes p := by
    intro property
    rw [← Property.asCell_eq_ok_iff, bind_eq_ok_iff]
    simp [pure, Except.pure]
  rw [phandle, phandleProperty, Bears, HoldsCell, HoldsCell]
  cases b.property n "phandle" with
  | error e => simp [error_bind]
  | ok found =>
    cases found with
    | some property => simpa [ok_bind, pure, Except.pure] using hcell property
    | none =>
      cases b.property n "linux,phandle" with
      | error e => simp [ok_bind, error_bind]
      | ok older =>
        cases older with
        | some property => simpa [ok_bind] using hcell property
        | none => simp [ok_bind, pure, Except.pure]

/-- A search for a phandle finds the first node that bears it. -/
theorem nodeByPhandle_eq_ok_some_iff (hp : isReservedPhandle p = false) :
    b.nodeByPhandle p = .ok (some n) ↔ b.FirstBears n p := by
  have haccept : ∀ v : Visit, (return (← b.phandle v.node) == some p : Except ParseError Bool) =
      .ok true ↔ b.Bears v.node p := by
    intro v
    rw [← phandle_eq_ok_some_iff, bind_eq_ok_iff]
    simp [pure, Except.pure]
  have hpass : ∀ v : Visit, (return (← b.phandle v.node) == some p : Except ParseError Bool) =
      .ok false ↔ ¬b.Bears v.node p ∧ ∃ found, b.phandle v.node = .ok found := by
    intro v
    rw [← phandle_eq_ok_some_iff]
    cases b.phandle v.node with
    | error e => simp
    | ok found => simp [ok_bind, pure, Except.pure]
  simp only [nodeByPhandle, hp, Bool.false_eq_true, if_false]
  rw [bind_eq_ok_iff]
  constructor
  · rintro ⟨found, hfirst, hfound⟩
    obtain ⟨v, rfl, rfl⟩ : ∃ v, found = some v ∧ v.node = n := by
      simpa [pure, Except.pure] using hfound
    obtain ⟨passed, rest, hwalk, hpassed, hv⟩ := Items.first?_eq_ok_some_iff.1 hfirst
    refine ⟨passed.map Outline.ofVisit, comesTo_iff.2 ⟨passed, v.ancestors, rest, hwalk, rfl⟩,
      (haccept v).1 hv, fun m depth hm => ?_⟩
    obtain ⟨w, hw, heq⟩ := List.mem_map.1 hm
    obtain ⟨rfl, -⟩ : w.node = m ∧ w.ancestors.length = depth := by
      simpa [Outline.ofVisit] using heq
    exact (hpass w).1 (hpassed w hw)
  · rintro ⟨earlier, hcomes, hbears, hearlier⟩
    obtain ⟨passed, line, rest, hwalk, rfl⟩ := comesTo_iff.1 hcomes
    refine ⟨some ⟨n, line⟩, Items.first?_eq_ok_some_iff.2 ⟨passed, rest, hwalk, fun w hw => ?_, ?_⟩,
      rfl⟩
    · exact (hpass w).2 (hearlier w.node w.ancestors.length (List.mem_map.2 ⟨w, hw, rfl⟩))
    · exact (haccept ⟨n, line⟩).2 hbears

end Blob

end DeviceTree
