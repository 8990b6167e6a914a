import DeviceTree.Proofs.Tree.Places
import DeviceTree.Proofs.Tree.RoundTrip

/-!
# Paths in a tree and in its blob

In a blob a component of a path leads to the first child that bears it as its full name, or whose
name it is without the unit address; in a tree the full name is asked for. A blob that gives the
answers of a tree finds a path at the place to which the first children that answer lead. The ways
of a tree and of its blob part only where an earlier sibling is taken by its shorter name.
-/
namespace DeviceTree

section FirstIndex

variable {α : Type} {p q : α → Bool} {l : List α} {i : Nat}

/-- The first index is the first in the range of all that leads to an accepted element. -/
theorem find?_range_eq_findIdx? :
    (List.range l.length).find? (fun i => l[i]?.any p) = l.findIdx? p := by
  refine Option.ext fun i => ?_
  rw [List.find?_range_eq_some, List.findIdx?_eq_some_iff_getElem, List.mem_range]
  constructor
  · rintro ⟨hp, hlt, hfront⟩
    refine ⟨hlt, by simpa [hlt] using hp, fun j hj => ?_⟩
    simpa [Nat.lt_trans hj hlt] using hfront j hj
  · rintro ⟨hlt, hp, hfront⟩
    refine ⟨by simpa [hlt] using hp, hlt, fun j hj => ?_⟩
    simpa [Nat.lt_trans hj hlt] using hfront j hj

theorem findIdx?_or (h : l.findIdx? p = some i)
    (hfront : (l.takeWhile (!p ·)).all (!q ·) = true) :
    l.findIdx? (fun a => p a || q a) = some i := by
  induction l generalizing i with
  | nil => simp at h
  | cons a l ih =>
    rw [List.findIdx?_cons] at h ⊢
    cases hp : p a with
    | true => simpa [hp] using h
    | false =>
      rw [hp, if_neg Bool.false_ne_true] at h
      obtain ⟨j, hj, rfl⟩ := Option.map_eq_some_iff.1 h
      rw [List.takeWhile_cons_of_pos (by simp [hp]), List.all_cons, Bool.and_eq_true] at hfront
      obtain ⟨hq, hfront⟩ := hfront
      rw [ih hj hfront]
      simpa using hq

end FirstIndex

namespace Tree

namespace Node

def isNamed (c : Node) (name : String) : Bool :=
  c.name = name

/-- The name is that of the node without its unit address. -/
def isNamedShort (c : Node) (name : String) : Bool :=
  !Text.hasUnit name && Text.withoutUnit c.name = name

def answersTo (c : Node) (name : String) : Bool :=
  c.isNamed name || c.isNamedShort name

/-- The place that is reached by taking the first child that accepts each name in turn. -/
def follow? (accepts : Node → String → Bool) (n : Node) : List String → Option (List Nat)
  | [] => some []
  | name :: names => do
    let i ← n.children.findIdx? (accepts · name)
    let c ← n.children[i]?
    return i :: (← c.follow? accepts names)

/-- On the way of the full names no earlier sibling has the name as its shorter one. -/
def unhidden (n : Node) : List String → Bool
  | [] => true
  | name :: names => (n.children.takeWhile (!·.isNamed name)).all (!·.isNamedShort name) &&
      (n.child? name).all (·.unhidden names)

variable {accepts : Node → String → Bool} {n m : Node} {names : List String} {place : List Nat}

theorem child?_eq (n : Node) (name : String) :
    n.child? name = (n.children.findIdx? (·.isNamed name)).bind (n.children[·]?) :=
  List.find?_eq_bind_findIdx?_getElem?

theorem follow?_cons_eq_some {name : String} :
    n.follow? accepts (name :: names) = some place ↔ ∃ i c below,
      n.children.findIdx? (accepts · name) = some i ∧ n.children[i]? = some c ∧
        c.follow? accepts names = some below ∧ place = i :: below := by
  simp only [follow?, bind, Option.bind_eq_some_iff, pure, Option.some.injEq]
  constructor
  · rintro ⟨i, hi, c, hc, below, hbelow, rfl⟩
    exact ⟨i, c, below, hi, hc, hbelow, rfl⟩
  · rintro ⟨i, c, below, hi, hc, hbelow, rfl⟩
    exact ⟨i, hi, c, hc, below, hbelow, rfl⟩

theorem exists_at?_of_follow? (h : n.follow? accepts names = some place) :
    ∃ m, n.at? place = some m := by
  induction names generalizing n place with
  | nil =>
    obtain rfl := Option.some.inj h
    exact ⟨n, rfl⟩
  | cons name names ih =>
    obtain ⟨i, c, below, -, hc, hbelow, rfl⟩ := follow?_cons_eq_some.1 h
    obtain ⟨m, hm⟩ := ih hbelow
    exact ⟨m, by rw [at?, hc]; exact hm⟩

/-- What is found by full names is what stands at the place to which they lead. -/
theorem descend?_eq_some_iff : n.descend? names = some m ↔
    ∃ place, n.follow? isNamed names = some place ∧ n.at? place = some m := by
  induction names generalizing n with
  | nil => simp [descend?, follow?, at?]
  | cons name names ih =>
    simp only [descend?, child?_eq, Option.bind_eq_some_iff, ih, follow?_cons_eq_some]
    constructor
    · rintro ⟨c, ⟨i, hi, hc⟩, below, hbelow, hm⟩
      exact ⟨i :: below, ⟨i, c, below, hi, hc, hbelow, rfl⟩, by rw [at?, hc]; exact hm⟩
    · rintro ⟨_, ⟨i, c, below, hi, hc, hbelow, rfl⟩, hm⟩
      rw [at?, hc] at hm
      exact ⟨c, ⟨i, hi, hc⟩, below, hbelow, hm⟩

/-- Where no earlier sibling is in the way, the full names lead to where they lead in a blob. -/
theorem follow?_answersTo (h : n.follow? isNamed names = some place)
    (hunhidden : n.unhidden names = true) : n.follow? answersTo names = some place := by
  induction names generalizing n place with
  | nil => exact h
  | cons name names ih =>
    obtain ⟨i, c, below, hi, hc, hbelow, rfl⟩ := follow?_cons_eq_some.1 h
    obtain ⟨hfront, hlater⟩ := (Bool.and_eq_true _ _).mp hunhidden
    have hchild : n.child? name = some c := by
      rw [child?_eq, hi]
      exact hc
    rw [hchild] at hlater
    exact follow?_cons_eq_some.2 ⟨i, c, below, findIdx?_or hi hfront, hc, ih hbelow hlater, rfl⟩

end Node

end Tree

namespace Blob

variable {b : Blob} {t m : Tree.Node} {locate : List Nat → Node} {place : List Nat}

namespace ReadsAs

variable (h : b.ReadsAs t locate)

include h

/-- The child of a name is the first one that answers to it. -/
theorem child_eq (hm : t.at? place = some m) (name : String) : b.child (locate place) name =
    .ok ((m.children.findIdx? (·.answersTo name)).map fun i => locate (place ++ [i])) := by
  have hchildren : b.children (locate place) = ((List.range m.children.length).map .ok).map
      (Except.map fun i => locate (place ++ [i])) := by
    rw [(h.answers place m hm).children, List.map_map]
    rfl
  rw [child, hchildren, Items.first?_map, Items.first?_map_ok
    (p := fun i => m.children[i]?.any (·.answersTo name)), find?_range_eq_findIdx?]
  · rfl
  · intro i hi
    have hlt := List.mem_range.1 hi
    have hc : t.at? (place ++ [i]) = some m.children[i] := by
      rw [Tree.Node.at?_snoc, hm]
      exact List.getElem?_eq_getElem hlt
    have hname := (h.answers _ _ hc).name
    rw [List.getElem?_eq_getElem hlt, Option.any_some, Tree.Node.answersTo, Tree.Node.isNamed,
      Tree.Node.isNamedShort, bareName, hname, ok_bind, ok_bind]
    by_cases hexact : m.children[i].name = name
    · simp [hexact, pure, Except.pure]
    · cases hunit : Text.hasUnit name with
      | true => simp [hexact, pure, Except.pure]
      | false => simp [hexact, pure, Except.pure, ok_bind, beq_eq_decide]

theorem descend_eq (hm : t.at? place = some m) (names : List String) :
    b.descend (locate place) names =
      .ok ((m.follow? Tree.Node.answersTo names).map fun below => locate (place ++ below)) := by
  induction names generalizing place m with
  | nil => simp [descend, Tree.Node.follow?, pure, Except.pure]
  | cons name names ih =>
    rw [descend, h.child_eq hm name, ok_bind, Tree.Node.follow?]
    cases hi : m.children.findIdx? (·.answersTo name) with
    | none => rfl
    | some i =>
      obtain ⟨hlt, -⟩ := List.findIdx?_eq_some_iff_getElem.1 hi
      have hc : m.children[i]? = some m.children[i] := List.getElem?_eq_getElem hlt
      have hbelow : t.at? (place ++ [i]) = some m.children[i] := by
        rw [Tree.Node.at?_snoc, hm]
        exact hc
      simp only [Option.map_some, ih hbelow, bind, hc, Option.bind_some, Option.map_bind]
      cases Tree.Node.follow? Tree.Node.answersTo m.children[i] names with
      | none => rfl
      | some below => simp

theorem findNode_eq (path : String) : b.findNode path = .ok (if Text.isAbsolute path then
    (t.follow? Tree.Node.answersTo (Text.components path)).map locate else none) := by
  rw [findNode]
  split
  · rw [h.root]
    exact h.descend_eq rfl _
  · rfl

end ReadsAs

end Blob

namespace Tree

theorem readTree_blob {t : Tree} (hsize : t.flatten.length < UInt32.size)
    (hfree : t.root.NulFree) : t.blob.readTree = .ok t.root := by
  have hblock : t.blob.structBlock = t.root.toBytes t.table ++ Token.finish.toCell.toBytes :=
    t.holds_structBlock.slice_eq
  have hroot : (t.root.toBytes t.table).length < UInt32.size := by
    have hlength : (t.root.toBytes t.table).length ≤ t.flatten.length := by
      simp only [flatten_eq, structBlock, List.length_append]
      omega
    omega
  exact readTree_of_form hblock (Node.form (listed_table hsize) (fun _ => mem_table) hroot) hfree

/-- In the blob of a tree a path leads from the root to the first child that answers to each
component in turn, if it starts with a slash. The node of the tree that the full names lead to is
found, unless an earlier sibling on the way has a component as its shorter name. -/
theorem findNode_flatten (t : Tree) (hsize : t.flatten.length < UInt32.size)
    (hfree : t.root.NulFree) :
    ∃ b, Blob.parse t.flatten.toArray = .ok b ∧ ∃ locate, b.ReadsAs t.root locate ∧ ∀ path,
      b.findNode path = .ok (if Text.isAbsolute path then
        (t.root.follow? Node.answersTo (Text.components path)).map locate else none) ∧
      (∀ place, t.root.follow? Node.answersTo (Text.components path) = some place →
        ∃ m, t.root.at? place = some m ∧ b.AnswersAs t.root locate place m) ∧
      ∀ m, t.node? path = some m → t.root.unhidden (Text.components path) = true →
        ∃ place, t.root.follow? Node.isNamed (Text.components path) = some place ∧
          t.root.at? place = some m ∧ b.findNode path = .ok (some (locate place)) := by
  obtain ⟨locate, hreads⟩ := Blob.readsAs_of_readTree (readTree_blob hsize hfree)
  refine ⟨t.blob, parse_flatten hsize, locate, hreads, fun path =>
    ⟨hreads.findNode_eq path, ?_, ?_⟩⟩
  · intro place hplace
    obtain ⟨m, hm⟩ := Node.exists_at?_of_follow? hplace
    exact ⟨m, hm, hreads.answers place m hm⟩
  · intro m hm hunhidden
    rw [node?] at hm
    split at hm
    case isFalse => cases hm
    case isTrue habsolute =>
      obtain ⟨place, hplace, hat⟩ := Node.descend?_eq_some_iff.1 hm
      refine ⟨place, hplace, hat, ?_⟩
      rw [hreads.findNode_eq, if_pos habsolute, Node.follow?_answersTo hplace hunhidden]
      rfl

/-- Either port is found by its full name, and the first of them also without its address. -/
theorem findNode_flatten_serialPorts :
    (serialPorts.flatten.length < UInt32.size ∧ serialPorts.root.NulFree) ∧
      ∃ b, Blob.parse serialPorts.flatten.toArray = .ok b ∧ ∃ locate,
        b.ReadsAs serialPorts.root locate ∧ b.findNode "/soc/uart" = .ok (some (locate [0, 0])) ∧
        b.findNode "//soc/uart@2000/" = .ok (some (locate [0, 1])) ∧
        b.findNode "soc" = .ok none := by
  have hsize : serialPorts.flatten.length < UInt32.size := by
    rw [length_flatten]
    set_option maxRecDepth 1000 in decide
  have hfree : serialPorts.root.NulFree := by decide
  obtain ⟨b, hparse, locate, hreads, hpaths⟩ := findNode_flatten serialPorts hsize hfree
  have hshort : serialPorts.root.follow? Node.answersTo (Text.components "/soc/uart") =
      some [0, 0] := by decide
  have hfull : serialPorts.root.follow? Node.answersTo (Text.components "//soc/uart@2000/") =
      some [0, 1] := by decide
  refine ⟨⟨hsize, hfree⟩, b, hparse, locate, hreads, ?_, ?_, ?_⟩
  · rw [(hpaths _).1, hshort]
    rfl
  · rw [(hpaths _).1, hfull]
    rfl
  · exact (hpaths "soc").1

end Tree

end DeviceTree
