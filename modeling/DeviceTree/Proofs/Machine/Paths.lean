import Mathlib.Logic.Relation
import DeviceTree.Proofs.Machine.Preorder
import DeviceTree.Proofs.Tree.Paths

/-!
# Paths that lead back

The path of a node is spelled from the names of the nodes that are open around it, and a path is
followed from the root through the children. The second undoes the first where each name on the way
is a component of its own and tells its node from the siblings in front of it. A sibling in front
that bears the name with a unit address would be taken for it.
-/
namespace DeviceTree

namespace Text

private theorem components_append_slash (path rest : String) :
    components (path ++ "/" ++ rest) = components path ++ components rest := by
  have hslash : (path ++ "/" ++ rest).toList = path.toList ++ '/' :: rest.toList := by simp
  rw [components, hslash, List.splitOn, List.splitOnP_append_cons _ _ (by simp), List.filter_append,
    List.map_append]
  rfl

theorem components_of_not_mem {name : String} (hne : name ≠ "") (hslash : '/' ∉ name.toList) :
    components name = [name] := by
  have hsingle : name.toList.splitOn '/' = [name.toList] := by
    refine List.splitOnP_eq_singleton fun c hc => ?_
    simpa using fun heq : c = '/' => hslash (heq ▸ hc)
  have hfilled : name.toList ≠ [] := by simpa using hne
  rw [components, hsingle, List.filter_cons_of_pos (by simpa using hfilled), List.filter_nil,
    List.map_singleton, String.ofList_toList]

theorem isAbsolute_append {path : String} (h : isAbsolute path = true) (rest : String) :
    isAbsolute (path ++ rest) = true := by
  rw [isAbsolute, decide_eq_true_eq] at *
  rw [String.toList_append, List.head?_append, h]
  rfl

end Text

namespace Blob

variable {b : Blob} {n c root : Node} {line : List Node}

/-- A path can name the child `c` of `n`, and no child in front of it has the name, in full or, if
it has no unit address, without its own. -/
def Tells (b : Blob) (n c : Node) : Prop :=
  ∃ (name : String) (front : List Node) (rest : Items Node),
    b.children n = front.map .ok ++ .ok c :: rest ∧
    b.name c = .ok name ∧ name ≠ "" ∧ '/' ∉ name.toList ∧
    ∀ s ∈ front, ∀ other, b.name s = .ok other →
      other ≠ name ∧ (Text.hasUnit name = false → Text.withoutUnit other ≠ name)

theorem descend_append (b : Blob) (n : Node) (names later : List String) :
    b.descend n (names ++ later) = (do
      match ← b.descend n names with
      | some c => b.descend c later
      | none => return none) := by
  induction names generalizing n with
  | nil => rfl
  | cons name names ih =>
    rw [List.cons_append, descend, descend, bind_assoc]
    refine bind_congr fun found => ?_
    cases found with
    | none => rfl
    | some c => exact ih c

private theorem child_eq_of_front {front : List Node} {rest : Items Node} {name : String}
    (hchildren : b.children n = front.map .ok ++ .ok c :: rest) (hname : b.name c = .ok name)
    (hfront : ∀ s ∈ front, ∃ other, b.name s = .ok other ∧ other ≠ name ∧
      (Text.hasUnit name = false → Text.withoutUnit other ≠ name)) :
    b.child n name = .ok (some c) := by
  rw [child, hchildren, Items.first?_append, Items.first?_cons_of_accept]
  · rw [hname, ok_bind, if_pos rfl]
    rfl
  · intro s hs
    obtain ⟨other, hother, hne, hbare⟩ := hfront s hs
    rw [hother, ok_bind, if_neg hne]
    cases hunit : Text.hasUnit name with
    | true => rfl
    | false =>
      simp only [Bool.false_eq_true, if_false, bareName, hother, ok_bind]
      exact congrArg Except.ok (beq_false_of_ne (hbare hunit))

/-- A child that can be told from its siblings is found by its name, which is one component. -/
theorem Tells.exists_child_eq (h : b.Tells n c) (hmet : b.Met n line) :
    ∃ name, b.name c = .ok name ∧ .ok c ∈ b.children n ∧ b.child n name = .ok (some c) ∧
      Text.components name = [name] := by
  obtain ⟨name, front, rest, hchildren, hname, hne, hslash, hfront⟩ := h
  have hmem : .ok c ∈ b.children n := by
    rw [hchildren]
    exact List.mem_append_right _ List.mem_cons_self
  refine ⟨name, hname, hmem, child_eq_of_front hchildren hname fun s hs => ?_,
    Text.components_of_not_mem hne hslash⟩
  have hs' : .ok s ∈ b.children n := by
    rw [hchildren]
    exact List.mem_append_left _ (List.mem_map_of_mem hs)
  obtain ⟨other, hother⟩ := (hmet.child hs').exists_name
  exact ⟨other, hother, hfront s hs other hother⟩

/-- The root's own path is a slash alone, of which nothing is left in front of its children; that
leaves the components as they are. -/
theorem Met.components_front {path : String} (h : b.Met n line) (hpath : b.path n = .ok path)
    (habsolute : Text.isAbsolute path = true) :
    Text.components (if line = [] then "" else path) = Text.components path ∧
      Text.isAbsolute ((if line = [] then "" else path) ++ "/") = true := by
  split
  case isFalse => exact ⟨rfl, Text.isAbsolute_append habsolute _⟩
  case isTrue hline =>
    subst hline
    obtain rfl := Except.ok.inj (hpath.symm.trans h.path_root)
    exact ⟨rfl, rfl⟩

/-- On the way down each step adds a component to the path, and following the path takes it. -/
theorem exists_path_of_tells (hroot : b.Met root []) (hway : Relation.ReflTransGen b.Tells root n) :
    ∃ line path, b.Met n line ∧ b.path n = .ok path ∧ Text.isAbsolute path = true ∧
      b.descend root (Text.components path) = .ok (some n) := by
  induction hway with
  | refl => exact ⟨[], "/", hroot, hroot.path_root, rfl, rfl⟩
  | @tail n c _ htells ih =>
    obtain ⟨line, path, hmet, hpath, habsolute, hdescend⟩ := ih
    obtain ⟨name, hname, hmem, hchild, hcomponents⟩ := htells.exists_child_eq hmet
    obtain ⟨name', above, hname', habove, hpath'⟩ := hmet.path_child hmem
    obtain rfl := Except.ok.inj (hname.symm.trans hname')
    obtain rfl := Except.ok.inj (hpath.symm.trans habove)
    obtain ⟨hfirst, habsolute'⟩ := hmet.components_front hpath habsolute
    refine ⟨n :: line, _, hmet.child hmem, hpath', Text.isAbsolute_append habsolute' _, ?_⟩
    rw [Text.components_append_slash, hcomponents, hfirst, descend_append, hdescend, ok_bind]
    simp only [descend, hchild, ok_bind]
    rfl

end Blob

namespace Machine

/-- In a blob that is read down from the root without a failure, the path of a node leads back to it
if each name on the way tells its node from the siblings in front of it. -/
theorem findNode_path {bytes : Array UInt8} {b : Blob} {root n : Node}
    (h : Blob.parse bytes = .ok b) (hroot : b.root = .ok root) (hwhole : b.Whole root)
    (hway : Relation.ReflTransGen b.Tells root n) :
    ∃ p, b.path n = .ok p ∧ b.findNode p = .ok (some n) ∧
      path bytes.toList n = returns (.ok p) ∧ findNode bytes.toList p = returns (.ok (some n)) := by
  obtain ⟨rfl, -, -⟩ := Blob.parse_eq_ok h
  have hb : b.Accepted := h
  obtain ⟨line, p, -, hpath, habsolute, hdescend⟩ :=
    Blob.exists_path_of_tells (hwhole.met_root hroot) hway
  have hfind : b.findNode p = .ok (some n) := by
    rw [Blob.findNode, if_pos habsolute, hroot, ok_bind, hdescend]
  refine ⟨p, hpath, hfind, ?_, ?_⟩
  · rw [path_eq hb, hpath]
  · rw [findNode_eq hb, hfind]

/-- The second port stands behind one whose name differs in the unit address alone. -/
theorem findNode_path_serialPorts :
    Blob.parse Tree.serialPorts.flatten.toArray = .ok Tree.serialPorts.blob ∧
      Tree.serialPorts.blob.root = .ok ⟨72⟩ ∧ Tree.serialPorts.blob.Whole ⟨72⟩ ∧
      Relation.ReflTransGen Tree.serialPorts.blob.Tells ⟨72⟩ ⟨184⟩ ∧
      findNode Tree.serialPorts.flatten "/soc/uart@2000" = returns (.ok (some ⟨184⟩)) := by
  let b := Tree.serialPorts.blob
  have hsize : Tree.serialPorts.flatten.length < UInt32.size := by decide +kernel
  have hparse : Blob.parse Tree.serialPorts.flatten.toArray = .ok b := Tree.parse_flatten hsize
  have hroot : b.root = .ok ⟨72⟩ := eq_ok_of_any (by decide +kernel)
  have hread : b.readTree = .ok Tree.serialPorts.root :=
    Tree.readTree_blob hsize (by decide +kernel)
  rw [Blob.readTree, hroot, ok_bind] at hread
  have hwhole : b.Whole ⟨72⟩ := Blob.whole_of_readNode hread
  have hname : ∀ n text, (b.name n).toOption = some text → b.name n = .ok text :=
    fun n text h => eq_ok_of_any (by simp [h])
  have hsoc : b.Tells ⟨72⟩ ⟨108⟩ :=
    ⟨"soc", [], [.ok ⟨240⟩], by decide +kernel, hname _ _ (by decide +kernel), by decide, by decide,
      by simp⟩
  have huart : b.Tells ⟨108⟩ ⟨184⟩ := by
    refine ⟨"uart@2000", [⟨144⟩], [], by decide +kernel, hname _ _ (by decide +kernel), by decide,
      by decide, ?_⟩
    have hfirst := hname ⟨144⟩ "uart@1000" (by decide +kernel)
    simp only [List.mem_singleton, forall_eq, hfirst, Except.ok.injEq, forall_eq']
    exact ⟨by decide, by decide⟩
  have hway : Relation.ReflTransGen b.Tells ⟨72⟩ ⟨184⟩ := .tail (.single hsoc) huart
  have hpath : b.path ⟨184⟩ = .ok "/soc/uart@2000" := eq_ok_of_any (by decide +kernel)
  obtain ⟨p, hp, -, -, hfind⟩ := findNode_path hparse hroot hwhole hway
  obtain rfl := Except.ok.inj (hpath.symm.trans hp)
  exact ⟨hparse, hroot, hwhole, hway, hfind⟩

end Machine

end DeviceTree
