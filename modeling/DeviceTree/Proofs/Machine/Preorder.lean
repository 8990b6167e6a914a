import DeviceTree.Proofs.Blob.Preorder
import DeviceTree.Proofs.Machine.Safety

/-!
# One tree in two traversals

The walk on the machine counts the open nodes, and finds the parent of a node as the last node one
level up. On an accepted blob it yields the nodes that are reached from the root through the
children, if these can all be reached, in the order and with the depths of that traversal. Parents
and paths agree with it.
-/
namespace DeviceTree.Machine

/-- The walk over `data` and the way down from `root` through the children tell of one tree. -/
structure Traversed (data : List UInt8) (b : Blob) (root : Node) (visits : List Visit) : Prop where
  visits_eq : b.walk = visits.map .ok
  outline_eq : visits.map Outline.ofVisit = b.outline root 0
  nodup : (visits.map Visit.node).Nodup
  walk : (walk data).Drains (visits.map fun v => .ok (v.node, v.ancestors.length))
  parent_root : parent data root = returns (.ok none)
  path_root : path data root = returns (.ok "/")
  parent_child : ∀ v ∈ visits, ∀ c, .ok c ∈ b.children v.node →
    parent data c = returns (.ok (some v.node))
  path_child : ∀ v ∈ visits, ∀ c, .ok c ∈ b.children v.node →
    ∃ name above, nodeName data c.offset = returns (.ok name) ∧
      path data v.node = returns (.ok above) ∧
      path data c = returns (.ok ((if v.node = root then "" else above) ++ "/" ++ name))

/-- If going down from the root meets no failure, neither does the walk, and it goes the same way;
the parent and the path of a child are made from the node that has it. -/
theorem traversed_of_whole {bytes : Array UInt8} {b : Blob} {root : Node}
    (h : Blob.parse bytes = .ok b) (hroot : b.root = .ok root) (hwhole : b.Whole root) :
    ∃ visits, Traversed bytes.toList b root visits := by
  obtain ⟨rfl, -, -⟩ := Blob.parse_eq_ok h
  have hb : b.Accepted := h
  obtain ⟨visits, hwalk, hshown⟩ := hwhole.exists_visits hroot
  have hmetRoot := hwhole.met_root hroot
  have hmet : ∀ v ∈ visits, b.Met v.node v.ancestors := fun v => Blob.met_of_mem_visits hwalk
  refine ⟨visits, ?_⟩
  constructor
  case visits_eq => exact hwalk
  case outline_eq => exact hshown
  case nodup => exact Blob.nodup_visits hwalk
  case walk =>
    have hdrains := (walk_yields hb).drains
    rwa [hwalk, List.map_map] at hdrains
  case parent_root => rw [parent_eq hb, Blob.parent_eq_ok_iff.2 ⟨[], hmetRoot, rfl⟩, List.head?_nil]
  case path_root => rw [path_eq hb, hmetRoot.path_root]
  case parent_child =>
    intro v hv c hc
    rw [parent_eq hb, Blob.parent_eq_ok_iff.2 ⟨_, (hmet v hv).child hc, rfl⟩, List.head?_cons]
  case path_child =>
    intro v hv c hc
    obtain ⟨name, above, hname, habove, hpath⟩ := (hmet v hv).path_child hc
    have hoffset : c.offset < 2 * UInt32.size :=
      lt_of_fits hb (Blob.Reached.walk ((hmet v hv).child hc).mem_walk).fits
    refine ⟨name, above, ?_, by rw [path_eq hb, habove], ?_⟩
    · rw [nodeName_eq hb hoffset]
      exact congrArg returns hname
    · simp only [path_eq hb, hpath, (hmet v hv).eq_root_iff hmetRoot]

def unclosedHeader : Header where
  magic := Header.magicNumber
  totalSize := 109
  structOffset := 40
  stringsOffset := 108
  reservationsOffset := 40
  version := 17
  lastCompatibleVersion := 16
  bootCpu := 0
  stringsSize := 1
  structSize := 68

/-- A root with a filler before it, a property, a child that has a child, and one more child. The
block ends before the root is closed. -/
def unclosed : Array UInt8 :=
  (unclosedHeader.toBytes ++
    [4, 1, 0, 3, 0, 0, 4, 1, 0x61000000, 1, 0x62000000, 2, 2, 1, 0x63000000, 2, 9].flatMap
      (bigEndian 4) ++ [0]).toArray

def unclosedBlob : Blob where
  bytes := unclosed
  header := unclosedHeader
  layout := ⟨by decide, by decide, by decide +kernel, by decide⟩

theorem traversed_unclosed :
    Blob.parse unclosed = .ok unclosedBlob ∧ unclosedBlob.root = .ok ⟨44⟩ ∧
      unclosedBlob.Whole ⟨44⟩ ∧
      ∃ visits, Traversed unclosed.toList unclosedBlob ⟨44⟩ visits ∧ visits.length = 4 := by
  have hfront : Header.ofBytes? (unclosed.toList.take Header.size) = some unclosedHeader := by
    decide +kernel
  have hparse : Blob.parse unclosed = .ok unclosedBlob :=
    Blob.parse_eq hfront rfl (by decide) (by decide +kernel) unclosedBlob.layout
  have hroot : unclosedBlob.root = .ok ⟨44⟩ := eq_ok_of_any (by decide +kernel)
  have hwhole : unclosedBlob.Whole ⟨44⟩ := by decide +kernel
  have hlines : (unclosedBlob.outline ⟨44⟩ 0).length = 4 := by decide +kernel
  obtain ⟨visits, htraversed⟩ := traversed_of_whole hparse hroot hwhole
  refine ⟨hparse, hroot, hwhole, visits, htraversed, ?_⟩
  rw [← hlines, ← htraversed.outline_eq, List.length_map]

end DeviceTree.Machine
