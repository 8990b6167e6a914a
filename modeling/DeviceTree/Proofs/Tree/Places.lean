import Mathlib.Data.List.Find
import Mathlib.Data.List.Induction
import Mathlib.Data.List.Nodup
import DeviceTree.Proofs.Blob.Preorder
import DeviceTree.Proofs.Tree.Layout
import DeviceTree.Proofs.Tree.Reading
import DeviceTree.Standard.Properties

/-!
# The places of a tree

A node of a tree has no offset; its place is the way to it from the root, as the positions of
children. `places` lists them in preorder, and names, paths and phandles are told of a place. The
same ways lead down in a blob. If a tree was read from a blob, the node at each place in the one
answers as the node at this place in the other, and so does the search for a phandle.
-/
namespace DeviceTree

namespace Tree

mutual

/-- The places of the nodes in preorder. -/
def Node.places : Node → List (List Nat)
  | ⟨_, _, children⟩ => [] :: allPlaces 0 children

/-- The places below `nodes`, of which the first is at position `first`. -/
def allPlaces (first : Nat) : List Node → List (List Nat)
  | [] => []
  | n :: rest => n.places.map (first :: ·) ++ allPlaces (first + 1) rest

end

namespace Node

def at? (n : Node) : List Nat → Option Node
  | [] => some n
  | i :: place => n.children[i]?.bind fun c => c.at? place

/-- The names on the way to a place, that of `n` left out. -/
def namesTo (n : Node) : List Nat → List String
  | [] => []
  | i :: place =>
    match n.children[i]? with
    | some c => c.name :: c.namesTo place
    | none => []

def pathTo (n : Node) (place : List Nat) : String :=
  if place = [] then "/" else String.join ((n.namesTo place).map ("/" ++ ·))

def phandleProperty? (n : Node) : Option Property :=
  n.property? "phandle" <|> n.property? "linux,phandle"

def phandle? (n : Node) : Option UInt32 :=
  n.phandleProperty?.map fun p => UInt32.ofNat (ofBigEndian p.value)

/-- The phandle of each node that has one is a single cell. -/
def CellPhandles (n : Node) : Prop :=
  ∀ place m, n.at? place = some m →
    ∀ p, m.phandleProperty? = some p → p.value.length = Cell.size

/-- The place of the first node whose phandle is `handle`. -/
def placeOfPhandle? (n : Node) (handle : UInt32) : Option (List Nat) :=
  if Blob.isReservedPhandle handle then none
  else n.places.find? fun place => (n.at? place).bind phandle? = some handle

end Node

variable {n c m : Node} {place : List Nat} {i first : Nat} {nodes : List Node}

theorem Node.at?_append (n : Node) (place later : List Nat) :
    n.at? (place ++ later) = (n.at? place).bind (·.at? later) := by
  induction place generalizing n with
  | nil => rfl
  | cons i place ih =>
    rw [List.cons_append, at?, at?]
    cases n.children[i]? with
    | none => rfl
    | some c => exact ih c

theorem Node.at?_snoc : n.at? (place ++ [i]) = (n.at? place).bind (·.children[i]?) := by
  rw [at?_append]
  cases n.at? place with
  | none => rfl
  | some m => simp [at?]

theorem Node.namesTo_snoc (hm : n.at? place = some m) (hc : m.children[i]? = some c) :
    n.namesTo (place ++ [i]) = n.namesTo place ++ [c.name] := by
  induction place generalizing n with
  | nil =>
    obtain rfl := Option.some.inj hm
    simp [namesTo, hc]
  | cons j place ih =>
    obtain ⟨below, hbelow, hm⟩ := Option.bind_eq_some_iff.1 hm
    simp [namesTo, hbelow, ih hm]

theorem Node.length_namesTo (hm : n.at? place = some m) :
    (n.namesTo place).length = place.length := by
  induction place generalizing n with
  | nil => rfl
  | cons i place ih =>
    obtain ⟨below, hbelow, hm⟩ := Option.bind_eq_some_iff.1 hm
    simp [namesTo, hbelow, ih hm]

mutual

theorem Node.mem_places_iff : ∀ {n : Node} {place : List Nat},
    place ∈ n.places ↔ (n.at? place).isSome
  | ⟨_, _, children⟩, place => by
    rw [Node.places, List.mem_cons, mem_allPlaces_iff]
    cases place with
    | nil => simp [Node.at?]
    | cons i place => simp [Node.at?]

theorem mem_allPlaces_iff : ∀ {nodes : List Node} {first : Nat} {place : List Nat},
    place ∈ allPlaces first nodes ↔
      ∃ i below, place = (first + i) :: below ∧ (nodes[i]?.bind (·.at? below)).isSome
  | [], first, place => by simp [allPlaces]
  | n :: rest, first, place => by
    rw [allPlaces, List.mem_append, List.mem_map, mem_allPlaces_iff]
    constructor
    · rintro (⟨below, hbelow, rfl⟩ | ⟨i, below, rfl, hbelow⟩)
      · exact ⟨0, below, rfl, Node.mem_places_iff.1 hbelow⟩
      · exact ⟨i + 1, below, by rw [Nat.add_assoc, Nat.add_comm 1 i], hbelow⟩
    · rintro ⟨_ | i, below, rfl, hbelow⟩
      · exact .inl ⟨below, Node.mem_places_iff.2 hbelow, rfl⟩
      · exact .inr ⟨i, below, by rw [Nat.add_assoc, Nat.add_comm 1 i], hbelow⟩

end

end Tree

namespace Blob

variable {b : Blob} {n c root : Node} {m t below : Tree.Node} {place : List Nat} {i : Nat}

/-- The node at the end of a way down from `n`, or the last one on it if it leads nowhere. -/
def locate (b : Blob) (n : Node) : List Nat → Node
  | [] => n
  | i :: place =>
    match (b.children n)[i]? with
    | some (.ok c) => b.locate c place
    | _ => n

theorem locate_cons (hc : (b.children n)[i]? = some (.ok c)) :
    b.locate n (i :: place) = b.locate c place := by
  rw [locate, hc]

theorem exists_child_of_readNode (h : b.readNode n = .ok m) (hbelow : m.children[i]? = some below) :
    ∃ c, (b.children n)[i]? = some (.ok c) ∧ b.readNode c = .ok below := by
  obtain ⟨-, -, nodes, hnodes, hread⟩ := readNode_eq_ok_iff.1 h
  obtain ⟨hi, rfl⟩ := List.getElem?_eq_some_iff.1 hbelow
  have hlt : i < nodes.length := hread.length_eq ▸ hi
  refine ⟨nodes[i], ?_, hread.get hlt hi⟩
  rw [hnodes, List.getElem?_map, List.getElem?_eq_getElem hlt]
  rfl

theorem readNode_locate (h : b.readNode n = .ok m) (hbelow : m.at? place = some below) :
    b.readNode (b.locate n place) = .ok below := by
  induction place generalizing n m with
  | nil =>
    obtain rfl := Option.some.inj hbelow
    exact h
  | cons i place ih =>
    obtain ⟨child, hchild, hbelow⟩ := Option.bind_eq_some_iff.1 hbelow
    obtain ⟨c, hc, hread⟩ := exists_child_of_readNode h hchild
    rw [locate_cons hc]
    exact ih hread hbelow

theorem locate_snoc (h : b.readNode n = .ok m) (hm : m.at? place = some below)
    (hc : (b.children (b.locate n place))[i]? = some (.ok c)) : b.locate n (place ++ [i]) = c := by
  induction place generalizing n m with
  | nil => exact locate_cons hc
  | cons j place ih =>
    obtain ⟨child, hchild, hm⟩ := Option.bind_eq_some_iff.1 hm
    obtain ⟨d, hd, hread⟩ := exists_child_of_readNode h hchild
    rw [locate_cons hd] at hc
    rw [List.cons_append, locate_cons hd]
    exact ih hread hm hc

mutual

theorem outline_eq_places : ∀ {m : Tree.Node} {n : Node} (depth : Nat), b.readNode n = .ok m →
    b.outline n depth = m.places.map fun place => .node (b.locate n place) (depth + place.length)
  | ⟨_, _, children⟩, n, depth, h => by
    obtain ⟨-, -, nodes, hnodes, hread⟩ := readNode_eq_ok_iff.1 h
    rw [outline_of_children hnodes, Tree.Node.places, List.map_cons,
      outlines_eq_places [] depth hnodes hread]
    rfl

theorem outlines_eq_places : ∀ {children : List Tree.Node} {n : Node} {nodes : List Node}
    (front : List Node) (depth : Nat), b.children n = (front ++ nodes).map .ok →
    List.Forall₂ (b.readNode · = .ok ·) nodes children →
      nodes.flatMap (b.outline · (depth + 1)) = (Tree.allPlaces front.length children).map
        fun place => .node (b.locate n place) (depth + place.length)
  | [], n, nodes, front, depth, hall, hread => by
    obtain rfl := List.forall₂_nil_right_iff.1 hread
    rfl
  | m :: children, n, nodes, front, depth, hall, hread => by
    obtain ⟨c, later, hc, hlater, rfl⟩ := List.forall₂_cons_right_iff.1 hread
    have hfirst : (b.children n)[front.length]? = some (.ok c) := by
      rw [hall, List.getElem?_map, List.getElem?_append_right (Nat.le_refl _), Nat.sub_self]
      rfl
    have hrest := outlines_eq_places (front ++ [c]) depth (by simpa using hall) hlater
    rw [List.length_append, List.length_singleton] at hrest
    rw [List.flatMap_cons, outline_eq_places (depth + 1) hc, hrest, Tree.allPlaces,
      List.map_append, List.map_map]
    refine congrArg (· ++ _) (List.map_congr_left fun place _ => ?_)
    rw [Function.comp_apply, locate_cons hfirst, List.length_cons, Nat.add_assoc,
      Nat.add_comm 1]

end

/-- What is said of a node of a blob, and of the node that stands for it in a tree. -/
structure AnswersAs (b : Blob) (t : Tree.Node) (locate : List Nat → Node) (place : List Nat)
    (m : Tree.Node) : Prop where
  name : b.name (locate place) = .ok m.name
  properties : ∃ read : List Property, b.properties (locate place) = read.map .ok ∧
    read.map Tree.Property.ofBlob = m.properties
  property : ∀ name, ∃ found, b.property (locate place) name = .ok found ∧
    found.map Tree.Property.ofBlob = m.property? name
  children : b.children (locate place) =
    (List.range m.children.length).map fun i => .ok (locate (place ++ [i]))
  parent : b.parent (locate place) =
    .ok (if place = [] then none else some (locate place.dropLast))
  path : b.path (locate place) = .ok (t.pathTo place)

/-- The blob gives the answers of a tree, with a node of its own for each place. -/
structure ReadsAs (b : Blob) (t : Tree.Node) (locate : List Nat → Node) : Prop where
  root : b.root = .ok (locate [])
  injective : ∀ place ∈ t.places, ∀ other ∈ t.places, locate place = locate other → place = other
  answers : ∀ place m, t.at? place = some m → b.AnswersAs t locate place m
  nodeByPhandle : t.CellPhandles →
    ∀ handle, b.nodeByPhandle handle = .ok ((t.placeOfPhandle? handle).map locate)

theorem property_of_readNode (h : b.readNode n = .ok m) (name : String) :
    ∃ found, b.property n name = .ok found ∧
      found.map Tree.Property.ofBlob = m.property? name := by
  obtain ⟨-, ⟨read, hread, hproperties⟩, -⟩ := readNode_eq_ok_iff.1 h
  refine ⟨read.find? fun p => p.name == name, ?_, ?_⟩
  · rw [property, hread]
    exact Items.first?_map_ok fun _ _ => rfl
  · rw [Tree.Node.property?, ← hproperties, List.find?_map]
    rfl

private theorem phandle_of_readNode (h : b.readNode n = .ok m)
    (hcell : ∀ p, m.phandleProperty? = some p → p.value.length = Cell.size) :
    b.phandle n = .ok m.phandle? := by
  obtain ⟨first, hfirst, hfirstEq⟩ := property_of_readNode h "phandle"
  obtain ⟨second, hsecond, hsecondEq⟩ := property_of_readNode h "linux,phandle"
  have hproperty : ∃ found, b.phandleProperty n = .ok found ∧
      found.map Tree.Property.ofBlob = m.phandleProperty? := by
    rw [Tree.Node.phandleProperty?, ← hfirstEq, ← hsecondEq, phandleProperty, hfirst]
    cases first with
    | none => exact ⟨second, hsecond, rfl⟩
    | some p => exact ⟨some p, rfl, rfl⟩
  obtain ⟨found, hfound, heq⟩ := hproperty
  rw [phandle, hfound, Tree.Node.phandle?, ← heq]
  cases found with
  | none => rfl
  | some p =>
    have hlength : p.value.length = 4 := hcell _ heq.symm
    simp only [ok_bind, Property.asCell, if_pos hlength]
    rfl

/-- The phandle of `n` can be read, and is `handle`. -/
def hasPhandle (b : Blob) (handle : UInt32) (n : Node) : Bool :=
  (b.phandle n).toOption = some (some handle)

section Root

variable (hread : b.readNode root = .ok t) (hroot : b.root = .ok root)

include hread

theorem whole_of_readNode : b.Whole root := by
  intro shown hshown
  rw [outline_eq_places 0 hread] at hshown
  obtain ⟨place, -, rfl⟩ := List.mem_map.1 hshown
  rfl

include hroot

theorem exists_met_locate (hm : t.at? place = some m) :
    ∃ line, b.Met (b.locate root place) line ∧
      (b.locate root place :: line).reverse.mapM b.name = .ok (t.name :: t.namesTo place) ∧
      line.head? = if place = [] then none else some (b.locate root place.dropLast) := by
  induction place using List.reverseRecOn generalizing m with
  | nil =>
    have hname := (readNode_eq_ok_iff.1 hread).1
    have hnames : [root].reverse.mapM b.name = .ok ([] ++ [t.name]) := mapM_name_append rfl hname
    exact ⟨[], (whole_of_readNode hread).met_root hroot, hnames, rfl⟩
  | append_singleton place i ih =>
    rw [Tree.Node.at?_snoc] at hm
    obtain ⟨above, habove, hm⟩ := Option.bind_eq_some_iff.1 hm
    obtain ⟨c, hc, hchild⟩ := exists_child_of_readNode (readNode_locate hread habove) hm
    obtain ⟨line, hmet, hnames, -⟩ := ih habove
    have hname := (readNode_eq_ok_iff.1 hchild).1
    rw [locate_snoc hread habove hc, Tree.Node.namesTo_snoc habove hm]
    refine ⟨_, hmet.child (List.mem_of_getElem? hc), mapM_name_append hnames hname, ?_⟩
    simp

theorem exists_visits_of_readNode :
    ∃ visits : List Visit, b.walk = visits.map .ok ∧
      visits.map Visit.node = t.places.map (b.locate root) := by
  obtain ⟨visits, hwalk, hshown⟩ := (whole_of_readNode hread).exists_visits hroot
  refine ⟨visits, hwalk, ?_⟩
  have hnodes := congrArg (List.filterMap Outline.node?) hshown
  rw [outline_eq_places 0 hread, List.filterMap_map, List.filterMap_map] at hnodes
  rwa [← List.filterMap_eq_map, ← List.filterMap_eq_map]

omit hroot in
theorem nodeByPhandle_eq {visits : List Visit} (hcells : t.CellPhandles)
    (hwalk : b.walk = visits.map .ok)
    (hnodes : visits.map Visit.node = t.places.map (b.locate root)) (handle : UInt32) :
    b.nodeByPhandle handle = .ok ((t.placeOfPhandle? handle).map (b.locate root)) := by
  rw [nodeByPhandle, Tree.Node.placeOfPhandle?]
  cases isReservedPhandle handle with
  | true => rfl
  | false =>
    -- A node is accepted by what is read of it, a place by what the tree has there.
    have hplaces : ∀ place ∈ t.places, ∃ m, t.at? place = some m ∧
        b.phandle (b.locate root place) = .ok m.phandle? := by
      intro place hplace
      obtain ⟨m, hm⟩ := Option.isSome_iff_exists.1 (Tree.Node.mem_places_iff.1 hplace)
      exact ⟨m, hm, phandle_of_readNode (readNode_locate hread hm) (hcells place m hm)⟩
    have hvisit : ∀ v ∈ visits, (do return (← b.phandle v.node) == some handle) =
        Except.ok (b.hasPhandle handle v.node) := by
      intro v hv
      obtain ⟨place, hplace, hnode⟩ := List.mem_map.1 (hnodes ▸ List.mem_map_of_mem hv)
      obtain ⟨m, -, hm⟩ := hplaces place hplace
      simp [hasPhandle, ← hnode, hm, ok_bind, pure, Except.pure, Except.toOption, beq_eq_decide]
    have hplace : ∀ place ∈ t.places, b.hasPhandle handle (b.locate root place) =
        decide ((t.at? place).bind Tree.Node.phandle? = some handle) := by
      intro place hplace
      obtain ⟨m, hm, hphandle⟩ := hplaces place hplace
      simp [hasPhandle, hm, hphandle, Except.toOption]
    have hsame := congrArg (List.find? (b.hasPhandle handle)) hnodes
    rw [List.find?_map, List.find?_map, Function.comp_def, Function.comp_def,
      List.find?_congr hplace] at hsame
    simp only [Bool.false_eq_true, if_false, hwalk]
    rw [Items.first?_map_ok hvisit, ok_bind]
    exact congrArg Except.ok hsame

private theorem answersAs_locate (hm : t.at? place = some m) :
    b.AnswersAs t (b.locate root) place m := by
  have hlocated := readNode_locate hread hm
  obtain ⟨line, hmet, hnames, hline⟩ := exists_met_locate hread hroot hm
  obtain ⟨hname, hproperties, nodes, hnodes, hbelow⟩ := readNode_eq_ok_iff.1 hlocated
  constructor
  case name => exact hname
  case properties => exact hproperties
  case property => exact property_of_readNode hlocated
  case parent => exact parent_eq_ok_iff.2 ⟨line, hmet, hline⟩
  case path =>
    rw [hmet.path_eq hnames, Tree.Node.pathTo, List.length_cons, Tree.Node.length_namesTo hm]
    simp
  case children =>
    have hlength : (b.children (b.locate root place)).length = m.children.length := by
      rw [hnodes, List.length_map, hbelow.length_eq]
    refine List.ext_getElem (by simpa using hlength) fun i hi _ => ?_
    obtain ⟨c, hc, -⟩ :=
      exists_child_of_readNode hlocated (List.getElem?_eq_getElem (hlength ▸ hi))
    rw [List.getElem_map, List.getElem_range, locate_snoc hread hm hc]
    exact Option.some.inj ((List.getElem?_eq_getElem hi).symm.trans hc)

end Root

/-- A blob from which a tree was read gives the answers of this tree. -/
theorem readsAs_of_readTree (h : b.readTree = .ok t) : ∃ locate, b.ReadsAs t locate := by
  obtain ⟨root, hroot, hread⟩ := bind_eq_ok_iff.1 h
  obtain ⟨visits, hwalk, hnodes⟩ := exists_visits_of_readNode hread hroot
  refine ⟨b.locate root, ?_⟩
  constructor
  case root => exact hroot
  case injective =>
    have hnodup := nodup_visits hwalk
    rw [hnodes] at hnodup
    exact fun place hplace other hother => List.inj_on_of_nodup_map hnodup hplace hother
  case answers => exact fun _ _ => answersAs_locate hread hroot
  case nodeByPhandle => exact fun hcells handle => nodeByPhandle_eq hread hcells hwalk hnodes handle

end Blob

namespace Tree

variable {b : Blob} {t : Node} {bytes rest : List UInt8}

/-- However a tree without NULs in its names is written down in a structure block, the blob gives
the answers of this tree. -/
theorem readsAs_of_form (hblock : b.structBlock = bytes ++ rest)
    (hform : NodesForm b.stringsBlock [t] bytes) (hfree : t.NulFree) :
    ∃ locate, b.ReadsAs t locate :=
  Blob.readsAs_of_readTree (readTree_of_form hblock hform hfree)

/-- Two nodes that are named by phandles, the older name and the newer one. -/
def referenced : Node where
  name := ""
  children :=
    [{ name := "a", properties := [⟨"linux,phandle", [0, 0, 0, 1]⟩, ⟨"phandle", [0, 0, 0, 2]⟩] },
      { name := "bb", properties := [⟨"phandle", [0, 0, 0, 1]⟩] }]

/-- A form of `referenced` with fillers everywhere, whose padding is not zero. The newer name is the
end of the older one. -/
def patchedForm : List UInt8 :=
  let nop := Token.nop.toCell.toBytes
  let property (nameOffset : Cell) (value : List UInt8) :=
    Token.property.toCell.toBytes ++ Cell.toBytes 4 ++ nameOffset.toBytes ++ value ++ []
  let node (name : String) (pad properties children : List UInt8) :=
    Token.beginNode.toCell.toBytes ++ (Text.terminated name ++ pad) ++ properties ++ children ++
      Token.endNode.toCell.toBytes
  nop ++ (node "" [7, 8, 9] (nop ++ [])
    (nop ++ (node "a" [0xff, 0xff]
      (property 0 [0, 0, 0, 1] ++ (nop ++ (property 6 [0, 0, 0, 2] ++ (nop ++ [])))) (nop ++ []) ++
      (nop ++ (node "bb" [1] (nop ++ (property 6 [0, 0, 0, 1] ++ [])) [] ++ (nop ++ []))))) ++ [])

def patchedHeader : Header where
  magic := Header.magicNumber
  totalSize := 177
  structOffset := 40
  stringsOffset := 163
  reservationsOffset := 40
  version := 17
  lastCompatibleVersion := 16
  bootCpu := 0
  stringsSize := 14
  structSize := 123

/-- A blob with `patchedForm`, three more bytes after it, and no token that ends the block. -/
def patched : Array UInt8 :=
  (patchedHeader.toBytes ++ patchedForm ++ [0xde, 0xad, 0xbe] ++
    Text.terminated "linux,phandle").toArray

def patchedBlob : Blob where
  bytes := patched
  header := patchedHeader
  layout := ⟨by decide, by decide, by decide +kernel, by decide⟩

private theorem form_patched :
    NodesForm (Text.terminated "linux,phandle") [referenced] patchedForm := by
  have holder : Text.terminated "linux,phandle" <+:
      (Text.terminated "linux,phandle").drop (0 : Cell).toNat := by decide
  have hnewer : Text.terminated "phandle" <+:
      (Text.terminated "linux,phandle").drop (6 : Cell).toNat := by decide
  exact .nop (.node rfl (.nop .done)
    (.nop (.node rfl (.property rfl holder rfl (.nop (.property rfl hnewer rfl (.nop .done))))
      (.nop .done) (.nop (.node rfl (.nop (.property rfl hnewer rfl .done)) .done (.nop .done)))))
    .done)

theorem readsAs_patched :
    Blob.parse patched = .ok patchedBlob ∧
      (patchedBlob.structBlock = patchedForm ++ [0xde, 0xad, 0xbe] ∧
        NodesForm patchedBlob.stringsBlock [referenced] patchedForm ∧ referenced.NulFree) ∧
      ∃ locate, patchedBlob.ReadsAs referenced locate := by
  have hfront : Header.ofBytes? (patched.toList.take Header.size) = some patchedHeader := by
    decide +kernel
  have hparse : Blob.parse patched = .ok patchedBlob :=
    Blob.parse_eq hfront rfl (by decide) (by decide +kernel) patchedBlob.layout
  have hblock : patchedBlob.structBlock = patchedForm ++ [0xde, 0xad, 0xbe] := by decide +kernel
  have hstrings : patchedBlob.stringsBlock = Text.terminated "linux,phandle" := by decide +kernel
  have hform : NodesForm patchedBlob.stringsBlock [referenced] patchedForm :=
    hstrings ▸ form_patched
  have hfree : referenced.NulFree := by decide +kernel
  exact ⟨hparse, ⟨hblock, hform, hfree⟩, readsAs_of_form hblock hform hfree⟩

end Tree

end DeviceTree
