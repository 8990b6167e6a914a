import DeviceTree.Proofs.Tree.Layout
import DeviceTree.Proofs.Tree.Reading

/-!
# Flattened trees are read back

What is written for a node is a form of it, with zeros for its fillers and each name at its place in
the table. It is read from wherever it was placed as it was: its name, its properties and its
children in order, and nothing else. Every tree below 4 GiB whose names have no NUL is therefore the
tree that is read from its blob.
-/
namespace DeviceTree

open Blob (Entries)

variable {b : Blob} {names : List String} {offset : Nat}

namespace Tree

/-- Every listed name stands at its offset, and nothing is too long for its length field. -/
structure Listed (b : Blob) (names : List String) : Prop where
  size_lt : b.size < UInt32.size
  offset_lt : ∀ name ∈ names, nameOffset names name < UInt32.size
  stands : ∀ name ∈ names,
    Text.terminated name <+: b.stringsBlock.drop (nameOffset names name)

private theorem properties_form (listed : Listed b names) {properties : List Property}
    (hnames : ∀ p ∈ properties, p.name ∈ names)
    (hsize : (properties.flatMap (Property.toBytes names)).length < UInt32.size) :
    PropertiesForm b.stringsBlock properties (properties.flatMap (Property.toBytes names)) := by
  induction properties with
  | nil => exact .done
  | cons p properties ih =>
    obtain ⟨hp, hnames⟩ := List.forall_mem_cons.1 hnames
    have hvalue := le_aligned p.value.length
    rw [List.flatMap_cons, List.length_append, Property.length_toBytes] at hsize
    have hlength : (UInt32.ofNat p.value.length).toNat = p.value.length :=
      UInt32.toNat_ofNat_of_lt' (by omega)
    have hoffset : (UInt32.ofNat (nameOffset names p.name)).toNat = nameOffset names p.name :=
      UInt32.toNat_ofNat_of_lt' (listed.offset_lt _ hp)
    have hform := PropertiesForm.property hlength (hoffset ▸ listed.stands _ hp)
      (length_padded p.value) (ih hnames (by omega))
    rw [Cell.toBytes, Cell.toBytes, Cell.toBytes, hlength, hoffset] at hform
    rw [List.flatMap_cons, Property.toBytes, padded, ← List.append_assoc]
    exact hform

mutual

theorem Node.form (listed : Listed b names) : ∀ {n : Node},
    (∀ name ∈ n.usedNames, name ∈ names) → (n.toBytes names).length < UInt32.size →
      NodesForm b.stringsBlock [n] (n.toBytes names)
  | ⟨name, properties, children⟩, hused, hsize => by
    simp only [Node.usedNames, List.forall_mem_append, List.forall_mem_map] at hused
    simp only [Node.toBytes, List.length_append] at hsize
    have hinside := properties_form listed hused.1 (by omega)
    have hbelow := allNodes_form listed hused.2 (by omega)
    simpa only [Node.toBytes, padded, List.append_nil] using
      NodesForm.node (length_padded (Text.terminated name)) hinside hbelow .done

theorem allNodes_form (listed : Listed b names) : ∀ {nodes : List Node},
    (∀ name ∈ allUsedNames nodes, name ∈ names) → (allToBytes names nodes).length < UInt32.size →
      NodesForm b.stringsBlock nodes (allToBytes names nodes)
  | [], _, _ => .done
  | n :: rest, hused, hsize => by
    simp only [allUsedNames, List.forall_mem_append] at hused
    simp only [allToBytes, List.length_append] at hsize
    have hn := Node.form listed hused.1 (by omega)
    have hrest := allNodes_form listed hused.2 (by omega)
    exact hn.append hrest

end

/-- A node is one entry where it was written, and is read from there as it was. -/
theorem Node.reads (listed : Listed b names) {n : Node} (hfree : n.NulFree)
    (hused : ∀ name ∈ n.usedNames, name ∈ names) (h : b.Placed offset (n.toBytes names)) :
    Entries b offset [⟨offset⟩] (offset + (n.toBytes names).length) ∧
      b.readNode ⟨offset⟩ = .ok n := by
  have hsize : (n.toBytes names).length < UInt32.size := by
    have hle := h.le
    have hend := b.structEnd_le_size
    have hlt := listed.size_lt
    omega
  have hnames : ∀ name ∈ allNames [n], 0 ∉ Text.encode name := by
    rw [allNames, allNames, List.append_nil]
    exact hfree
  obtain ⟨read, hentries, hread, hroot⟩ := (Node.form listed hused hsize).reads hnames h
  have htoken : b.token offset = .ok .beginNode := by
    obtain ⟨name, properties, children⟩ := n
    exact h.left.left.left.left.token_eq
  cases hread with
  | cons hn hrest =>
    cases hrest
    obtain rfl := Except.ok.inj ((hroot _ rfl).symm.trans (Blob.rootFrom_beginNode htoken))
    exact ⟨hentries, hn⟩

theorem listed_table {t : Tree} (hsize : t.flatten.length < UInt32.size) :
    Listed t.blob t.table := by
  have hblock : t.stringsBlock.length ≤ t.flatten.length := by
    rw [flatten_eq, List.length_append]
    exact Nat.le_add_left _ _
  have hstrings : t.blob.stringsBlock = t.stringsBlock := t.holds_stringsBlock.slice_eq
  have hname : ∀ name ∈ t.table, Text.terminated name <+:
      t.stringsBlock.drop (nameOffset t.table name) ∧
        nameOffset t.table name < t.stringsBlock.length := by
    intro name hmem
    obtain ⟨front, back, happ, hlength⟩ := exists_append_of_mem hmem
    rw [stringsBlock, happ, ← hlength, List.drop_left, List.length_append, List.length_append,
      Text.length_terminated]
    exact ⟨List.prefix_append _ _, by omega⟩
  exact ⟨hsize, fun name hmem => Nat.lt_of_lt_of_le (hname name hmem).2 (by omega),
    fun name hmem => hstrings ▸ (hname name hmem).1⟩

/-- Nothing of a tree below 4 GiB without NULs in its names is lost, added or moved in its blob. -/
theorem readTree_flatten (t : Tree) (hsize : t.flatten.length < UInt32.size)
    (hfree : t.root.NulFree) :
    ∃ b, Blob.parse t.flatten.toArray = .ok b ∧ b.readTree = .ok t.root := by
  refine ⟨t.blob, parse_flatten hsize, ?_⟩
  have hplaced : t.blob.Placed t.header.structOffset t.structBlock :=
    ⟨t.holds_structBlock, t.header_fits.aligned, Nat.le_refl _⟩
  have hused : ∀ name ∈ t.root.usedNames, name ∈ t.table := fun _ h => mem_table h
  have hread := (Node.reads (listed_table hsize) hfree hused hplaced.left).2
  have hroot : t.blob.root = .ok ⟨t.header.structOffset⟩ := by
    obtain ⟨root, reservations⟩ := t
    obtain ⟨name, properties, children⟩ := root
    rw [structBlock, Node.toBytes] at hplaced
    exact Blob.rootFrom_beginNode hplaced.left.left.left.left.left.token_eq
  rw [Blob.readTree, hroot]
  exact hread

/-- Two serial ports on a bus: names shared between nodes, an empty name and an empty value, and
values that do not fill their last cell. -/
def serialPorts : Tree where
  root :=
    { name := ""
      properties := [⟨"#address-cells", [0, 0, 0, 1]⟩, ⟨"", []⟩]
      children :=
        [{ name := "soc"
           properties := [⟨"#address-cells", [0, 0, 0, 1]⟩, ⟨"ranges", []⟩]
           children :=
            [{ name := "uart@1000", properties := [⟨"reg", [0, 0, 16, 0, 1]⟩] },
              { name := "uart@2000", properties := [⟨"reg", [0, 0, 32]⟩, ⟨"", [0]⟩] }] },
          { name := "" }] }
  reservations := [⟨0x1000, 0x10⟩]

theorem readTree_flatten_serialPorts :
    (serialPorts.flatten.length < UInt32.size ∧ serialPorts.root.NulFree) ∧
      ∃ b, Blob.parse serialPorts.flatten.toArray = .ok b ∧ b.readTree = .ok serialPorts.root :=
  have hsize : serialPorts.flatten.length < UInt32.size := by
    rw [length_flatten]
    set_option maxRecDepth 1000 in decide
  have hfree : serialPorts.root.NulFree := by decide
  ⟨⟨hsize, hfree⟩, readTree_flatten serialPorts hsize hfree⟩

end Tree

end DeviceTree
