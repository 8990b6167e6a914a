import DeviceTree.Proofs.Blob.Placement
import DeviceTree.Proofs.Tree.Names
import DeviceTree.Tree.Unflatten

/-!
# The layout of a flattened tree

Every piece of the structure block is a whole number of cells, every property name used in a tree
has its place in the strings block, and the header of a flattened tree below 4 GiB is read back as
it was written, so that the blob is accepted with each block where its header says.
-/
namespace DeviceTree

namespace Tree

variable {names : List String} {name : String}

theorem length_padded (bytes : List UInt8) : (padded bytes).length = aligned bytes.length := by
  have := le_aligned bytes.length
  simp only [padded, List.length_append, List.length_replicate]
  omega

private theorem length_padded_mod (bytes : List UInt8) : (padded bytes).length % Cell.size = 0 := by
  rw [length_padded, aligned_mod]

theorem Property.length_toBytes (names : List String) (p : Property) :
    (p.toBytes names).length = 3 * Cell.size + aligned p.value.length := by
  simp only [Property.toBytes, List.length_append, Cell.length_toBytes, length_bigEndian,
    length_padded, Cell.size]

private theorem length_properties_mod (names : List String) (properties : List Property) :
    (properties.flatMap (Property.toBytes names)).length % Cell.size = 0 := by
  induction properties with
  | nil => rfl
  | cons p properties ih =>
    have := aligned_mod p.value.length
    rw [List.flatMap_cons, List.length_append, Property.length_toBytes]
    simp only [Cell.size] at *
    omega

mutual

theorem Node.length_toBytes_mod (names : List String) :
    ∀ n : Node, (n.toBytes names).length % Cell.size = 0
  | ⟨name, properties, children⟩ => by
    have hname := length_padded_mod (Text.terminated name)
    have hproperties := length_properties_mod names properties
    have hchildren := length_allToBytes_mod names children
    simp only [Node.toBytes, List.length_append, Cell.length_toBytes]
    simp only [Cell.size] at *
    omega

theorem length_allToBytes_mod (names : List String) :
    ∀ nodes : List Node, (allToBytes names nodes).length % Cell.size = 0
  | [] => rfl
  | n :: rest => by
    have hn := Node.length_toBytes_mod names n
    have hrest := length_allToBytes_mod names rest
    simp only [allToBytes, List.length_append]
    simp only [Cell.size] at *
    omega

end

mutual

theorem Node.mem_names_of_mem_usedNames :
    ∀ n : Node, name ∈ n.usedNames → name ∈ n.names
  | ⟨_, properties, children⟩ => by
    have hchildren := mem_allNames_of_mem_allUsedNames children
    simp only [Node.usedNames, Node.names, List.mem_append, List.mem_cons]
    rintro (h | h)
    · exact .inl (.inr h)
    · exact .inr (hchildren h)

theorem mem_allNames_of_mem_allUsedNames :
    ∀ nodes : List Node, name ∈ allUsedNames nodes → name ∈ allNames nodes
  | [] => id
  | n :: rest => by
    have hn := Node.mem_names_of_mem_usedNames n
    have hrest := mem_allNames_of_mem_allUsedNames rest
    simp only [allUsedNames, allNames, List.mem_append]
    exact Or.imp hn hrest

end

theorem exists_append_of_mem (h : name ∈ names) :
    ∃ front back, names.flatMap Text.terminated = front ++ (Text.terminated name ++ back) ∧
      front.length = nameOffset names name := by
  induction names with
  | nil => simp at h
  | cons earlier names ih =>
    by_cases heq : earlier = name
    · exact ⟨[], names.flatMap Text.terminated, by simp [heq], by simp [nameOffset, heq]⟩
    · obtain ⟨front, back, happ, hlength⟩ := ih (List.mem_of_ne_of_mem (Ne.symm heq) h)
      refine ⟨Text.terminated earlier ++ front, back, ?_, ?_⟩
      · rw [List.flatMap_cons, happ, List.append_assoc]
      · rw [List.length_append, hlength, Text.length_terminated, nameOffset, if_neg heq]

def table (t : Tree) : List String :=
  addNames [] t.root.usedNames

def reservationsBlock (t : Tree) : List UInt8 :=
  (t.reservations ++ [Reservation.terminator]).flatMap Reservation.toBytes

def structBlock (t : Tree) : List UInt8 :=
  t.root.toBytes t.table ++ Token.finish.toCell.toBytes

def stringsBlock (t : Tree) : List UInt8 :=
  t.table.flatMap Text.terminated

def header (t : Tree) : Header :=
  headerFor t.reservationsBlock.length t.structBlock.length t.stringsBlock.length

theorem flatten_eq (t : Tree) :
    t.flatten = t.header.toBytes ++ t.reservationsBlock ++ t.structBlock ++ t.stringsBlock := by
  have hwrite : t.root.write (.ofNames []) = (t.root.toBytes t.table, .ofNames t.table) :=
    Node.write_ofNames t.root List.prefix_rfl
  have hrun : t.root.write.run {} = (t.root.toBytes t.table, .ofNames t.table) := hwrite
  rw [flatten, hrun]
  simp only [StringTable.toBytes_ofNames]
  rfl

theorem length_header_toBytes (h : Header) : h.toBytes.length = Header.size := by
  simp [Header.toBytes, Header.words, Header.size]

private theorem length_reservationsBlock_mod (t : Tree) :
    t.reservationsBlock.length % Cell.size = 0 := by
  rw [reservationsBlock]
  induction t.reservations ++ [Reservation.terminator] with
  | nil => rfl
  | cons r reservations ih =>
    rw [List.flatMap_cons, List.length_append, Reservation.toBytes, List.length_append,
      length_bigEndian, length_bigEndian]
    simp only [Cell.size] at *
    omega

theorem length_flatten (t : Tree) : t.flatten.length = t.header.totalSize := by
  simp only [flatten_eq, List.length_append, length_header_toBytes, header, headerFor]

theorem mem_table {t : Tree} (h : name ∈ t.root.usedNames) : name ∈ t.table :=
  mem_addNames h

theorem header_fits (t : Tree) : t.header.Fits t.flatten.length where
  reservations_le := Nat.le_add_right _ _
  structEnd_le := Nat.le_refl _
  stringsEnd_le := by
    rw [length_flatten]
    exact Nat.le_refl _
  aligned := by
    have := length_reservationsBlock_mod t
    simp only [header, headerFor, Header.size]
    simp only [Cell.size] at *
    omega

end Tree

namespace Header

theorem ofBytes?_toBytes {h : Header} (hwords : ∀ word ∈ h.words, word < UInt32.size)
    (rest : List UInt8) : ofBytes? ((h.toBytes ++ rest).take size) = some h := by
  have hlength : h.toBytes.length = size := Tree.length_header_toBytes h
  rw [List.take_append_of_le_length (Nat.le_of_eq hlength.symm),
    List.take_of_length_le (Nat.le_of_eq hlength), ofBytes?,
    List.take_of_length_le (Nat.le_of_eq hlength), toBytes, Cell.map_toNat_ofBytes_flatMap hwords]
  rfl

end Header

namespace Blob

/-- Bytes are accepted with a header that is found in front of them and describes them. -/
theorem parse_eq {bytes : Array UInt8} {header : Header}
    (hfront : Header.ofBytes? (bytes.toList.take Header.size) = some header)
    (hmagic : header.magic = Header.magicNumber) (hversion : header.IsReadable)
    (hsize : header.totalSize = bytes.size) (hfits : header.Fits bytes.size) :
    parse bytes = .ok ⟨bytes, header, hfits⟩ := by
  have hextract : (bytes.extract 0 Header.size).toList = bytes.toList.take Header.size := by
    simp
  have hlayout := Header.layoutFault?_eq_none_iff.2 hfits
  rw [parse, hextract, hfront]
  simp only [hmagic, hversion, hsize, ne_eq, not_true_eq_false, if_false]
  split
  · simp_all
  · rfl

end Blob

namespace Tree

variable {t : Tree}

/-- The blob that a tree below 4 GiB is accepted as. -/
def blob (t : Tree) : Blob where
  bytes := t.flatten.toArray
  header := t.header
  layout := t.header_fits

theorem parse_flatten (h : t.flatten.length < UInt32.size) :
    Blob.parse t.flatten.toArray = .ok t.blob := by
  have hlength := t.length_flatten
  have hwords : ∀ word ∈ t.header.words, word < UInt32.size := by
    rw [hlength] at h
    simp only [header, headerFor] at h
    simp only [header, headerFor, Header.words, List.forall_mem_cons, List.not_mem_nil,
      false_implies, implies_true, and_true]
    refine ⟨by decide, h, ?_, ?_, by decide, by decide, by decide, by decide, ?_, ?_⟩ <;> omega
  have hfront : Header.ofBytes? (t.flatten.take Header.size) = some t.header := by
    rw [flatten_eq, List.append_assoc, List.append_assoc]
    exact Header.ofBytes?_toBytes hwords _
  have hversion : t.header.IsReadable := ⟨show 16 ≤ 17 by decide, Nat.le_refl 17⟩
  have hsize : t.header.totalSize = t.flatten.toArray.size := hlength.symm
  exact Blob.parse_eq hfront rfl hversion hsize t.header_fits

theorem holds_structBlock (t : Tree) : t.blob.Holds t.header.structOffset t.structBlock := by
  refine ⟨t.stringsBlock, ?_⟩
  have hlength : (t.header.toBytes ++ t.reservationsBlock).length = t.header.structOffset := by
    rw [List.length_append, length_header_toBytes]
    rfl
  change t.structBlock ++ t.stringsBlock = t.flatten.drop t.header.structOffset
  rw [flatten_eq, List.append_assoc _ t.structBlock, ← hlength, List.drop_left]

theorem holds_stringsBlock (t : Tree) : t.blob.Holds t.header.stringsOffset t.stringsBlock := by
  refine ⟨[], ?_⟩
  have hlength : (t.header.toBytes ++ t.reservationsBlock ++ t.structBlock).length =
      t.header.stringsOffset := by
    rw [List.length_append, List.length_append, length_header_toBytes]
    rfl
  change t.stringsBlock ++ [] = t.flatten.drop t.header.stringsOffset
  rw [flatten_eq, ← hlength, List.drop_left, List.append_nil]

end Tree

end DeviceTree
