import DeviceTree.Proofs.Blob.Entries
import DeviceTree.Proofs.Blob.Placement
import DeviceTree.Proofs.Blob.Bounds
import DeviceTree.Proofs.Outcome
import DeviceTree.Tree.Unflatten

/-!
# The grammar of the structure block

`PropertiesForm` and `NodesForm` say which bytes stand for which properties and nodes. Fillers may
stand before each of them and after the last, any bytes may fill up to a cell boundary, and the name
of a property may be taken from any place of the strings block where it stands with its terminator.
Nothing in these forms knows of the scans. Wherever bytes of such a form are placed in the structure
block, the nodes that they stand for are read, whatever follows them.
-/
namespace DeviceTree

variable {b : Blob} {offset : Nat} {front back bytes pad strings : List UInt8}

/-- `pad` goes from the end of `bytes`, which start on a cell boundary, to the next one. -/
def Fills (pad bytes : List UInt8) : Prop :=
  (bytes ++ pad).length = aligned bytes.length

namespace Tree

inductive PropertiesForm (strings : List UInt8) : List Property → List UInt8 → Prop
  | done : PropertiesForm strings [] []
  | nop {properties bytes} (rest : PropertiesForm strings properties bytes) :
    PropertiesForm strings properties (Token.nop.toCell.toBytes ++ bytes)
  | property {p : Property} {properties pad bytes} {length nameOffset : Cell}
    (counts : length.toNat = p.value.length)
    (stands : Text.terminated p.name <+: strings.drop nameOffset.toNat)
    (fills : Fills pad p.value) (rest : PropertiesForm strings properties bytes) :
    PropertiesForm strings (p :: properties)
      (Token.property.toCell.toBytes ++ length.toBytes ++ nameOffset.toBytes ++ p.value ++ pad ++
        bytes)

inductive NodesForm (strings : List UInt8) : List Node → List UInt8 → Prop
  | done : NodesForm strings [] []
  | nop {nodes bytes} (rest : NodesForm strings nodes bytes) :
    NodesForm strings nodes (Token.nop.toCell.toBytes ++ bytes)
  | node {name : String} {properties children nodes pad propertyBytes childBytes bytes}
    (fills : Fills pad (Text.terminated name))
    (inside : PropertiesForm strings properties propertyBytes)
    (below : NodesForm strings children childBytes) (rest : NodesForm strings nodes bytes) :
    NodesForm strings (⟨name, properties, children⟩ :: nodes)
      (Token.beginNode.toCell.toBytes ++ (Text.terminated name ++ pad) ++ propertyBytes ++
        childBytes ++ Token.endNode.toCell.toBytes ++ bytes)

variable {properties : List Property} {nodes : List Node}

theorem PropertiesForm.length_mod (h : PropertiesForm strings properties bytes) :
    bytes.length % Cell.size = 0 := by
  induction h with
  | done => rfl
  | nop _ ih => simpa using ih
  | @property p properties pad bytes _ _ counts stands fills _ ih =>
    have hvalue := aligned_mod p.value.length
    rw [Fills, List.length_append] at fills
    simp only [List.length_append, Cell.length_toBytes]
    simp only [Cell.size] at *
    omega

theorem NodesForm.append {later : List Node} (h : NodesForm strings nodes front)
    (hlater : NodesForm strings later back) :
    NodesForm strings (nodes ++ later) (front ++ back) := by
  induction h with
  | done => exact hlater
  | nop _ ih =>
    rw [List.append_assoc]
    exact .nop ih
  | node fills inside below _ _ ih =>
    rw [List.append_assoc]
    exact .node fills inside below ih

theorem NodesForm.length_mod (h : NodesForm strings nodes bytes) :
    bytes.length % Cell.size = 0 := by
  induction h with
  | done => rfl
  | nop _ ih => simpa using ih
  | @node name _ _ _ pad _ _ _ fills inside _ _ ihBelow ihRest =>
    have hname := aligned_mod (Text.terminated name).length
    have hinside := inside.length_mod
    rw [Fills, List.length_append] at fills
    simp only [List.length_append, Cell.length_toBytes]
    simp only [Cell.size] at *
    omega

end Tree

namespace Blob

def structBlock (b : Blob) : List UInt8 :=
  b.slice b.header.structOffset b.structEnd

def stringsBlock (b : Blob) : List UInt8 :=
  b.slice b.header.stringsOffset b.header.stringsEnd

/-- `bytes` stand on a cell boundary inside the structure block. -/
structure Placed (b : Blob) (offset : Nat) (bytes : List UInt8) : Prop where
  holds : b.Holds offset bytes
  aligned : offset % Cell.size = 0
  le : offset + bytes.length ≤ b.structEnd

theorem placed_structBlock (h : b.structBlock = bytes) :
    b.Placed b.header.structOffset bytes := by
  subst h
  have hlength : b.structBlock.length = b.structEnd - b.header.structOffset :=
    length_slice b.structEnd_le_size
  have hend : b.header.structOffset ≤ b.structEnd := Nat.le_add_right _ _
  exact ⟨b.holds_slice _ _, b.layout.aligned, by omega⟩

/-- A name is read from wherever it stands in the strings block. -/
theorem propertyName_of_stands {name : String}
    (h : Text.terminated name <+: b.stringsBlock.drop offset) (hname : 0 ∉ Text.encode name) :
    b.propertyName offset = .ok name := by
  have hlength : b.stringsBlock.length = b.header.stringsEnd - b.header.stringsOffset :=
    length_slice b.layout.stringsEnd_le
  have hend : b.header.stringsEnd = b.header.stringsOffset + b.header.stringsSize := rfl
  have hle := h.length_le
  rw [List.length_drop, Text.length_terminated] at hle
  have hholds : b.Holds (b.header.stringsOffset + offset) (Text.terminated name) := by
    rw [stringsBlock, slice_eq, List.drop_take, List.drop_drop] at h
    exact h.trans (List.take_prefix _ _)
  exact hholds.propertyName_eq hname (by omega)

namespace Placed

theorem left (h : b.Placed offset (front ++ back)) : b.Placed offset front where
  holds := (holds_append_iff.1 h.holds).1
  aligned := h.aligned
  le := by
    have := h.le
    rw [List.length_append] at this
    omega

theorem right (h : b.Placed offset (front ++ back)) (hfront : front.length % Cell.size = 0) :
    b.Placed (offset + front.length) back where
  holds := (holds_append_iff.1 h.holds).2
  aligned := by rw [Nat.add_mod, h.aligned, hfront, Nat.zero_add, Nat.zero_mod]
  le := by
    have := h.le
    rw [List.length_append] at this
    omega

theorem token_eq {token : Token} (h : b.Placed offset token.toCell.toBytes) :
    b.token offset = .ok token :=
  h.holds.token_eq (by simpa using h.le)

theorem nodeName_eq {name : String} (hname : 0 ∉ Text.encode name)
    (fills : Fills pad (Text.terminated name))
    (h : b.Placed (offset + Cell.size) (Text.terminated name ++ pad)) :
    b.nodeName offset = .ok name ∧
      b.contents offset = .ok (offset + Cell.size + (Text.terminated name ++ pad).length) := by
  have hholds := (holds_append_iff.1 h.holds).1
  have hle := h.le
  rw [fills, Text.length_terminated] at hle ⊢
  have hlonger := le_aligned (name.utf8ByteSize + 1)
  have hstop : offset + Cell.size + (name.utf8ByteSize + 1) ≤ b.structEnd := by omega
  refine ⟨hholds.nodeName_eq hname hstop, ?_⟩
  rw [hholds.contents_eq hname hstop, Nat.add_assoc _ name.utf8ByteSize, aligned_add h.aligned]

theorem property_eq {name : String} {value : List UInt8} {length nameOffset : Cell}
    (h : b.Placed offset (Token.property.toCell.toBytes ++ length.toBytes ++ nameOffset.toBytes ++
      value ++ pad))
    (counts : length.toNat = value.length) (fills : Fills pad value)
    (hname : b.propertyName nameOffset.toNat = .ok name) :
    b.token offset = .ok .property ∧
      b.afterProperty offset = .ok (offset + (Token.property.toCell.toBytes ++ length.toBytes ++
        nameOffset.toBytes ++ value ++ pad).length) ∧
      b.propertyAt offset = .ok ⟨name, value, offset + 3 * Cell.size⟩ := by
  have hmod : (offset + 3 * Cell.size) % Cell.size = 0 := by
    rw [Nat.add_mul_mod_self_right]
    exact h.aligned
  have hlength : offset + (Token.property.toCell.toBytes ++ length.toBytes ++ nameOffset.toBytes ++
      value ++ pad).length = DeviceTree.aligned (offset + 3 * Cell.size + value.length) := by
    rw [aligned_add hmod, ← fills]
    simp only [List.length_append, Cell.length_toBytes, Cell.size]
    omega
  have hle := h.le
  have htoken := h.left.left.left.left.token_eq
  have hheld := h.left.holds
  have hvalue : value.length < UInt32.size := counts ▸ length.toNat_lt
  have hoffset : nameOffset.toNat < UInt32.size := nameOffset.toNat_lt
  rw [Cell.toBytes, Cell.toBytes, Cell.toBytes, counts] at hheld
  rw [hlength] at hle ⊢
  exact ⟨htoken, hheld.afterProperty_eq hvalue hoffset hle,
    hheld.propertyAt_eq hvalue hoffset hname⟩

end Placed

end Blob

end DeviceTree
