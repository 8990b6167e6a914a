import DeviceTree.Proofs.Machine.Lookups
import DeviceTree.Proofs.Tree.Layout

/-!
# Hostile blobs

Whatever the bytes of an accepted blob say, every operation of the reader ends without a trap. Its
iterators go forward inside the structure block, come to an end, and fail once at most. What they
find in a property lies inside the blocks.
-/
namespace DeviceTree.Machine

/-- The calls of `it` give `items` in order and nothing more. A failure is the last of them. -/
structure Iterator.Drains {σ α : Type} (it : Iterator σ α) (items : Items α) : Prop where
  yields : it.Yields items
  length_eq : ∀ k e, items[k]? = some (.error e) → items.length = k + 1

theorem Iterator.Yields.drains {σ α : Type} {it : Iterator σ α} {items : Items α}
    (h : it.Yields items) : it.Drains items :=
  ⟨h, fun _ _ => h.length_eq⟩

/-- The operations on `data` end with what is in the blob `b`, whose tokens and properties are where
they should be. -/
structure SafelyRead (data : List UInt8) (b : Blob) : Prop where
  root : root data = returns b.root
  findNode : ∀ path, findNode data path = returns (b.findNode path)
  nodeByPhandle : ∀ handle, nodeByPhandle data handle = returns (b.nodeByPhandle handle)
  parent : ∀ n, parent data n = returns (b.parent n)
  path : ∀ n, path data n = returns (b.path n)
  walk : (walk data).Drains (b.walk.map (Except.map leveled))
  walk_spaced : b.Spaced 8 b.header.structOffset (b.walk.values.map fun v => v.node.offset)
  children : ∀ n, b.Reached n → (children data n).Drains (b.children n)
  children_spaced : ∀ n, b.Reached n →
    b.Spaced 8 b.header.structOffset ((b.children n).values.map Node.offset)
  properties : ∀ n, b.Reached n → (properties data n).Drains (b.properties n)
  properties_spaced : ∀ n, b.Reached n →
    b.Spaced 12 b.header.structOffset ((b.properties n).values.map Property.tokenOffset)
  holdsProperty : ∀ n p, b.Reached n → .ok p ∈ b.properties n → b.HoldsProperty p
  reservations : ∃ it, reservations data = pure it ∧ it.Drains b.reservations

/-- No accepted blob makes the reader trap, loop or leave its blocks. -/
theorem safelyRead_of_parse {bytes : Array UInt8} {b : Blob} (h : Blob.parse bytes = .ok b) :
    SafelyRead bytes.toList b := by
  obtain ⟨rfl, -, -⟩ := Blob.parse_eq_ok h
  have hb : b.Accepted := h
  have hoffset : ∀ n, b.Reached n → n.offset < 2 * UInt32.size := fun n hn => lt_of_fits hb hn.fits
  obtain ⟨it, hit, hreservations⟩ := reservations_yields hb
  exact
    { root := root_eq hb
      findNode := findNode_eq hb
      nodeByPhandle := nodeByPhandle_eq hb
      parent := fun _ => parent_eq hb
      path := fun _ => path_eq hb
      walk := (walk_yields hb).drains
      walk_spaced := b.walk_spaced
      children := fun n hn => (children_yields hb (hoffset n hn)).drains
      children_spaced := fun n hn => hn.fits.children_spaced
      properties := fun n hn => (properties_yields hb (hoffset n hn)).drains
      properties_spaced := fun n hn => hn.fits.properties_spaced
      holdsProperty := fun n p hn => hn.fits.holdsProperty
      reservations := ⟨it, hit, hreservations.drains⟩ }

def hostileHeader : Header where
  magic := Header.magicNumber
  totalSize := 60
  structOffset := 40
  stringsOffset := 60
  reservationsOffset := 40
  version := 17
  lastCompatibleVersion := 16
  bootCpu := 0
  stringsSize := 0
  structSize := 20

/-- A root with one property, of the largest length and with the largest name offset that can be
written. Nothing closes the node, the blocks or the reservations. -/
def hostile : Array UInt8 :=
  (hostileHeader.toBytes ++ [0, 0, 0, 1, 0, 0, 0, 0, 0, 0, 0, 3] ++ List.replicate 8 0xff).toArray

theorem safelyRead_hostile :
    ∃ b, Blob.parse hostile = .ok b ∧ b.Reached ⟨40⟩ ∧ SafelyRead hostile.toList b := by
  have hfits : hostileHeader.Fits hostile.size :=
    ⟨by decide, by decide, by decide +kernel, by decide⟩
  have hfront : Header.ofBytes? (hostile.toList.take Header.size) = some hostileHeader := by
    decide +kernel
  have hparse : Blob.parse hostile = .ok ⟨hostile, hostileHeader, hfits⟩ :=
    Blob.parse_eq hfront rfl (by decide) (by decide +kernel) hfits
  have hheld : Token.beginNode.toCell.toBytes <+: hostile.toList.drop 40 := by decide +kernel
  have hend : 40 + Cell.size ≤ hostileHeader.structEnd := by decide
  have htoken : Blob.token ⟨hostile, hostileHeader, hfits⟩ 40 = .ok .beginNode :=
    Blob.Holds.token_eq hheld hend
  exact ⟨_, hparse, .root (Blob.rootFrom_beginNode htoken), safelyRead_of_parse hparse⟩

end DeviceTree.Machine
