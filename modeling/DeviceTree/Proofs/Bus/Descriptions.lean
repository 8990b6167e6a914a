import DeviceTree.Proofs.Bus.Reachable
import DeviceTree.Proofs.Value.Cursor

/-!
# Devices say what the blob says

A device is made from its node and from the cell counts of the device above it, and is never read
again. Since the device above it is the one of the node's parent, its counts are those of the tree
whichever way it was found, and each of them is one that is decoded.
-/
namespace DeviceTree

variable {ι : Type} {b : Blob} {n m : Node} {above : Option Node} {name : String}
  {absent count : UInt32} {cells below : Cells}

namespace Blob

/-- The node has the property `name`, a cell that holds `count`. -/
def Declares (b : Blob) (n : Node) (name : String) (count : UInt32) : Prop :=
  ∃ p, b.property n name = .ok (some p) ∧ p.asCell = .ok count

theorem cellCount_eq_ok (h : b.cellCount n name absent = .ok count) :
    count.toNat ≤ Cursor.maximumCells ∧
      ∀ declared, b.Declares n name declared → declared = count := by
  have hguard : ∀ {found : UInt32}, (if Cells.maximum < found then
      throw (.device (.tooManyCells found)) else pure found : Except Error UInt32) = .ok count →
        found = count ∧ count.toNat ≤ Cursor.maximumCells := by
    intro found hfound
    split at hfound
    case isTrue => cases hfound
    case isFalse hle =>
      obtain rfl := Except.ok.inj hfound
      exact ⟨rfl, UInt32.le_iff_toNat_le.1 (UInt32.not_lt.1 hle)⟩
  obtain ⟨found, hfound, h⟩ := bind_eq_ok_iff.1 h
  rw [liftM_eq_ok_iff] at hfound
  cases found with
  | none =>
    obtain ⟨-, hle⟩ := hguard h
    refine ⟨hle, ?_⟩
    rintro declared ⟨p, hp, -⟩
    simp [hfound] at hp
  | some p =>
    obtain ⟨read, hread, h⟩ := bind_eq_ok_iff.1 h
    obtain ⟨rfl, hle⟩ := hguard h
    refine ⟨hle, ?_⟩
    rintro declared ⟨same, hsame, hdeclared⟩
    obtain rfl : p = same := by simpa [hfound] using hsame
    exact Except.ok.inj (hdeclared.symm.trans (liftM_eq_ok_iff.1 hread))

theorem cells_eq_ok (h : b.cells n above = .ok cells) :
    b.addressCells n = .ok cells.childAddress ∧ b.sizeCells n = .ok cells.childSize ∧
      b.addressCells (above.getD n) = .ok cells.address ∧
      b.sizeCells (above.getD n) = .ok cells.size := by
  obtain ⟨childAddress, hchildAddress, h⟩ := bind_eq_ok_iff.1 h
  obtain ⟨childSize, hchildSize, h⟩ := bind_eq_ok_iff.1 h
  cases above with
  | none =>
    cases h
    exact ⟨hchildAddress, hchildSize, hchildAddress, hchildSize⟩
  | some p =>
    obtain ⟨address, haddress, h⟩ := bind_eq_ok_iff.1 h
    obtain ⟨size, hsize, h⟩ := bind_eq_ok_iff.1 h
    cases h
    exact ⟨hchildAddress, hchildSize, haddress, hsize⟩

theorem cells_decodable (h : b.cells n above = .ok cells) : cells.Decodable := by
  obtain ⟨hchildAddress, hchildSize, haddress, hsize⟩ := cells_eq_ok h
  exact ⟨(cellCount_eq_ok haddress).1, (cellCount_eq_ok hsize).1, (cellCount_eq_ok hchildAddress).1,
    (cellCount_eq_ok hchildSize).1⟩

end Blob

theorem Cells.cells_of_forChild (h : b.cells m above = .ok cells)
    (hbelow : cells.forChild b n = .ok below) : b.cells n (some m) = .ok below := by
  obtain ⟨haddress, hsize, -, -⟩ := Blob.cells_eq_ok h
  obtain ⟨childAddress, hchildAddress, hbelow⟩ := bind_eq_ok_iff.1 hbelow
  obtain ⟨childSize, hchildSize, hbelow⟩ := bind_eq_ok_iff.1 hbelow
  rw [Blob.cells, hchildAddress, ok_bind, hchildSize, ok_bind]
  dsimp only
  rw [haddress, ok_bind, hsize]
  exact hbelow

/-- What a device says of its node is what the blob says, and its cell counts are those of the node
below its parent. -/
structure Device.Describes (b : Blob) (device : Device ι) : Prop where
  name : b.name device.node = .ok device.name
  status : b.status device.node = .ok device.status
  dmaCoherent : b.dmaCoherent device.node = .ok device.dmaCoherent
  deviceType : b.deviceType device.node = .ok device.deviceType
  cells : ∃ above, b.parent device.node = .ok above ∧ b.cells device.node above = .ok device.cells

namespace Device.Describes

variable {device old other : Device ι}

private theorem of_ofNode {above? : Option Handle}
    (hnew : Device.ofNode b n above? cells = .ok device)
    (hparent : b.parent n = .ok above) (hcells : b.cells n above = .ok cells) :
    device.Describes b := by
  obtain ⟨name, hname, hnew⟩ := bind_eq_ok_iff.1 hnew
  obtain ⟨status, hstatus, hnew⟩ := bind_eq_ok_iff.1 hnew
  obtain ⟨dmaCoherent, hdmaCoherent, hnew⟩ := bind_eq_ok_iff.1 hnew
  obtain ⟨deviceType, hdeviceType, hnew⟩ := bind_eq_ok_iff.1 hnew
  cases hnew
  exact ⟨hname, hstatus, hdmaCoherent, hdeviceType, above, hparent, hcells⟩

theorem congr (h : old.Describes b) (heq : device = { old with
    connected := device.connected, children := device.children, io := device.io }) :
    device.Describes b := by
  rw [heq]
  exact ⟨h.name, h.status, h.dmaCoherent, h.deviceType, h.cells⟩

theorem decodable (h : device.Describes b) : device.cells.Decodable := by
  obtain ⟨_, -, hcells⟩ := h.cells
  exact Blob.cells_decodable hcells

/-- What is declared for the node, or by its parent for it, is what the device has, and so it is
decoded. -/
theorem count_le (h : device.Describes b)
    (hm : m = device.node ∨ b.parent device.node = .ok (some m))
    (hname : name = "#address-cells" ∨ name = "#size-cells") (hcount : b.Declares m name count) :
    count.toNat ≤ Cursor.maximumCells := by
  obtain ⟨above, habove, hcells⟩ := h.cells
  obtain ⟨hchildAddress, hchildSize, haddress, hsize⟩ := Blob.cells_eq_ok hcells
  rcases hm with rfl | hparent
  · rcases hname with rfl | rfl
    · obtain ⟨hle, heq⟩ := Blob.cellCount_eq_ok hchildAddress
      exact heq count hcount ▸ hle
    · obtain ⟨hle, heq⟩ := Blob.cellCount_eq_ok hchildSize
      exact heq count hcount ▸ hle
  · obtain rfl : above = some m := by simpa [habove] using hparent
    rcases hname with rfl | rfl
    · obtain ⟨hle, heq⟩ := Blob.cellCount_eq_ok haddress
      exact heq count hcount ▸ hle
    · obtain ⟨hle, heq⟩ := Blob.cellCount_eq_ok hsize
      exact heq count hcount ▸ hle

end Device.Describes

namespace Registry

variable {r next : Registry ι} {h parent : Handle} {device : Device ι}

theorem Sound.parent_eq_none_iff (hsound : r.Sound) (hd : r.device? h = some device)
    (habove : r.blob.parent device.node = .ok above) :
    above = none ↔ r.blob.root = .ok device.node := by
  obtain ⟨root, hroot, -, htop, hnone⟩ := hsound.root
  constructor
  · rintro rfl
    by_cases heq : h = rootHandle
    · subst heq
      obtain rfl : root = device := by simpa [hroot] using hd
      exact htop
    · obtain ⟨_, _, -, -, -, hparent⟩ := hsound.parent h device hd heq
      simp [habove] at hparent
  · intro hsame
    have hnode : root.node = device.node := Except.ok.inj (htop.symm.trans hsame)
    rw [← hnode, hnone] at habove
    exact (Except.ok.inj habove).symm

/-- Every live device describes its node. -/
def Truthful (r : Registry ι) : Prop :=
  ∀ h device, r.device? h = some device → device.Describes r.blob

/-- The device that a change creates gets its counts from the one above it, whose counts are those
of the tree. -/
theorem Truthful.step (htrue : r.Truthful) (hsound : r.Sound) (hstep : Step r next) :
    next.Truthful := by
  intro k device hk
  rw [hstep.blob_eq]
  rcases hstep.exists_of_device? hsound hk with
    ⟨old, hold, heq⟩ | ⟨-, parent, above, hlive, -, hbelow, hnew⟩
  · exact (htrue k old hold).congr heq
  · obtain ⟨same, hsame, hnew⟩ := bind_eq_ok_iff.1 hnew
    obtain rfl := Option.some.inj (hlive.symm.trans (device_eq_ok_iff.1 hsame))
    obtain ⟨cells, hcells, hnew⟩ := bind_eq_ok_iff.1 hnew
    obtain ⟨_, -, habove⟩ := (htrue parent above hlive).cells
    exact .of_ofNode (liftM_eq_ok_iff.1 hnew) hbelow (Cells.cells_of_forChild habove hcells)

theorem Truthful.steps (htrue : r.Truthful) (hsound : r.Sound) (hsteps : Steps r next) :
    next.Truthful := by
  induction hsteps with
  | refl => exact htrue
  | tail hbefore hstep ih => exact ih.step (Steps.sound hbefore hsound) hstep

theorem truthful_ofBlob (hr : Registry.ofBlob b = .ok r) : r.Truthful := by
  obtain ⟨hblob, hsound⟩ := sound_ofBlob hr
  obtain ⟨root, cells, device, -, hcells, hdevice, -, hview, -⟩ := ofBlob_eq_ok hr
  obtain ⟨first, hfirst, -, -, htop⟩ := hsound.root
  intro k live hk
  rw [hview] at hk hfirst
  split at hk
  case isFalse => cases hk
  case isTrue =>
    obtain rfl := Option.some.inj hk
    obtain rfl := Option.some.inj hfirst
    obtain ⟨hnode, -⟩ := ofNode_eq_ok hdevice
    simp only [hblob, hnode] at htop
    have hdescribes : device.Describes b := .of_ofNode hdevice htop hcells
    rw [hblob]
    exact hdescribes.congr rfl

end Registry

theorem Bus.Reachable.truthful {σ : Type} [Platform σ ι] {bus : Bus σ ι}
    (hbus : Reachable b bus) : bus.registry.Truthful := by
  obtain ⟨platform, start, hstart, hlater⟩ := hbus
  obtain ⟨r, hr, hbus⟩ := bind_eq_ok_iff.1 hstart
  obtain rfl : _ = start := Except.ok.inj hbus
  obtain ⟨-, hsound⟩ := Registry.sound_ofBlob hr
  exact (Registry.truthful_ofBlob hr).steps hsound (hlater.steps hsound)

end DeviceTree
